import EnhancedFor.Json.Value
import EnhancedFor.Settings.Basic

/-!
The JSON schema of a settings file. Its defaults are those of the settings themselves.
-/

namespace EnhancedFor.Settings

private def described (description : String) (default : JsonValue)
    (rest : List (String × JsonValue)) : JsonValue :=
  .object (("description", .string description) :: ("default", default) :: rest)

private def typed (type : String) : String × JsonValue := ("type", .string type)

private def closedObject (properties : List (String × JsonValue)) : List (String × JsonValue) :=
  [typed "object", ("additionalProperties", .boolean false), ("properties", .object properties)]

private def fileDefault (s : LoggingSettings) : JsonValue := s.file.elim .null .string

def javaSchema (s : JavaSettings) : JsonValue :=
  .object (closedObject [
    ("source", described "Java feature release of the sources (`4` for 1.4, `8`, `17`, ...)."
      (.number (toString s.source))
      [typed "integer", ("format", .string "uint16"), ("minimum", .number "1.0")])])

def convertLoopSchema (s : ConvertLoopSettings) : JsonValue :=
  .object (closedObject [
    ("default_element_name", described
      "Identifier proposed for the loop variable when the iterator is raw."
      (.string s.defaultElementName) [typed "string"]),
    ("strict", described
      ("Only offer the conversion when the loop is driven solely by `hasNext()`/`next()` (or " ++
        "`hasMoreElements()`/`nextElement()`) on the iterator.\n\nWith `strict = false` any " ++
        "loop with a recognized iterator and iterable is offered, and the rewrite drops its " ++
        "condition and updaters.")
      (.boolean s.strict) [typed "boolean"])])

def loggingSchema (s : LoggingSettings) : JsonValue :=
  .object (closedObject [
    ("level", described
      "Logging level for all jfix crates, or a full `EnvFilter` directive string."
      (.string s.level) [typed "string"]),
    ("json", described "Emit logs in JSON format." (.boolean s.json) [typed "boolean"]),
    ("stderr", described "Write logs to stderr." (.boolean s.stderr) [typed "boolean"]),
    ("file", described
      ("Append logs to the given file path.\n\nIf the file cannot be opened, file logging is " ++
        "disabled while stderr stays active.")
      (fileDefault s) [("type", .array [.string "string", .string "null"])])])

private def reference (name description : String) (default : JsonValue) : JsonValue :=
  described description default
    [("allOf", .array [.object [("$ref", .string ("#/definitions/" ++ name))]])]

/-- The schema, with a definition for each section. -/
def schema : JsonValue :=
  let s : Settings := {}
  .object ([
    ("$schema", .string "http://json-schema.org/draft-07/schema#"),
    ("title", .string "JfixConfig"),
    ("description", .string
      ("Top-level `jfix.toml` configuration.\n\n```toml [java] source = 17\n\n[convert_loop] " ++
        "default_element_name = \"element\" strict = true\n\n[logging] level = \"info\" json = " ++
        "false stderr = true file = \"/tmp/jfix.log\" ```")),
    ("definitions", .object [
      ("JavaConfig", javaSchema s.java),
      ("ConvertLoopConfig", convertLoopSchema s.convertLoop),
      ("LoggingConfig", loggingSchema s.logging)])] ++
    closedObject [
      ("java", reference "JavaConfig" "Source settings of the project the fixes run against."
        (.object [("source", .number (toString s.java.source))])),
      ("convert_loop", reference "ConvertLoopConfig"
        "Settings for the \"convert to enhanced for loop\" quick fix."
        (.object [("default_element_name", .string s.convertLoop.defaultElementName),
          ("strict", .boolean s.convertLoop.strict)])),
      ("logging", reference "LoggingConfig" "Global logging settings for jfix crates."
        (.object [("level", .string s.logging.level), ("json", .boolean s.logging.json),
          ("stderr", .boolean s.logging.stderr), ("file", fileDefault s.logging)]))])

end EnhancedFor.Settings
