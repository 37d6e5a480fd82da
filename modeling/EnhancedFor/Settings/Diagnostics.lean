import EnhancedFor.Java.Identifier
import EnhancedFor.Settings.Basic
import EnhancedFor.Settings.LogFilter

/-!
What is wrong with settings that could be read: values that nothing can be done with, and values
that are probably a mistake.
-/

namespace EnhancedFor

inductive SettingsWarning where
  | invalidValue (path message : String)
  | invalidLevel (value normalized : String)
  deriving DecidableEq, Repr

structure SettingsError where
  path : String
  message : String
  deriving DecidableEq, Repr

structure SettingsDiagnostics where
  unknownKeys : List String
  warnings : List SettingsWarning
  errors : List SettingsError
  deriving DecidableEq, Repr

namespace SettingsDiagnostics

def isEmpty (d : SettingsDiagnostics) : Bool :=
  d.unknownKeys.isEmpty && d.warnings.isEmpty && d.errors.isEmpty

def isOk (d : SettingsDiagnostics) : Bool := d.errors.isEmpty

end SettingsDiagnostics

namespace Settings

def sourceErrors (s : Settings) : List SettingsError :=
  if s.java.source == 0 then [⟨"java.source", "must be >= 1"⟩] else []

def sourceWarnings (s : Settings) : List SettingsWarning :=
  if s.java.source != 0 && !s.level.supports .enhancedFor then
    [.invalidValue "java.source"
      ("source level " ++ toString s.java.source ++ " predates Java " ++
        toString Java.Feature.enhancedFor.since ++ "; loop conversion is never offered")]
  else []

def nameErrors (s : Settings) : List SettingsError :=
  let name := s.convertLoop.defaultElementName
  if Java.isIdentifier name then []
  else [⟨"convert_loop.default_element_name", "`" ++ name ++ "` is not a valid Java identifier"⟩]

def levelWarnings (s : Settings) : Except Fault (List SettingsWarning) := do
  let normalized := LogFilter.normalize s.logging.level
  if (← LogFilter.parse? normalized).isSome then return []
  return [.invalidLevel s.logging.level normalized]

/-- All that is wrong, in the order of the sections. -/
def validate (s : Settings) (unknownKeys : List String) : Except Fault SettingsDiagnostics := do
  return ⟨unknownKeys, sourceWarnings s ++ (← levelWarnings s), sourceErrors s ++ nameErrors s⟩

end Settings
end EnhancedFor
