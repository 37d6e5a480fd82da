import EnhancedFor.Toml.Reader
import EnhancedFor.Settings.Diagnostics

/-!
Settings from TOML text. A section is a table, or an array of its values in the order of its fields.
Keys that no field has are noted and otherwise ignored.
-/

namespace EnhancedFor

inductive LoadError where
  | unreadable
  | malformed
  | fault (fault : Fault)
  deriving DecidableEq, Repr

def LoadError.label : LoadError → String
  | .unreadable => "Io"
  | .malformed => "Toml"
  | .fault _ => "panic"

namespace Settings

/-- How a section takes the value of one of its fields. -/
structure Field (α : Type) where
  key : String
  set : α → Toml → Option α

def boolField (key : String) (set : α → Bool → α) : Field α :=
  ⟨key, fun s v => match v with
    | .boolean b => some (set s b)
    | _ => none⟩

def textField (key : String) (set : α → String → α) : Field α :=
  ⟨key, fun s v => match v with
    | .string t => some (set s t)
    | _ => none⟩

/-- Whole numbers of 16 bits. -/
def numberField (key : String) (set : α → Nat → α) : Field α :=
  ⟨key, fun s v => match v with
    | .integer n => if 0 ≤ n && n < 65536 then some (set s n.toNat) else none
    | _ => none⟩

def javaFields : List (Field JavaSettings) :=
  [numberField "source" fun s n => { s with source := n }]

def convertLoopFields : List (Field ConvertLoopSettings) :=
  [textField "default_element_name" fun s t => { s with defaultElementName := t },
    boolField "strict" fun s b => { s with strict := b }]

def loggingFields : List (Field LoggingSettings) :=
  [textField "level" fun s t => { s with level := t },
    boolField "json" fun s b => { s with json := b },
    boolField "stderr" fun s b => { s with stderr := b },
    textField "file" fun s t => { s with file := some t }]

/-- The key under which a point in time shows itself where a table is asked for. -/
def datetimeKey : String := "$__toml_private_datetime"

/-- Takes the entries of a table one after the other; also gives the keys that no field has. -/
def readEntries (fields : List (Field α)) :
    List (String × Toml) → α → Option (α × List String)
  | [], s => some (s, [])
  | (key, value) :: rest, s =>
    match fields.find? (·.key == key) with
    | some field => do readEntries fields rest (← field.set s value)
    | none => do
      let (s, unknown) ← readEntries fields rest s
      return (s, key :: unknown)

/-- Takes items for the fields in their order; further items do not matter. -/
def readItems : List (Field α) → List Toml → α → Option α
  | field :: fields, item :: items, s => do readItems fields items (← field.set s item)
  | _, _, s => some s

def readSection (fields : List (Field α)) (value : Toml) (default : α) :
    Option (α × List String) :=
  match value with
  | .table _ entries => readEntries fields entries default
  | .array items => (readItems fields items default).map (·, [])
  | .tables items => (readItems fields items default).map (·, [])
  | .datetime => some (default, [datetimeKey])
  | _ => none

/-- A key below a section. -/
def dotted (parent : String) (keys : List String) : List String :=
  keys.map fun k => parent ++ "." ++ k

/-- Takes the sections of a file; also gives the unknown keys with their sections. -/
def readSections : List (String × Toml) → Settings → Option (Settings × List String)
  | [], s => some (s, [])
  | (key, value) :: rest, s => do
    let (s, unknown) ← match key with
      | "java" => do
        let (java, keys) ← readSection javaFields value {}
        pure ({ s with java }, dotted key keys)
      | "convert_loop" => do
        let (convertLoop, keys) ← readSection convertLoopFields value {}
        pure ({ s with convertLoop }, dotted key keys)
      | "logging" => do
        let (logging, keys) ← readSection loggingFields value {}
        pure ({ s with logging }, dotted key keys)
      | _ => pure (s, [key])
    let (s, others) ← readSections rest s
    return (s, unknown ++ others)

/-- Sorted, each once, without dots at the front. -/
def tidyKeys (keys : List String) : List String :=
  let keys := keys.map fun k => String.ofList (k.toList.dropWhile (· == '.'))
  (keys.mergeSort fun a b => !decide (b < a)).eraseDups

/-- The settings of a text, and the keys that mean nothing. -/
def read (text : String) : Except LoadError (Settings × List String) :=
  match (Toml.read? text).bind fun t => readSections t.entries {} with
  | none => .error .malformed
  | some (s, unknown) => .ok (s, tidyKeys unknown)

/-- The settings of a text and all there is to say about them. -/
def load (text : String) : Except LoadError (Settings × SettingsDiagnostics) := do
  let (s, unknown) ← read text
  match s.validate unknown with
  | .ok diagnostics => return (s, diagnostics)
  | .error fault => throw (.fault fault)

/-- Reads a file, of which the text is known if it could be opened. -/
def ofFile (reader : String → Except LoadError α) (text : Option String) : Except LoadError α :=
  text.elim (.error .unreadable) reader

end Settings
end EnhancedFor
