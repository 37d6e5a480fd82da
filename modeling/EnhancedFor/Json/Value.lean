/-!
JSON values and their text. Numbers are kept as they are written.
-/

namespace EnhancedFor

inductive JsonValue where
  | null
  | boolean (value : Bool)
  | number (digits : String)
  | string (text : String)
  | array (items : List JsonValue)
  | object (members : List (String × JsonValue))

namespace JsonValue

/-- Four digits of base 16. -/
def codeUnit (n : Nat) : String :=
  let digits := Nat.toDigits 16 n
  String.ofList (List.replicate (4 - digits.length) '0' ++ digits)

def escape (c : Char) : String :=
  match c with
  | '"' => "\\\""
  | '\\' => "\\\\"
  | '\n' => "\\n"
  | c => if c.toNat < 0x20 then "\\u" ++ codeUnit c.toNat else c.toString

def quote (s : String) : String := "\"" ++ String.join (s.toList.map escape) ++ "\""

mutual

def write : JsonValue → String
  | .null => "null"
  | .boolean b => if b then "true" else "false"
  | .number digits => digits
  | .string text => quote text
  | .array items => "[" ++ ",".intercalate (writeItems items) ++ "]"
  | .object members => "\x7b" ++ ",".intercalate (writeMembers members) ++ "\x7d"

def writeItems : List JsonValue → List String
  | [] => []
  | v :: vs => write v :: writeItems vs

def writeMembers : List (String × JsonValue) → List String
  | [] => []
  | (key, v) :: rest => (quote key ++ ":" ++ write v) :: writeMembers rest

end

end JsonValue
end EnhancedFor
