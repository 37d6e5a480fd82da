import EnhancedFor.Text.Hidden

/-!
Strings in double quotes with backslash escapes, and records and lists written out on one line.
Characters that do not show on their own are written by their code point.
-/

namespace EnhancedFor.Quoted

def hexDigits (n : Nat) : String := String.ofList (Nat.toDigits 16 n)

def escape (c : Char) : String :=
  match c with
  | '"' => "\\\""
  | '\\' => "\\\\"
  | '\n' => "\\n"
  | '\r' => "\\r"
  | '\t' => "\\t"
  | '\x00' => "\\0"
  | c => if Text.isHidden c then "\\u\x7b" ++ hexDigits c.toNat ++ "\x7d" else c.toString

def quote (s : String) : String := "\"" ++ String.join (s.toList.map escape) ++ "\""

/-- A name and its fields in braces. -/
def record (name : String) (fields : List (String × String)) : String :=
  name ++ " \x7b " ++ ", ".intercalate (fields.map fun (k, v) => k ++ ": " ++ v) ++ " \x7d"

def listed (items : List String) : String := "[" ++ ", ".intercalate items ++ "]"

end EnhancedFor.Quoted
