import EnhancedFor.Pattern.Reader
import EnhancedFor.Pattern.Support
import EnhancedFor.Text.Blank
import EnhancedFor.Text.Bytes
import EnhancedFor.Text.Letter

/-!
Log filters: directives separated by commas. A directive is a level, a target, or both, and may be
limited to spans with certain fields. Words are found in a directive without the blanks around it,
but cut at the same byte offsets out of the whole directive; where that splits a character, there is
no way on.
-/

namespace EnhancedFor

/-- From silence to everything. -/
inductive Verbosity where
  | off
  | error
  | warn
  | info
  | debug
  | trace
  deriving DecidableEq, Repr

namespace Verbosity

def all : List Verbosity := [.off, .error, .warn, .info, .debug, .trace]

def rank : Verbosity → Nat
  | .off => 0
  | .error => 1
  | .warn => 2
  | .info => 3
  | .debug => 4
  | .trace => 5

def name : Verbosity → String
  | .off => "off"
  | .error => "error"
  | .warn => "warn"
  | .info => "info"
  | .debug => "debug"
  | .trace => "trace"

def max (a b : Verbosity) : Verbosity := if a.rank < b.rank then b else a

/-- Decimal digits, perhaps after a plus sign. -/
def number? (cs : List Char) : Option Nat :=
  let digits := match cs with
    | '+' :: rest => rest
    | _ => cs
  if digits.isEmpty || !digits.all Char.isDigit then none
  else some (digits.foldl (fun n d => n * 10 + (d.toNat - '0'.toNat)) 0)

/-- A level by its number or by its name in any case. -/
def ofText? (text : List Char) : Option Verbosity :=
  let named := all.find? fun v => v.name.toList == text.map Char.toLower
  match number? text with
  | some n => (all.find? fun v => v.rank == n).or named
  | none => named

end Verbosity

/-- A directive by what it lets through. One that looks at the values of fields has to see all. -/
structure Directive where
  level : Verbosity
  readsValues : Bool
  deriving DecidableEq, Repr

inductive FilterError where
  | malformed
  | fault (fault : Fault)
  deriving DecidableEq, Repr

namespace LogFilter

def startsTarget (c : Char) : Bool :=
  Text.isLetterOrNumber c || c == '-' || c == ':' || c == '_'

/-- The word between two byte offsets of a directive. -/
def word (part : Chars) (start stop : Nat) : Except FilterError Chars :=
  match part.slice? ⟨start, stop⟩ with
  | some cs => .ok cs
  | none => .error (.fault .badSlice)

def wordFrom (part : Chars) (start : Nat) : Except FilterError Chars :=
  word part start part.byteLength

def orMalformed : Option α → Except FilterError α
  | some a => .ok a
  | none => .error .malformed

/-- The level behind an equals sign; none at all lets everything through. -/
def levelFrom (part : Chars) (start : Nat) : Except FilterError Verbosity := do
  let text ← wordFrom part start
  if text.isEmpty then return .trace else orMalformed (Verbosity.ofText? text)

/-- Digits with at most one point among them, at least one digit in all. -/
def isMantissa (cs : Chars) : Bool :=
  cs.any Char.isDigit && cs.all (fun c => c.isDigit || c == '.') && cs.count '.' ≤ 1

def unsigned : Chars → Chars
  | '+' :: cs => cs
  | '-' :: cs => cs
  | cs => cs

/-- Numbers of all kinds, the infinite ones and those that are none included. -/
def isNumber (cs : Chars) : Bool :=
  let cs := unsigned cs
  let isMark (c : Char) : Bool := c == 'e' || c == 'E'
  let exponent := match cs.dropWhile (!isMark ·) with
    | [] => true
    | _ :: digits => !(unsigned digits).isEmpty && (unsigned digits).all Char.isDigit
  ["inf", "infinity", "nan"].contains (String.ofList (cs.map Char.toLower)) ||
    (isMantissa (cs.takeWhile (!isMark ·)) && exponent)

/-- The value of a field is a number, or else a pattern that can be matched. -/
def acceptsValue (cs : Chars) : Bool :=
  isNumber cs || (Pattern.read? cs).any Pattern.isSupported

/-- Whether a field asks for a value. What follows a second equals sign does not count. -/
def readsValue (field : Chars) : Except FilterError Bool :=
  if field.isEmpty then .error .malformed
  else match field.dropWhile (· != '=') with
    | [] => .ok false
    | _ :: rest =>
      if acceptsValue (rest.takeWhile (· != '=')) then .ok true else .error .malformed

/-- What may follow a span: nothing, or a level. -/
def afterSpan (part : Chars) (readsValues : Bool) (offset : Nat) :
    Chars → Except FilterError Directive
  | [] => .ok ⟨.trace, readsValues⟩
  | '=' :: _ => return ⟨← levelFrom part (offset + 1), readsValues⟩
  | _ => .error .malformed

/-- A span up to its closing bracket, with one field in braces or none. -/
def spanFrom (part : Chars) (offset : Nat) (cs : Chars) : Except FilterError Directive := do
  let name := cs.takeWhile fun c => c != ']' && c != '\x7b'
  let stop := offset + Chars.byteLength name
  match cs.drop name.length with
  | [] => throw .malformed
  | ']' :: rest =>
    let _ ← word part offset stop
    afterSpan part false (stop + 1) rest
  | _ :: fields =>
    let _ ← word part offset stop
    let field := fields.takeWhile (· != '\x7d')
    let ending := stop + 1 + Chars.byteLength field
    match fields.drop field.length with
    | [] => throw .malformed
    | _ :: rest =>
      let readsValues ← readsValue (← word part (stop + 1) ending)
      match rest with
      | ']' :: rest => afterSpan part readsValues (ending + 2) rest
      | _ => throw .malformed

/-- One directive. A lone word that is no level is a target. -/
def directive (part : Chars) : Except FilterError Directive := do
  let text := Text.trim part
  match text with
  | [] => throw .malformed
  | '[' :: rest => spanFrom part 1 rest
  | c :: _ =>
    if !startsTarget c then throw .malformed
    let target := text.takeWhile fun c => c != '=' && c != '['
    let stop := Chars.byteLength target
    match text.drop target.length with
    | [] => return ⟨(Verbosity.ofText? part).getD .trace, false⟩
    | '=' :: _ =>
      let _ ← word part 0 stop
      return ⟨← levelFrom part (stop + 1), false⟩
    | _ :: rest =>
      let _ ← word part 0 stop
      spanFrom part (stop + 1) rest

def splitCommas (cs : List Char) : List (List Char) :=
  cs.foldr (fun c parts =>
    if c == ',' then [] :: parts
    else match parts with
      | [] => [[c]]
      | p :: ps => (c :: p) :: ps) [[]]

/-- All directives of a filter; empty ones are left out. The first that cannot be read decides. -/
def parse (text : String) : Except FilterError (List Directive) :=
  ((splitCommas text.toList).filter (!·.isEmpty)).mapM directive

/-- The filter of a text if it is well formed. -/
def parse? (text : String) : Except Fault (Option (List Directive)) :=
  match parse text with
  | .ok directives => .ok (some directives)
  | .error .malformed => .ok none
  | .error (.fault fault) => .error fault

/-- The most that any directive lets through. -/
def maxLevel (directives : List Directive) : Verbosity :=
  if directives.any (·.readsValues) then .trace
  else (directives.map (·.level)).foldl .max .off

/-- A level of a settings file as a filter: blanks around it go, the names of levels are written in
small letters, and `warning` and nothing at all are understood. -/
def normalize (level : String) : String :=
  let trimmed := Text.trim level.toList
  if trimmed.isEmpty then "info"
  else
    let lower := String.ofList (trimmed.map Char.toLower)
    if ["trace", "debug", "info", "warn", "error"].contains lower then lower
    else if lower == "warning" then "warn"
    else String.ofList trimmed

/-- The filter of a level; one that cannot be read gives `info`. -/
def ofLevel (level : String) : Except Fault (List Directive) := do
  return (← parse? (normalize level)).getD [⟨.info, false⟩]

/-- The filter of a level and of the environment: both if they can be read together, else that of
the environment, else that of the level. No environment holds a null character. -/
def effective (level : String) (environment : Option String) : Except Fault (List Directive) := do
  if environment.any fun e => e.toList.contains '\x00' then throw .nullCharacter
  match (environment.map fun e => Text.trim e.toList).filter (!·.isEmpty) with
  | none => ofLevel level
  | some e =>
    let e := String.ofList e
    if let some directives ← parse? (normalize level ++ "," ++ e) then return directives
    if let some directives ← parse? e then return directives
    ofLevel level

end LogFilter
end EnhancedFor
