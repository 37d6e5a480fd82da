import EnhancedFor.Pattern.Basic
import EnhancedFor.Text.Blank

/-!
Escapes in patterns. In loose text, blanks and comments between the parts of a pattern do not count;
they may stand between the digits of an escape too.
-/

namespace EnhancedFor
namespace Pattern

inductive Escape where
  | literal (l : Literal)
  | anchor (kind : Anchor)
  | short (kind : ShortClass) (negated : Bool)
  deriving DecidableEq, Repr

/-- What is left after blanks and comments; a comment ends with its line. -/
def dropLoose (inComment : Bool) : List Char → List Char
  | [] => []
  | c :: cs =>
    if inComment then dropLoose (c != '\n') cs
    else if c == '#' then dropLoose true cs
    else if Text.isBlank c then dropLoose false cs
    else c :: cs

def skip (loose : Bool) (cs : List Char) : List Char := if loose then dropLoose false cs else cs

theorem length_dropLoose_le (inComment : Bool) (cs : List Char) :
    (dropLoose inComment cs).length ≤ cs.length := by
  fun_induction dropLoose inComment cs <;> simp only [List.length_cons, List.length_nil] <;> omega

theorem length_skip_le (loose : Bool) (cs : List Char) : (skip loose cs).length ≤ cs.length := by
  unfold skip
  split
  · exact length_dropLoose_le false cs
  · exact Nat.le_refl _

/-- The character after blanks and one number sign; the very next one if nothing else follows. -/
def peek? (loose : Bool) (cs : List Char) : Option Char :=
  if loose then
    let rest := match cs.dropWhile Text.isBlank with
      | '#' :: more => more.dropWhile Text.isBlank
      | rest => rest
    rest.head?.or cs.head?
  else cs.head?

def hexDigit? (c : Char) : Option Nat :=
  if '0' ≤ c && c ≤ '9' then some (c.toNat - '0'.toNat)
  else if 'a' ≤ c && c ≤ 'f' then some (c.toNat - 'a'.toNat + 10)
  else if 'A' ≤ c && c ≤ 'F' then some (c.toNat - 'A'.toNat + 10)
  else none

/-- A number with a fixed count of digits. -/
def hexNumber? (loose : Bool) : Nat → Nat → List Char → Option (Nat × List Char)
  | 0, value, cs => some (value, skip loose cs)
  | n + 1, value, cs =>
    match skip loose cs with
    | [] => none
    | c :: rest => (hexDigit? c).bind fun d => hexNumber? loose n (value * 16 + d) rest

def isCodePoint (n : Nat) : Bool := n < 0xd800 || (0xdfff < n && n < 0x110000)

def hexEscape? (loose : Bool) (digits : Nat) (asByte : Bool) (cs : List Char) :
    Option (Escape × List Char) := do
  let (n, rest) ← hexNumber? loose digits 0 cs
  if isCodePoint n then some (.literal ⟨Char.ofNat n, asByte⟩, rest) else none

/-- Every ASCII sign other than a letter or a digit may be escaped, but for the angles, which stand
for the edges of words. -/
def isEscapable (c : Char) : Bool :=
  c.toNat < 128 && !c.isAlphanum && c != '<' && c != '>'

def controlLetters : List (Char × Nat) :=
  [('a', 0x07), ('f', 0x0c), ('t', 0x09), ('n', 0x0a), ('r', 0x0d), ('v', 0x0b)]

def anchorLetters : List (Char × Anchor) :=
  [('A', .textStart), ('z', .textEnd), ('b', .wordEdge), ('B', .noWordEdge), ('<', .wordStart),
    ('>', .wordEnd)]

def shortLetters : List (Char × ShortClass × Bool) :=
  [('d', .digit, false), ('s', .space, false), ('w', .word, false), ('D', .digit, true),
    ('S', .space, true), ('W', .word, true)]

/-- An escape after its backslash. Digits would refer back to a group, which nothing here can. -/
def escape? (loose : Bool) : List Char → Option (Escape × List Char)
  | [] => none
  | 'x' :: cs => hexEscape? loose 2 true cs
  | 'u' :: cs => hexEscape? loose 4 false cs
  | 'U' :: cs => hexEscape? loose 8 false cs
  | c :: cs =>
    if isEscapable c then some (.literal ⟨c, false⟩, cs)
    else match controlLetters.lookup c with
      | some n => some (.literal ⟨Char.ofNat n, false⟩, cs)
      | none => match anchorLetters.lookup c with
        | some a => some (.anchor a, cs)
        | none => (shortLetters.lookup c).map fun (kind, negated) => (.short kind negated, cs)

end Pattern
end EnhancedFor
