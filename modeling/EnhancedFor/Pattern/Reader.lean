import EnhancedFor.Pattern.Escape
import EnhancedFor.Text.Letter

/-!
Reading patterns. They are the values of fields in a log filter, where closing braces, commas and
equals signs end a value; so nothing with braces is ever complete, and an open brace outside of
brackets cannot be read.
-/

namespace EnhancedFor
namespace Pattern

/-- Between the brackets: one character, or an escape. -/
def setAtom? (loose : Bool) : List Char → Option (Escape × List Char)
  | [] => none
  | '\\' :: cs => escape? loose cs
  | c :: cs => some (.literal ⟨c, false⟩, cs)

def Escape.member? : Escape → Option CharSet
  | .literal l => some (.literal l)
  | .short kind negated => some (.short kind negated)
  | .anchor _ => none

def Escape.literal? : Escape → Option Literal
  | .literal l => some l
  | _ => none

/-- One member of a set, or a range of characters in order. A dash before the closing bracket or
before another dash makes no range. -/
def setMember? (loose : Bool) (cs : List Char) : Option (CharSet × List Char) := do
  let (first, rest) ← setAtom? loose cs
  match skip loose rest with
  | [] => none
  | '-' :: more =>
    if [some ']', some '-'].contains (peek? loose more) then
      return (← first.member?, '-' :: more)
    else
      let (last, rest) ← setAtom? loose (skip loose more)
      let (first, last) := (← first.literal?, ← last.literal?)
      if first.char ≤ last.char then return (.range first last, rest) else none
  | rest => return (← first.member?, rest)

/-- A class by its name between colons, after the bracket that opens it. -/
def namedSet? : List Char → Option (CharSet × List Char)
  | ':' :: cs =>
    let (negated, cs) := match cs with
      | '^' :: rest => (true, rest)
      | _ => (false, cs)
    let name := String.ofList (cs.takeWhile (· != ':'))
    match cs.dropWhile (· != ':') with
    | ':' :: ']' :: rest =>
      if setNames.contains name then some (.named name negated, rest) else none
    | _ => none
  | _ => none

/-- Dashes at the front of a set stand for themselves. -/
def leadingDashes (loose : Bool) (cs : List Char) : List CharSet × List Char :=
  match cs with
  | '-' :: rest =>
    let (dashes, rest) := leadingDashes loose (skip loose rest)
    (.literal ⟨'-', false⟩ :: dashes, rest)
  | _ => ([], cs)
termination_by cs.length
decreasing_by exact Nat.lt_succ_of_le (length_skip_le loose rest)

/-- What comes first in a set: whether it is negated, dashes, or a closing bracket that stands for
itself. -/
def setOpening (loose : Bool) (cs : List Char) : Bool × List CharSet × List Char :=
  let (negated, cs) := match skip loose cs with
    | '^' :: rest => (true, skip loose rest)
    | rest => (false, rest)
  match leadingDashes loose cs with
  | ([], ']' :: rest) => (negated, [.literal ⟨']', false⟩], rest)
  | (dashes, rest) => (negated, dashes, rest)

/-- The members read so far, last one first, joined with what stands before the last operation. -/
def joinSets (left : Option (SetOperation × CharSet)) (members : List CharSet) : CharSet :=
  let right := CharSet.ofItems members.reverse
  match left with
  | none => right
  | some (operation, left) => .combined operation left right

/-- A set up to its closing bracket. Operations have no precedence: the left one comes first. -/
def set? (loose : Bool) :
    Nat → Option (SetOperation × CharSet) → List CharSet → List Char → Option (CharSet × List Char)
  | 0, _, _, _ => none
  | fuel + 1, left, members, cs =>
    let operate (operation : SetOperation) (rest : List Char) :=
      set? loose fuel (some (operation, joinSets left members)) [] rest
    match skip loose cs with
    | [] => none
    | ']' :: rest => some (joinSets left members, rest)
    | '[' :: rest =>
      match namedSet? rest with
      | some (named, rest) => set? loose fuel left (named :: members) rest
      | none => do
        let (negated, first, rest) := setOpening loose rest
        let (inner, rest) ← set? loose fuel none first.reverse rest
        set? loose fuel left (.bracketed negated inner :: members) rest
    | '&' :: '&' :: rest => operate .intersection rest
    | '-' :: '-' :: rest => operate .difference rest
    | '~' :: '~' :: rest => operate .symmetricDifference rest
    | cs => do
      let (member, rest) ← setMember? loose cs
      set? loose fuel left (member :: members) rest

/-- A whole set after its opening bracket. -/
def brackets? (loose : Bool) (cs : List Char) : Option (Pattern × List Char) := do
  let (negated, first, rest) := setOpening loose cs
  let (inner, rest) ← set? loose (cs.length + 1) none first.reverse rest
  return (.bracketed negated inner, rest)

def flagLetters : List (Char × Flag) :=
  [('i', .caseless), ('m', .multiLine), ('s', .dotMatchesBreak), ('U', .lazy), ('u', .unicode),
    ('R', .carriageReturn), ('x', .loose)]

/-- Flags up to a colon or to the end of the group, each at most once; those after a dash are
switched off. Also says whether the group ends there. -/
def flags? (negated dangling : Bool) (change : FlagChange) :
    List Char → Option (FlagChange × Bool × List Char)
  | [] => none
  | ':' :: rest => if dangling then none else some (change.reverse, false, rest)
  | ')' :: rest => if dangling then none else some (change.reverse, true, rest)
  | '-' :: rest => if negated then none else flags? true true change rest
  | c :: rest => do
    let flag ← flagLetters.lookup c
    if (change.map (·.1)).contains flag then none
    else flags? negated false ((flag, !negated) :: change) rest

/-- Where reading stands: the text ahead, whether it is loose, and the names of groups so far. -/
structure Cursor where
  rest : List Char
  loose : Bool
  names : List (List Char)

def isGroupName : List Char → Bool
  | [] => false
  | c :: cs => (c == '_' || Text.isLetter c) &&
      cs.all fun c => ['_', '.', '[', ']'].contains c || Text.isLetterOrNumber c

/-- The name of a group up to its closing angle; no two groups share one. -/
def groupName? (cursor : Cursor) (cs : List Char) : Option Cursor :=
  let name := cs.takeWhile (· != '>')
  match cs.dropWhile (· != '>') with
  | _ :: rest =>
    if isGroupName name && !cursor.names.contains name then
      some { cursor with rest, names := name :: cursor.names }
    else none
  | [] => none

/-- What an opening parenthesis begins: a group, or a switch that is over already. -/
inductive Opening where
  | group (change : FlagChange)
  | switch (change : FlagChange)
  deriving DecidableEq, Repr

/-- There is no look-around, and a question mark alone is no switch. -/
def opening? (cursor : Cursor) : Option (Opening × Cursor) :=
  match skip cursor.loose cursor.rest with
  | '?' :: 'P' :: '<' :: cs => (groupName? cursor cs).map (.group [], ·)
  | '?' :: '<' :: cs => (groupName? cursor cs).map (.group [], ·)
  | '?' :: cs => do
    let (change, ends, rest) ← flags? false false [] cs
    let loose := (change.state? .loose).getD cursor.loose
    let next := { cursor with rest, loose }
    if !ends then some (.group change, next)
    else if change.isEmpty then none
    else some (.switch change, next)
  | rest => some (.group [], { cursor with rest })

def Escape.pattern : Escape → Pattern
  | .literal l => .literal l
  | .anchor a => .anchor a
  | .short kind negated => .short kind negated

/-- One character, dot, anchor or escape. -/
def atom? (loose : Bool) : List Char → Option (Pattern × List Char)
  | [] => none
  | '\x7b' :: _ => none
  | '.' :: cs => some (.dot, cs)
  | '^' :: cs => some (.anchor .lineStart, cs)
  | '$' :: cs => some (.anchor .lineEnd, cs)
  | '\\' :: cs => (escape? loose cs).map fun (e, rest) => (e.pattern, rest)
  | '[' :: cs => brackets? loose cs
  | c :: cs => some (.literal ⟨c, false⟩, cs)

/-- The last part repeated; a question mark right behind makes the repetition lazy. -/
def repeat? : List Pattern → List Char → Option (List Pattern × List Char)
  | last :: parts, cs =>
    let rest := match cs with
      | '?' :: rest => rest
      | _ => cs
    if last.isRepeatable then some (.repeated last :: parts, rest) else none
  | [], _ => none

/-- A pattern up to the end or to a closing parenthesis, from the parts of the current option and
the options before it, both last one first. -/
def body? : Nat → Cursor → List Pattern → List Pattern → Option (Pattern × Cursor)
  | 0, _, _, _ => none
  | fuel + 1, cursor, parts, options =>
    let ended := ofParts parts.reverse :: options
    match skip cursor.loose cursor.rest with
    | [] => some (ofOptions ended.reverse, { cursor with rest := [] })
    | ')' :: rest => some (ofOptions ended.reverse, { cursor with rest := ')' :: rest })
    | '|' :: rest => body? fuel { cursor with rest } [] ended
    | '(' :: rest => do
      match ← opening? { cursor with rest } with
      | (.switch change, next) => body? fuel next (.switch change :: parts) options
      | (.group change, next) =>
        let (inner, next) ← body? fuel next [] []
        match next.rest with
        | _ :: rest =>
          body? fuel { next with rest, loose := cursor.loose } (.group change inner :: parts)
            options
        | [] => none
    | c :: rest => do
      if ['?', '*', '+'].contains c then
        let (parts, rest) ← repeat? parts rest
        body? fuel { cursor with rest } parts options
      else
        let (part, rest) ← atom? cursor.loose (c :: rest)
        body? fuel { cursor with rest } (part :: parts) options

/-- The pattern of a text. -/
def read? (text : List Char) : Option Pattern := do
  let (pattern, cursor) ← body? (text.length + 1) ⟨text, false, []⟩ [] []
  if cursor.rest.isEmpty then some pattern else none

end Pattern
end EnhancedFor
