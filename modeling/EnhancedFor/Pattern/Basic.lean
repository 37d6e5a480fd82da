/-!
Regular expressions for the values of fields: literals, sets of characters, anchors, groups and
switches. `Pattern.depth` says how deep a pattern is nested.
-/

namespace EnhancedFor
namespace Pattern

inductive Flag where
  | caseless
  | multiLine
  | dotMatchesBreak
  | lazy
  | unicode
  | carriageReturn
  | loose
  deriving DecidableEq, Repr

/-- Flags that are switched on or off, in the order written. -/
abbrev FlagChange := List (Flag × Bool)

def FlagChange.state? (change : FlagChange) (flag : Flag) : Option Bool := change.lookup flag

/-- A character that stands for itself; `asByte` if it is written as a byte with two digits. -/
structure Literal where
  char : Char
  asByte : Bool
  deriving DecidableEq, Repr

inductive Anchor where
  | lineStart
  | lineEnd
  | textStart
  | textEnd
  | wordEdge
  | noWordEdge
  | wordStart
  | wordEnd
  deriving DecidableEq, Repr

/-- Anchors that have to know which characters make up words. -/
def Anchor.looksAtWords : Anchor → Bool
  | .lineStart | .lineEnd | .textStart | .textEnd => false
  | .wordEdge | .noWordEdge | .wordStart | .wordEnd => true

/-- Classes with a one-letter escape. -/
inductive ShortClass where
  | digit
  | space
  | word
  deriving DecidableEq, Repr

inductive SetOperation where
  | intersection
  | difference
  | symmetricDifference
  deriving DecidableEq, Repr

/-- What stands between brackets. -/
inductive CharSet where
  | nothing
  | literal (l : Literal)
  | range (first last : Literal)
  | named (name : String) (negated : Bool)
  | short (kind : ShortClass) (negated : Bool)
  | bracketed (negated : Bool) (set : CharSet)
  | union (items : List CharSet)
  | combined (operation : SetOperation) (left right : CharSet)
  deriving Repr

/-- A union of one set is that set. -/
def CharSet.ofItems : List CharSet → CharSet
  | [] => .nothing
  | [item] => item
  | items => .union items

def setNames : List String :=
  ["alnum", "alpha", "ascii", "blank", "cntrl", "digit", "graph", "lower", "print", "punct",
    "space", "upper", "word", "xdigit"]

end Pattern

open Pattern in
inductive Pattern where
  | nothing
  | literal (l : Literal)
  | dot
  | anchor (kind : Anchor)
  | short (kind : ShortClass) (negated : Bool)
  | bracketed (negated : Bool) (set : CharSet)
  | switch (change : FlagChange)
  | group (change : FlagChange) (inner : Pattern)
  | repeated (inner : Pattern)
  | sequence (parts : List Pattern)
  | choice (options : List Pattern)
  deriving Repr

namespace Pattern

def ofParts : List Pattern → Pattern
  | [] => .nothing
  | [part] => part
  | parts => .sequence parts

def ofOptions : List Pattern → Pattern
  | [option] => option
  | options => .choice options

/-- Nothing and switches cannot be repeated. -/
def isRepeatable : Pattern → Bool
  | .nothing => false
  | .switch _ => false
  | _ => true

mutual

/-- Brackets, unions of several sets and operations nest. -/
def CharSet.depth : CharSet → Nat
  | .bracketed _ set => set.depth + 1
  | .union items => CharSet.depthAll items + 1
  | .combined _ left right => Nat.max left.depth right.depth + 1
  | _ => 0

def CharSet.depthAll : List CharSet → Nat
  | [] => 0
  | item :: items => Nat.max item.depth (CharSet.depthAll items)

end

mutual

/-- Brackets, groups, repetitions, sequences and choices nest. -/
def depth : Pattern → Nat
  | .bracketed _ set => set.depth + 1
  | .group _ inner => inner.depth + 1
  | .repeated inner => inner.depth + 1
  | .sequence parts => depthAll parts + 1
  | .choice options => depthAll options + 1
  | _ => 0

def depthAll : List Pattern → Nat
  | [] => 0
  | p :: ps => Nat.max p.depth (depthAll ps)

end

/-- Patterns that are nested deeper are refused. -/
def maxDepth : Nat := 250

end Pattern
end EnhancedFor
