import EnhancedFor.Pattern.Basic

/-!
Which patterns can be matched. The matcher works on bytes, knows nothing about the scripts of the
world, and never stops inside a character. So classes, word edges and letter case are available for
ASCII only, and what matches single bytes must not match a part of a longer character.
-/

namespace EnhancedFor
namespace Pattern

/-- The flags that decide what a pattern needs. -/
structure Mode where
  caseless : Bool
  unicode : Bool
  deriving DecidableEq, Repr

def Mode.initial : Mode := ⟨false, true⟩

def Mode.apply (mode : Mode) (change : FlagChange) : Mode :=
  ⟨(change.state? .caseless).getD mode.caseless, (change.state? .unicode).getD mode.unicode⟩

def isAscii (c : Char) : Bool := c.toNat < 128

/-- To ignore the case of a character takes a table; a byte that is no ASCII is no character. -/
def Literal.supported (mode : Mode) (l : Literal) : Bool :=
  if mode.unicode then !mode.caseless else !l.asByte || isAscii l.char

def Anchor.supported (mode : Mode) (a : Anchor) : Bool := !(mode.unicode && a.looksAtWords)

/-- Among bytes, what is not in a class includes parts of characters. -/
def shortSupported (mode : Mode) (negated : Bool) : Bool := !mode.unicode && !negated

mutual

/-- In a set of bytes all members are ASCII and nothing is negated. In one of characters that
ignores case there must be no member at all. -/
def CharSet.supported (mode : Mode) : CharSet → Bool
  | .nothing => true
  | .literal l => if mode.unicode then !mode.caseless else isAscii l.char
  | .range first last =>
    if mode.unicode then !mode.caseless else isAscii first.char && isAscii last.char
  | .named _ negated => if mode.unicode then !mode.caseless else !negated
  | .short _ negated => shortSupported mode negated
  | .bracketed negated set => (mode.unicode || !negated) && set.supported mode
  | .union items => CharSet.supportedAll mode items
  | .combined _ left right => left.supported mode && right.supported mode

def CharSet.supportedAll (mode : Mode) : List CharSet → Bool
  | [] => true
  | item :: items => item.supported mode && CharSet.supportedAll mode items

end

mutual

/-- The mode after a pattern, if all of it can be matched. A switch holds up to the end of its
group, later options included. -/
def after? (mode : Mode) : Pattern → Option Mode
  | .nothing => some mode
  | .literal l => if l.supported mode then some mode else none
  | .dot => if mode.unicode then some mode else none
  | .anchor a => if a.supported mode then some mode else none
  | .short _ negated => if shortSupported mode negated then some mode else none
  | .bracketed negated set =>
    if (CharSet.bracketed negated set).supported mode then some mode else none
  | .switch change => some (mode.apply change)
  | .group change inner => (inner.after? (mode.apply change)).map fun _ => mode
  | .repeated inner => inner.after? mode
  | .sequence parts => afterAll? mode parts
  | .choice options => afterAll? mode options

def afterAll? (mode : Mode) : List Pattern → Option Mode
  | [] => some mode
  | p :: ps => (p.after? mode).bind fun mode => afterAll? mode ps

end

def isSupported (p : Pattern) : Bool := p.depth ≤ maxDepth && (p.after? .initial).isSome

end Pattern
end EnhancedFor
