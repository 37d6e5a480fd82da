/-!
Half-open spans of byte offsets. A span read from outside need not be ordered; `Span.ordered`
makes only ordered ones.
-/

namespace EnhancedFor

/-- A failure that no caller can recover from: a broken promise about ids, offsets or texts. -/
inductive Fault where
  | unknownNode
  | unknownBinding
  | badSlice
  | nullCharacter
  | unorderedSpan (start stop : Nat)
  | unboundedType
  | unboundedNode
  deriving DecidableEq, Repr

/-- Only an unordered span has a text of its own. -/
def Fault.message? : Fault → Option String
  | .unorderedSpan start stop => some s!"invalid range: {start}..{stop}"
  | _ => none

structure Span where
  start : Nat
  stop : Nat
  deriving DecidableEq, Repr, Inhabited

namespace Span

/-- The largest offset a text position can hold. -/
def maxOffset : Nat := 0xffffffffffffffff

def ordered (start stop : Nat) : Except Fault Span :=
  if start ≤ stop then .ok ⟨start, stop⟩ else .error (.unorderedSpan start stop)

def empty (offset : Nat) : Span := ⟨offset, offset⟩

def length (s : Span) : Nat := s.stop - s.start

def isEmpty (s : Span) : Bool := s.start == s.stop

def contains (s : Span) (offset : Nat) : Bool :=
  decide (s.start ≤ offset) && decide (offset < s.stop)

/-- Both ends count as inside. -/
def touches (s : Span) (offset : Nat) : Bool :=
  decide (s.start ≤ offset) && decide (offset ≤ s.stop)

def encloses (s t : Span) : Bool :=
  decide (s.start ≤ t.start) && decide (t.stop ≤ s.stop)

def intersects (s t : Span) : Bool :=
  decide (s.start < t.stop) && decide (t.start < s.stop)

/-- An offset moved by `delta`, kept between zero and `maxOffset`. -/
def shiftOffset (offset : Nat) (delta : Int) : Nat :=
  min ((offset : Int) + delta).toNat maxOffset

def shift (s : Span) (delta : Int) : Span :=
  ⟨shiftOffset s.start delta, shiftOffset s.stop delta⟩

/-- Order by start, then by stop. -/
def compare (s t : Span) : Ordering :=
  (Ord.compare s.start t.start).then (Ord.compare s.stop t.stop)

def le (s t : Span) : Bool :=
  decide (s.start < t.start) || (s.start == t.start && decide (s.stop ≤ t.stop))

/-- The text of a span in messages. -/
def describe (s : Span) : String :=
  "TextRange \x7b start: " ++ toString s.start ++ ", end: " ++ toString s.stop ++ " \x7d"

@[simp] theorem length_empty (offset : Nat) : (empty offset).length = 0 := by
  simp [length, empty]

@[simp] theorem isEmpty_empty (offset : Nat) : (empty offset).isEmpty = true := by
  simp [isEmpty, empty]

theorem le_total (s t : Span) : (s.le t || t.le s) = true := by
  simp [le]
  omega

theorem le_trans {s t u : Span} (hst : s.le t = true) (htu : t.le u = true) : s.le u = true := by
  simp [le] at *
  omega

end Span
end EnhancedFor
