import EnhancedFor.Text.Bytes

/-!
Text edits: each puts a replacement in place of a span, all spans being of the text before the
edits. Normalising sorts edits, refuses clashes and joins those that touch.
-/

namespace EnhancedFor

structure Edit where
  span : Span
  replacement : String
  deriving DecidableEq, Repr, Inhabited

inductive EditError where
  | outOfBounds (span : Span) (textLength : Nat)
  | notBoundary (offset : Nat)
  | overlap (first second : Span)
  deriving DecidableEq, Repr

def EditError.label : EditError → String
  | .outOfBounds .. => "RangeOutOfBounds"
  | .notBoundary _ => "InvalidUtf8Boundary"
  | .overlap .. => "OverlappingEdits"

def EditError.message : EditError → String
  | .outOfBounds span textLength =>
    "edit range " ++ span.describe ++ " is out of bounds for text length " ++ toString textLength
  | .notBoundary offset => "offset " ++ toString offset ++ " is not a UTF-8 character boundary"
  | .overlap first second =>
    "overlapping edits: " ++ first.describe ++ " overlaps " ++ second.describe

namespace Edit

def insert (offset : Nat) (text : String) : Edit := ⟨Span.empty offset, text⟩

def delete (span : Span) : Edit := ⟨span, ""⟩

/-- Stable: edits of one span keep their order. -/
def sort (edits : List Edit) : List Edit :=
  edits.mergeSort fun e f => e.span.le f.span

/-- What is wrong with an edit on its own, its start before its stop. -/
def fault? (text : Chars) (e : Edit) : Option EditError :=
  if e.span.start > e.span.stop || e.span.stop > text.byteLength then
    some (.outOfBounds e.span text.byteLength)
  else if !text.isBoundary e.span.start then some (.notBoundary e.span.start)
  else if !text.isBoundary e.span.stop then some (.notBoundary e.span.stop)
  else none

/-- Two edits clash when the first ends after the second starts, or both insert at one place. -/
def clash (first second : Edit) : Bool :=
  decide (first.span.stop > second.span.start) ||
    (first.span.isEmpty && second.span.isEmpty && first.span.start == second.span.start)

/-- The first two neighbours that clash. -/
def firstClash? : List Edit → Option (Edit × Edit)
  | e :: f :: rest => if clash e f then some (e, f) else firstClash? (f :: rest)
  | _ => none

/-- Joins edits of which one ends where the next starts. -/
def join : List Edit → List Edit
  | [] => []
  | e :: rest =>
    match join rest with
    | [] => [e]
    | f :: fs =>
      if e.span.stop == f.span.start then
        ⟨⟨e.span.start, f.span.stop⟩, e.replacement ++ f.replacement⟩ :: fs
      else e :: f :: fs

def normalize (text : String) (edits : List Edit) : Except EditError (List Edit) :=
  let sorted := sort edits
  match sorted.findSome? (fault? text.toList) with
  | some err => .error err
  | none =>
    match firstClash? sorted with
    | some (e, f) => .error (.overlap e.span f.span)
    | none => .ok (join sorted)

/-- One edit; a span that does not cut the text on boundaries changes nothing. -/
def applyOne (e : Edit) (text : Chars) : Chars :=
  (text.replace? e.span e.replacement.toList).getD text

/-- Applies normalised edits from the last to the first, so that no span moves before its turn. -/
def apply (text : String) (edits : List Edit) : Except EditError String :=
  (normalize text edits).map fun normal =>
    String.ofList (normal.foldr applyOne text.toList)

end Edit
end EnhancedFor
