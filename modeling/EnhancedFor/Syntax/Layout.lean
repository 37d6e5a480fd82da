import EnhancedFor.Syntax.Unit

/-!
Marked text. A layout is a text in which parts carry marks; from it come both the plain text and the
span of every mark.
-/

namespace EnhancedFor

inductive Layout where
  | text (s : String)
  | append (a b : Layout)
  | mark (m : Mark) (inner : Layout)
  deriving Repr

namespace Layout

instance : Append Layout := ⟨append⟩
instance : Coe String Layout := ⟨text⟩

def empty : Layout := .text ""

def concat (parts : List Layout) : Layout := parts.foldr (· ++ ·) empty

/-- Parts with a separator between neighbours. -/
def join (separator : String) : List Layout → Layout
  | [] => empty
  | [part] => part
  | part :: rest => part ++ text separator ++ join separator rest

/-- Four blanks a level. -/
def indent (level : Nat) : Layout := text (String.ofList (List.replicate (4 * level) ' '))

/-- The text after `before`. -/
def writeAfter (before : String) : Layout → String
  | .text s => before ++ s
  | .append a b => b.writeAfter (a.writeAfter before)
  | .mark _ inner => inner.writeAfter before

def toText (layout : Layout) : String := layout.writeAfter ""

/-- How far a text has come, and the marks placed so far, the latest first. -/
structure Placement where
  offset : Nat
  spans : List (Mark × Span)

/-- A part that is marked twice keeps the later span. -/
def place : Layout → Placement → Placement
  | .text s, p => { p with offset := p.offset + Text.byteLength s }
  | .append a b, p => b.place (a.place p)
  | .mark m inner, p =>
    let q := inner.place p
    ⟨q.offset, (m, ⟨p.offset, q.offset⟩) :: q.spans⟩

def marks (layout : Layout) : List (Mark × Span) := (layout.place ⟨0, []⟩).spans

end Layout
end EnhancedFor
