import EnhancedFor.Text.Edit

/-!
The edits that take edits back: each covers what was inserted and puts in what was there.
-/

namespace EnhancedFor.Edit

/-- How many bytes longer the text gets. -/
def growth (e : Edit) : Int := (Text.byteLength e.replacement : Int) - e.span.length

/-- Inverses of sorted edits of a text that has grown by `delta` before them. -/
def inverseFrom (text : Chars) (delta : Int) : List Edit → List Edit
  | [] => []
  | e :: rest =>
    let start := Span.shiftOffset e.span.start delta
    ⟨⟨start, start + Text.byteLength e.replacement⟩,
      String.ofList ((text.slice? e.span).getD [])⟩ :: inverseFrom text (delta + e.growth) rest

def inverse (text : String) (edits : List Edit) : List Edit := inverseFrom text.toList 0 edits

end EnhancedFor.Edit
