import EnhancedFor.Text.Span

/-!
Byte offsets into a text of characters. An offset is usable only on a character boundary, so the
operations that cut a text answer `none` elsewhere.
-/

namespace EnhancedFor

abbrev Chars := List Char

namespace Chars

def byteLength : Chars → Nat
  | [] => 0
  | c :: cs => c.utf8Size + byteLength cs

/-- The characters before and after the byte offset. -/
def splitAt? : Chars → Nat → Option (Chars × Chars)
  | cs, 0 => some ([], cs)
  | [], _ + 1 => none
  | c :: cs, n + 1 =>
    if c.utf8Size ≤ n + 1 then
      (splitAt? cs (n + 1 - c.utf8Size)).map fun (before, after) => (c :: before, after)
    else none

def isBoundary (cs : Chars) (offset : Nat) : Bool := (splitAt? cs offset).isSome

/-- The text before a span, in it and after it. -/
def cut? (cs : Chars) (span : Span) : Option (Chars × Chars × Chars) := do
  let (head, after) ← splitAt? cs span.stop
  let (before, inside) ← splitAt? head span.start
  pure (before, inside, after)

def slice? (cs : Chars) (span : Span) : Option Chars :=
  (cs.cut? span).map (·.2.1)

/-- Puts `replacement` in place of the span. -/
def replace? (cs : Chars) (span : Span) (replacement : Chars) : Option Chars :=
  (cs.cut? span).map fun (before, _, after) => before ++ replacement ++ after

@[simp] theorem byteLength_nil : byteLength [] = 0 := rfl

@[simp] theorem byteLength_cons (c : Char) (cs : Chars) :
    byteLength (c :: cs) = c.utf8Size + byteLength cs := rfl

@[simp] theorem byteLength_append (cs ds : Chars) :
    byteLength (cs ++ ds) = byteLength cs + byteLength ds := by
  induction cs with
  | nil => simp
  | cons c cs ih => simp [ih, Nat.add_assoc]

theorem splitAt?_eq_some {cs : Chars} {n : Nat} {a b : Chars} (h : splitAt? cs n = some (a, b)) :
    cs = a ++ b ∧ byteLength a = n := by
  fun_induction splitAt? cs n generalizing a b with
  | case1 cs => simp_all
  | case2 => simp at h
  | case3 c cs n hc ih =>
    obtain ⟨⟨x, y⟩, hxy, hab⟩ := Option.map_eq_some_iff.1 h
    obtain ⟨rfl, rfl⟩ := Prod.mk.inj hab
    obtain ⟨hcs, hn⟩ := ih hxy
    exact ⟨by simp [hcs], by rw [byteLength_cons, hn]; omega⟩
  | case4 => simp at h

theorem splitAt?_append (a b : Chars) : splitAt? (a ++ b) (byteLength a) = some (a, b) := by
  induction a with
  | nil => cases b <;> rfl
  | cons c a ih =>
    have hc : 0 < c.utf8Size := Char.utf8Size_pos c
    obtain ⟨k, hk⟩ := Nat.exists_eq_succ_of_ne_zero (n := c.utf8Size + byteLength a) (by omega)
    have hsub : k + 1 - c.utf8Size = byteLength a := by omega
    have hle : c.utf8Size ≤ k + 1 := by omega
    rw [byteLength_cons, hk, List.cons_append, splitAt?, if_pos hle, hsub, ih]
    rfl

end Chars

namespace Text

def byteLength (text : String) : Nat := Chars.byteLength text.toList

/-- The part of the text in a span; a fault where the span does not cut it on boundaries. -/
def slice (text : String) (span : Span) : Except Fault String :=
  match Chars.slice? text.toList span with
  | some cs => .ok (String.ofList cs)
  | none => .error .badSlice

end Text
end EnhancedFor
