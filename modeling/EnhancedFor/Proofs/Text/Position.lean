import EnhancedFor.Loop.SourceChange
import EnhancedFor.Proofs.Text.Inverse

/-!
Where text stands after edits. A position is moved by the growth of the edits before it, which are
looked up in the edits as they are given; the new text is made from the sorted and joined ones. Main
statements: what an edit writes is found where the edits that sort before it have moved it, and text
that no edit reaches into is found where the edits that end before it have moved it.
-/

namespace EnhancedFor

namespace Chars

/-- The UTF-8 bytes of a text. -/
def bytes (cs : Chars) : List UInt8 := cs.flatMap String.utf8EncodeChar

/-- The bytes in a span of the text. Its ends need not be character boundaries. -/
def bytesAt? (cs : Chars) (span : Span) : Option (List UInt8) :=
  if span.start ≤ span.stop ∧ span.stop ≤ cs.bytes.length then
    some ((cs.bytes.take span.stop).drop span.start)
  else none

@[simp] theorem bytes_append (cs ds : Chars) : bytes (cs ++ ds) = bytes cs ++ bytes ds :=
  List.flatMap_append

@[simp] theorem length_bytes (cs : Chars) : (bytes cs).length = byteLength cs := by
  induction cs with
  | nil => rfl
  | cons c cs ih =>
    have hcons : bytes (c :: cs) = String.utf8EncodeChar c ++ bytes cs := List.flatMap_cons
    rw [hcons, List.length_append, String.length_utf8EncodeChar, ih, byteLength_cons]

/-- What stands in a part of the text does not depend on the text around it. -/
theorem bytesAt?_inside (before inside after : Chars) (span : Span)
    (h : span.stop ≤ byteLength inside) :
    bytesAt? (before ++ inside ++ after)
      ⟨byteLength before + span.start, byteLength before + span.stop⟩ = bytesAt? inside span := by
  have hbounds : (byteLength before + span.start ≤ byteLength before + span.stop ∧
      byteLength before + span.stop ≤ (before ++ inside ++ after).bytes.length) ↔
      span.start ≤ span.stop ∧ span.stop ≤ inside.bytes.length := by
    simp only [length_bytes, byteLength_append]
    omega
  have hbefore : (before.bytes.take (byteLength before + span.stop)).drop
      (byteLength before + span.start) = [] :=
    List.drop_eq_nil_of_le (by rw [List.length_take, length_bytes]; omega)
  have hafter : span.stop - byteLength inside = 0 := by omega
  simp only [bytesAt?, hbounds]
  simp [List.take_append, List.drop_append, hbefore, hafter]

theorem bytesAt?_append (before inside after : Chars) :
    bytesAt? (before ++ inside ++ after)
      ⟨byteLength before, byteLength before + byteLength inside⟩ = some (bytes inside) := by
  have hwhole := bytesAt?_inside before inside after ⟨0, byteLength inside⟩ (Nat.le_refl _)
  rw [Nat.add_zero] at hwhole
  rw [hwhole, bytesAt?, if_pos ⟨Nat.zero_le _, Nat.le_of_eq (length_bytes inside).symm⟩,
    ← length_bytes, List.take_length, List.drop_zero]

end Chars

namespace Text

def bytes (text : String) : List UInt8 := Chars.bytes text.toList

def bytesAt? (text : String) (span : Span) : Option (List UInt8) :=
  Chars.bytesAt? text.toList span

end Text

namespace Span

theorem compare_lt_iff {s t : Span} : (s.compare t == .lt) = true ↔
    s.start < t.start ∨ s.start = t.start ∧ s.stop < t.stop := by
  simp only [compare, beq_iff_eq, Ordering.then_eq_lt, Nat.compare_eq_lt, Nat.compare_eq_eq]

/-- Positions of a text that can be held are moved exactly. -/
theorem shift_eq {s : Span} {delta : Int} {m : Nat} (hm : (m : Int) = s.start + delta)
    (hordered : s.start ≤ s.stop) (hmax : m + s.length ≤ maxOffset) :
    s.shift delta = ⟨m, m + s.length⟩ := by
  have hstart : shiftOffset s.start delta = m := by
    unfold shiftOffset
    omega
  have hstop : shiftOffset s.stop delta = m + s.length := by
    unfold shiftOffset length at *
    omega
  rw [shift, hstart, hstop]

end Span

namespace Edit

variable {n : Nat} {old new : Chars} {e : Edit} {edits es : List Edit}

theorem totalGrowth_cons (e : Edit) (es : List Edit) :
    totalGrowth (e :: es) = e.growth + totalGrowth es := rfl

theorem totalGrowth_perm (h : edits.Perm es) : totalGrowth edits = totalGrowth es := by
  induction h with
  | nil => rfl
  | cons e _ ih => rw [totalGrowth_cons, totalGrowth_cons, ih]
  | swap e f es =>
    simp only [totalGrowth_cons]
    omega
  | trans _ _ ih ih' => exact ih.trans ih'

theorem growth_eq {before : Nat} (start : e.span.start = before)
    (stop : e.span.stop = before + old.byteLength) :
    e.growth = (Chars.byteLength e.replacement.toList : Int) - old.byteLength := by
  rw [growth, Span.length, start, stop, Nat.add_sub_cancel_left, Text.byteLength]

namespace Revises

/-- A replacement stands where the edits that sort before it have moved the start of its span. -/
theorem written (h : Revises n old es new) (hnodup : (es.map (·.span)).Nodup) (he : e ∈ es) :
    ∃ before after, new = before ++ e.replacement.toList ++ after ∧
      ((n + before.byteLength : Nat) : Int) =
        e.span.start + totalGrowth (es.filter fun f => f.span.compare e.span == .lt) := by
  induction h with
  | keep => simp at he
  | @step n gap old rest new f es start stop tail ih =>
    rcases List.mem_cons.1 he with rfl | he
    · have hnone : (e :: es).filter (fun f => f.span.compare e.span == .lt) = [] := by
        refine List.filter_eq_nil_iff.2 fun g hg => ?_
        rw [Span.compare_lt_iff]
        rcases List.mem_cons.1 hg with rfl | hg
        · omega
        · have hafter := tail.start_le_stop hg
          omega
      refine ⟨gap, new, rfl, ?_⟩
      rw [hnone, start]
      exact (Int.add_zero _).symm
    · obtain ⟨hfresh, hnodup⟩ := List.nodup_cons.1 hnodup
      obtain ⟨before, after, rfl, hposition⟩ := ih hnodup he
      have hbefore : (f.span.compare e.span == .lt) = true := by
        -- Two spans that start and end together would be the same one.
        have hne : f.span ≠ e.span := fun heq => hfresh (List.mem_map.2 ⟨e, he, heq.symm⟩)
        have hends : f.span.start = e.span.start → f.span.stop ≠ e.span.stop :=
          fun hs ht => hne (congrArg₂ Span.mk hs ht)
        have hafter := tail.start_le_stop he
        rw [Span.compare_lt_iff]
        omega
      have hgrowth := growth_eq start stop
      refine ⟨gap ++ f.replacement.toList ++ before, after, by simp, ?_⟩
      rw [List.filter_cons, if_pos hbefore, totalGrowth_cons, hgrowth]
      simp only [Chars.byteLength_append]
      omega

/-- Text between the edits stays, and stands where the edits that end before it have moved it. -/
theorem kept {span : Span} (h : Revises n old es new) (hn : n ≤ span.start)
    (hordered : span.start < span.stop) (hstop : span.stop ≤ n + old.byteLength)
    (hfree : ∀ e ∈ es, e.span.stop ≤ span.start ∨ span.stop ≤ e.span.start) :
    ∃ before inside after before' after', old = before ++ inside ++ after ∧
      new = before' ++ inside ++ after' ∧ n + before.byteLength ≤ span.start ∧
      span.stop ≤ n + before.byteLength + inside.byteLength ∧ (before'.byteLength : Int) =
        before.byteLength + totalGrowth (es.filter fun e => decide (e.span.stop ≤ span.start)) := by
  induction h with
  | keep n text => exact ⟨[], text, [], [], [], by simp, by simp, hn, hstop, rfl⟩
  | @step n gap old rest new e es start stop tail ih =>
    rcases hfree e List.mem_cons_self with hbefore | hafter
    · simp only [Chars.byteLength_append] at hstop
      obtain ⟨before, inside, after, before', after', rfl, rfl, hstart, hinside, hmoved⟩ :=
        ih (stop ▸ hbefore) (by omega) fun f hf => hfree f (List.mem_cons_of_mem _ hf)
      have hgrowth := growth_eq start stop
      refine ⟨gap ++ old ++ before, inside, after, gap ++ e.replacement.toList ++ before', after',
        by simp, by simp, ?_, ?_, ?_⟩
      · simp only [Chars.byteLength_append]
        omega
      · simp only [Chars.byteLength_append]
        omega
      · rw [List.filter_cons, if_pos (decide_eq_true hbefore), totalGrowth_cons, hgrowth]
        simp only [Chars.byteLength_append]
        omega
    · have hnone : (e :: es).filter (fun f => decide (f.span.stop ≤ span.start)) = [] := by
        refine List.filter_eq_nil_iff.2 fun f hf => ?_
        rw [decide_eq_true_eq]
        rcases List.mem_cons.1 hf with rfl | hf
        · omega
        · have hlater := tail.start_le_stop hf
          omega
      refine ⟨[], gap, old ++ rest, [], e.replacement.toList ++ new, by simp, by simp, hn, ?_, ?_⟩
      · rw [Chars.byteLength_nil]
        omega
      · rw [hnone]
        rfl

/-- Every edit lies in one of the joined ones. -/
theorem exists_join_encloses (h : Revises n old es new) (he : e ∈ es) :
    ∃ f ∈ Edit.join es, f.span.start ≤ e.span.start ∧ e.span.stop ≤ f.span.stop := by
  induction h with
  | keep => simp at he
  | @step n gap old rest new g es start stop tail ih =>
    rw [Edit.join.eq_def]
    dsimp only
    split
    · rename_i hj
      rcases List.mem_cons.1 he with rfl | he
      · exact ⟨e, List.mem_singleton_self e, Nat.le_refl _, Nat.le_refl _⟩
      · obtain ⟨f, hf, -⟩ := ih he
        simp [hj] at hf
    · rename_i f fs hj
      have hf := tail.join.start_le_stop (e := f) (by simp [hj])
      split
      · -- The two edits that touch are covered by the joined one.
        rcases List.mem_cons.1 he with rfl | he
        · exact ⟨_, List.mem_cons_self, Nat.le_refl _, by dsimp only; omega⟩
        · obtain ⟨x, hx, hstart, hstop⟩ := ih he
          rw [hj] at hx
          rcases List.mem_cons.1 hx with rfl | hx
          · exact ⟨_, List.mem_cons_self, by dsimp only; omega, hstop⟩
          · exact ⟨x, List.mem_cons_of_mem _ hx, hstart, hstop⟩
      · rcases List.mem_cons.1 he with rfl | he
        · exact ⟨e, List.mem_cons_self, Nat.le_refl _, Nat.le_refl _⟩
        · obtain ⟨x, hx, hspan⟩ := ih he
          exact ⟨x, List.mem_cons_of_mem _ (hj ▸ hx), hspan⟩

end Revises
end Edit

/-- The name stands in the replacement of the edit, at the place that is given for it. -/
def PlacedName.Writes (placed : PlacedName) (name : String) : Prop :=
  ∃ before after : Chars, placed.edit.replacement.toList = before ++ name.toList ++ after ∧
    placed.offset = before.byteLength ∧ placed.length = Text.byteLength name

namespace Edit

variable {text out : String} {edits : List Edit}

/-- A name that an edit writes is found in the new text. -/
theorem bytesAt?_nameSpanAfter {placed : PlacedName} {name : String}
    (h : Revises 0 text.toList (sort edits) out.toList)
    (hnodup : ((sort edits).map (·.span)).Nodup) (hmax : Text.byteLength out ≤ Span.maxOffset)
    (he : placed.edit ∈ edits) (hname : placed.Writes name) :
    Text.bytesAt? out (nameSpanAfter edits placed) = some (Text.bytes name) := by
  obtain ⟨before, after, hout, hposition⟩ := h.written hnodup ((sort_perm edits).mem_iff.2 he)
  obtain ⟨pre, post, hreplacement, hoffset, hlength⟩ := hname
  rw [totalGrowth_perm ((sort_perm edits).filter _), Nat.zero_add] at hposition
  have htext : out.toList = (before ++ pre) ++ name.toList ++ (post ++ after) := by
    rw [hout, hreplacement]
    simp only [List.append_assoc]
  have hspan : nameSpanAfter edits placed = ⟨(before ++ pre).byteLength,
      (before ++ pre).byteLength + Chars.byteLength name.toList⟩ := by
    rw [Text.byteLength, htext] at hmax
    simp only [Chars.byteLength_append] at hmax
    have hlen : (Span.mk (placed.edit.span.start + placed.offset)
        (placed.edit.span.start + placed.offset + placed.length)).length =
          Chars.byteLength name.toList := by
      rw [Span.length, Nat.add_sub_cancel_left, hlength, Text.byteLength]
    rw [nameSpanAfter, ← hlen]
    apply Span.shift_eq
    · dsimp only
      rw [Chars.byteLength_append]
      omega
    · exact Nat.le_add_right _ _
    · rw [hlen, Chars.byteLength_append]
      omega
  rw [Text.bytesAt?, hspan, htext, Chars.bytesAt?_append, Text.bytes]

/-- Text that no edit reaches into is found in the new text. -/
theorem bytesAt?_spanAfter {span : Span} (h : Revises 0 text.toList (sort edits) out.toList)
    (hmax : Text.byteLength out ≤ Span.maxOffset) (hordered : span.start < span.stop)
    (hstop : span.stop ≤ Text.byteLength text)
    (hfree : ∀ e ∈ join (sort edits), e.span.stop ≤ span.start ∨ span.stop ≤ e.span.start) :
    ∃ bytes, Text.bytesAt? text span = some bytes ∧
      Text.bytesAt? out (spanAfter edits span) = some bytes := by
  have hapart : ∀ e ∈ sort edits, e.span.stop ≤ span.start ∨ span.stop ≤ e.span.start := by
    intro e he
    obtain ⟨f, hf, hstart, hend⟩ := h.exists_join_encloses he
    exact (hfree f hf).imp (Nat.le_trans hend) (Nat.le_trans · hstart)
  obtain ⟨before, inside, after, before', after', htext, hout, hstart, hend, hmoved⟩ :=
    h.kept (Nat.zero_le _) hordered (by rwa [Nat.zero_add]) hapart
  rw [totalGrowth_perm ((sort_perm edits).filter _)] at hmoved
  rw [Nat.zero_add] at hstart hend
  -- The place of the span in the part that stays.
  obtain ⟨k, hk⟩ := Nat.exists_eq_add_of_le hstart
  obtain ⟨len, hlen⟩ := Nat.exists_eq_add_of_lt hordered
  have hlength : span.length = len + 1 := by
    rw [Span.length]
    omega
  have hinside : k + (len + 1) ≤ inside.byteLength := by omega
  have hbytes : inside.bytesAt? ⟨k, k + (len + 1)⟩ =
      some ((inside.bytes.take (k + (len + 1))).drop k) :=
    if_pos ⟨Nat.le_add_right _ _, by rwa [Chars.length_bytes]⟩
  have hspan : span = ⟨before.byteLength + k, before.byteLength + (k + (len + 1))⟩ :=
    congrArg₂ Span.mk hk (by omega)
  have hspanAfter : spanAfter edits span =
      ⟨before'.byteLength + k, before'.byteLength + (k + (len + 1))⟩ := by
    rw [Text.byteLength, hout] at hmax
    simp only [Chars.byteLength_append] at hmax
    rw [← Nat.add_assoc, ← hlength]
    apply Span.shift_eq
    · omega
    · exact Nat.le_of_lt hordered
    · omega
  have hbefore := Chars.bytesAt?_inside before inside after ⟨k, k + (len + 1)⟩ hinside
  have hafter := Chars.bytesAt?_inside before' inside after' ⟨k, k + (len + 1)⟩ hinside
  refine ⟨(inside.bytes.take (k + (len + 1))).drop k, ?_, ?_⟩
  · rw [Text.bytesAt?, htext, hspan, hbefore, hbytes]
  · rw [Text.bytesAt?, hout, hspanAfter, hafter, hbytes]

end Edit
end EnhancedFor
