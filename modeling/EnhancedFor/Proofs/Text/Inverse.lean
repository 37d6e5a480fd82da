import EnhancedFor.Proofs.Text.Revision
import EnhancedFor.Text.Inverse

/-!
Normalised edits and their inverses. Main statements: edits that can be normalised revise the text
they are for, and the inverse edits revise the new text back into the old one.
-/

namespace EnhancedFor

namespace Chars

/-- A boundary behind the first part of a text cuts the second part. -/
theorem exists_append_of_isBoundary {before rest : Chars} {offset : Nat}
    (h : isBoundary (before ++ rest) offset = true) (hle : byteLength before ≤ offset) :
    ∃ gap after, rest = gap ++ after ∧ offset = byteLength before + byteLength gap := by
  obtain ⟨a, b, htext, hlength⟩ := isBoundary_iff.1 h
  rcases List.append_eq_append_iff.1 htext with ⟨gap, rfl, hrest⟩ | ⟨surplus, rfl, rfl⟩
  · exact ⟨gap, b, hrest, by rw [← hlength, byteLength_append]⟩
  · -- The boundary is the end of the first part, so nothing of it is left over.
    have hsurplus : surplus = [] := by
      rw [byteLength_append] at hle
      exact byteLength_eq_zero.1 (by omega)
    subst hsurplus
    exact ⟨[], rest, rfl, by simp [← hlength]⟩

end Chars

namespace Edit

theorem fault?_eq_none_iff {text : Chars} {e : Edit} : fault? text e = none ↔
    e.span.start ≤ e.span.stop ∧ e.span.stop ≤ text.byteLength ∧
      text.isBoundary e.span.start = true ∧ text.isBoundary e.span.stop = true := by
  unfold fault?
  split
  · rename_i hbounds
    simp only [Bool.or_eq_true, decide_eq_true_eq] at hbounds
    simp only [reduceCtorEq, false_iff]
    omega
  · rename_i hbounds
    simp only [Bool.or_eq_true, decide_eq_true_eq, not_or, Nat.not_lt] at hbounds
    cases hstart : text.isBoundary e.span.start <;> cases hstop : text.isBoundary e.span.stop <;>
      simp [hbounds]

theorem clash_eq_false_iff {e f : Edit} : clash e f = false ↔ e.span.stop ≤ f.span.start ∧
    ¬ (e.span.isEmpty = true ∧ f.span.isEmpty = true ∧ e.span.start = f.span.start) := by
  simp [clash]

/-- Edits in order, without faults and without clashes, revise the text that they are for. -/
theorem exists_revises {text before rest : Chars} {es : List Edit} (htext : text = before ++ rest)
    (hfault : ∀ e ∈ es, fault? text e = none) (hclash : firstClash? es = none)
    (hstart : ∀ e ∈ es.head?, before.byteLength ≤ e.span.start) :
    ∃ new, Revises before.byteLength rest es new := by
  induction es generalizing before rest with
  | nil => exact ⟨rest, .keep _ _⟩
  | cons e es ih =>
    obtain ⟨hordered, -, hfirst, hlast⟩ := fault?_eq_none_iff.1 (hfault e List.mem_cons_self)
    have hle : before.byteLength ≤ e.span.start := hstart e rfl
    obtain ⟨gap, after, rfl, hgap⟩ := Chars.exists_append_of_isBoundary (htext ▸ hfirst) hle
    have htext' : text = (before ++ gap) ++ after := by rw [htext, List.append_assoc]
    have hle' : (before ++ gap).byteLength ≤ e.span.stop := by
      rw [Chars.byteLength_append]
      omega
    obtain ⟨old, rest, rfl, hold⟩ := Chars.exists_append_of_isBoundary (htext' ▸ hlast) hle'
    rw [Chars.byteLength_append] at hold
    have hnext : ∃ new, Revises (before ++ gap ++ old).byteLength rest es new := by
      refine ih (by rw [htext', List.append_assoc _ old])
        (fun f hf => hfault f (by simp [hf])) ?_ ?_
      · cases es with
        | nil => rfl
        | cons f es =>
          rw [firstClash?] at hclash
          split at hclash
          · contradiction
          · exact hclash
      · intro f hf
        cases es with
        | nil => simp at hf
        | cons g es =>
          obtain rfl : g = f := by simpa using hf
          rw [firstClash?] at hclash
          split at hclash
          · contradiction
          · rename_i hapart
            have := (clash_eq_false_iff.1 (Bool.eq_false_iff.2 hapart)).1
            simp only [Chars.byteLength_append]
            omega
    obtain ⟨new, hnew⟩ := hnext
    simp only [Chars.byteLength_append] at hnew
    rw [← List.append_assoc]
    exact ⟨_, .step gap old e hgap hold hnew⟩

/-- An edit between two others keeps them from clashing, since it cannot itself stand where both
insert. -/
theorem clash_trans {e f g : Edit} (hef : clash e f = false) (hf : f.span.start ≤ f.span.stop)
    (hfg : clash f g = false) : clash e g = false := by
  simp only [clash_eq_false_iff, Span.isEmpty, beq_iff_eq] at *
  omega

/-- It is enough that no neighbours clash. -/
theorem pairwise_of_firstClash? {es : List Edit} (hordered : ∀ e ∈ es, e.span.start ≤ e.span.stop)
    (h : firstClash? es = none) : es.Pairwise fun e f => clash e f = false := by
  fun_induction firstClash? es with
  | case1 e f rest hc => simp at h
  | case2 e f rest hc ih =>
    have htail := ih (fun g hg => hordered g (List.mem_cons_of_mem _ hg)) h
    have hef : clash e f = false := Bool.eq_false_iff.2 hc
    refine List.pairwise_cons.2 ⟨fun g hg => ?_, htail⟩
    rcases List.mem_cons.1 hg with rfl | hg
    · exact hef
    · exact clash_trans hef (hordered f (by simp)) ((List.pairwise_cons.1 htail).1 g hg)
  | case3 es hshort =>
    cases es with
    | nil => exact .nil
    | cons e rest =>
      cases rest with
      | nil => simp
      | cons f rest => exact (hshort e f rest rfl).elim

/-- Edits that do not clash have spans of their own. -/
theorem spans_nodup_of_clash {es : List Edit} (hordered : ∀ e ∈ es, e.span.start ≤ e.span.stop)
    (h : es.Pairwise fun e f => clash e f = false) : (es.map (·.span)).Nodup := by
  refine List.pairwise_map.2 (h.imp_of_mem fun {e f} he _ hef heq => ?_)
  have hle := hordered e he
  rw [clash_eq_false_iff, ← heq] at hef
  simp only [Span.isEmpty, beq_iff_eq, and_true, and_self] at hef
  omega

/-- What normalising needs, said of the sorted edits. -/
theorem normalize_eq_ok_iff {text : String} {edits normal : List Edit} :
    normalize text edits = .ok normal ↔ (∀ e ∈ sort edits, fault? text.toList e = none) ∧
      ((sort edits).Pairwise fun e f => clash e f = false) ∧ join (sort edits) = normal := by
  constructor
  · intro h
    rw [normalize] at h
    split at h
    · contradiction
    · rename_i hfault
      split at h
      · contradiction
      · rename_i hclash
        have hfine := List.findSome?_eq_none_iff.1 hfault
        refine ⟨hfine, ?_, Except.ok.inj h⟩
        exact pairwise_of_firstClash? (fun e he => (fault?_eq_none_iff.1 (hfine e he)).1) hclash
  · rintro ⟨hfine, hclash, rfl⟩
    simp [normalize, List.findSome?_eq_none_iff.2 hfine, firstClash?_eq_none hclash]

/-- Edits that can be normalised revise the text in their order, each with a span of its own. -/
theorem revises_sort {text : String} {edits normal : List Edit}
    (h : normalize text edits = .ok normal) : join (sort edits) = normal ∧
      ((sort edits).map (·.span)).Nodup ∧ ∃ new, Revises 0 text.toList (sort edits) new := by
  obtain ⟨hfine, hclash, hjoin⟩ := normalize_eq_ok_iff.1 h
  refine ⟨hjoin, ?_, ?_⟩
  · exact spans_nodup_of_clash (fun e he => (fault?_eq_none_iff.1 (hfine e he)).1) hclash
  · exact exists_revises (List.nil_append text.toList).symm hfine (firstClash?_eq_none hclash)
      (fun e _ => Nat.zero_le _)

/-- Normalised edits revise the text, and no two of them touch. -/
theorem revises_of_normalize {text : String} {edits normal : List Edit}
    (h : normalize text edits = .ok normal) : ∃ new, Revises 0 text.toList normal new ∧
      normal.Pairwise fun e f => e.span.stop < f.span.start := by
  obtain ⟨rfl, -, new, hnew⟩ := revises_sort h
  exact ⟨new, hnew.join, hnew.join_apart⟩

/-- In the text, `old` stands behind `before`. After growth by `delta` it is found at offset `m`. -/
structure Moved (text before old : Chars) (delta : Int) (m : Nat) : Prop where
  text_eq : text = before ++ old
  offset : (m : Int) = before.byteLength + delta

namespace Moved

variable {text before gap old rest : Chars} {delta : Int} {n m : Nat} {e : Edit}

theorem inverseFrom_cons (h : Moved text before (gap ++ old ++ rest) delta m)
    (start : e.span.start = before.byteLength + gap.byteLength)
    (stop : e.span.stop = before.byteLength + gap.byteLength + old.byteLength)
    (hmax : m + gap.byteLength ≤ Span.maxOffset) (es : List Edit) :
    inverseFrom text delta (e :: es) =
      ⟨⟨m + gap.byteLength, m + gap.byteLength + Text.byteLength e.replacement⟩,
        String.ofList old⟩ :: inverseFrom text (delta + e.growth) es := by
  have hshift : Span.shiftOffset e.span.start delta = m + gap.byteLength := by
    have := h.offset
    rw [Span.shiftOffset, start]
    omega
  have hslice : (Chars.slice? text e.span).getD [] = old := by
    have hcut := Chars.cut?_append (before ++ gap) old rest e.span
      (by rw [start, Chars.byteLength_append]) (by rw [stop, Chars.byteLength_append])
    have heq : text = before ++ gap ++ old ++ rest := by simp [h.text_eq]
    rw [Chars.slice?, heq, hcut]
    rfl
  rw [inverseFrom, hshift, hslice]

/-- Behind an edit the text has grown by as much more as the edit makes it grow. -/
theorem next (h : Moved text before (gap ++ old ++ rest) delta m)
    (start : e.span.start = before.byteLength + gap.byteLength)
    (stop : e.span.stop = before.byteLength + gap.byteLength + old.byteLength) :
    Moved text (before ++ gap ++ old) rest (delta + e.growth)
      (m + gap.byteLength + Text.byteLength e.replacement) := by
  refine ⟨by simp [h.text_eq], ?_⟩
  have hgrowth : e.growth = (Text.byteLength e.replacement : Int) - old.byteLength := by
    rw [growth, Span.length, start, stop, Nat.add_sub_cancel_left]
  have := h.offset
  rw [hgrowth, Chars.byteLength_append, Chars.byteLength_append]
  omega

end Moved

namespace Revises

variable {text before old new : Chars} {n m k : Nat} {delta : Int} {es : List Edit}

/-- The inverse edits find the new text where the growth before it has moved it, and bring back the
old one. -/
theorem inverseFrom (h : Revises n old es new) (hn : before.byteLength = n)
    (hmoved : Moved text before old delta m) (hmax : m + new.byteLength ≤ Span.maxOffset) :
    Revises m new (Edit.inverseFrom text delta es) old := by
  induction h generalizing before m delta with
  | keep => exact .keep _ _
  | @step n gap old rest new e es start stop tail ih =>
    subst hn
    simp only [Chars.byteLength_append] at hmax
    rw [hmoved.inverseFrom_cons start stop (by omega)]
    have htail := ih (by simp [Nat.add_assoc]) (hmoved.next start stop)
      (by rw [Text.byteLength]; omega)
    have hstep := step (n := m) gap e.replacement.toList ⟨⟨m + gap.byteLength,
      m + gap.byteLength + Text.byteLength e.replacement⟩, String.ofList old⟩ rfl rfl htail
    rwa [String.toList_ofList] at hstep

/-- A stretch of text before the first edit is there before the first inverse edit as well. -/
theorem le_start_inverseFrom (h : Revises n old es new) (hn : before.byteLength = n)
    (hmoved : Moved text before old delta m) (hmax : m + new.byteLength ≤ Span.maxOffset)
    (hk : ∀ e ∈ es, n + k ≤ e.span.start) :
    ∀ f ∈ Edit.inverseFrom text delta es, m + k ≤ f.span.start := by
  cases h with
  | keep => simp [Edit.inverseFrom]
  | @step _ gap old rest new e es start stop tail =>
    subst hn
    simp only [Chars.byteLength_append] at hmax
    have hgap : k ≤ gap.byteLength := by
      have := hk e List.mem_cons_self
      omega
    have htail := tail.inverseFrom (by simp [Nat.add_assoc]) (hmoved.next start stop)
      (by rw [Text.byteLength]; omega)
    rw [hmoved.inverseFrom_cons start stop (by omega)]
    intro f hf
    rcases List.mem_cons.1 hf with rfl | hf
    · exact Nat.add_le_add_left hgap m
    · have := (htail.start_le_stop hf).1
      omega

/-- Inverses of edits that do not touch do not touch. -/
theorem inverseFrom_apart (h : Revises n old es new) (hn : before.byteLength = n)
    (hmoved : Moved text before old delta m) (hmax : m + new.byteLength ≤ Span.maxOffset)
    (hapart : es.Pairwise fun e f => e.span.stop < f.span.start) :
    (Edit.inverseFrom text delta es).Pairwise fun e f => e.span.stop < f.span.start := by
  induction h generalizing before m delta with
  | keep => exact List.Pairwise.nil
  | @step n gap old rest new e es start stop tail ih =>
    subst hn
    simp only [Chars.byteLength_append] at hmax
    have hlength : (before ++ gap ++ old).byteLength =
        before.byteLength + gap.byteLength + old.byteLength := by
      simp [Nat.add_assoc]
    have hnext := hmoved.next start stop
    have hmax' : m + gap.byteLength + Text.byteLength e.replacement + new.byteLength ≤
        Span.maxOffset := by
      rw [Text.byteLength]
      omega
    obtain ⟨hhead, hrest⟩ := List.pairwise_cons.1 hapart
    rw [hmoved.inverseFrom_cons start stop (by omega)]
    refine List.pairwise_cons.2 ⟨fun f hf => ?_, ih hlength hnext hmax' hrest⟩
    exact tail.le_start_inverseFrom (k := 1) hlength hnext hmax'
      (fun g hg => stop ▸ hhead g hg) f hf

variable {source : String}

theorem moved_zero : Moved source.toList [] source.toList 0 0 := ⟨rfl, rfl⟩

theorem inverse (h : Revises 0 source.toList es new) (hmax : new.byteLength ≤ Span.maxOffset) :
    Revises 0 new (Edit.inverse source es) source.toList :=
  h.inverseFrom rfl moved_zero (by rwa [Nat.zero_add])

theorem inverse_apart (h : Revises 0 source.toList es new)
    (hapart : es.Pairwise fun e f => e.span.stop < f.span.start)
    (hmax : new.byteLength ≤ Span.maxOffset) :
    (Edit.inverse source es).Pairwise fun e f => e.span.stop < f.span.start :=
  h.inverseFrom_apart rfl moved_zero (by rwa [Nat.zero_add]) hapart

end Revises
end Edit
end EnhancedFor
