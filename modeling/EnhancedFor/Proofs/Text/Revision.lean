import Mathlib.Data.List.Nodup
import EnhancedFor.Text.Edit

/-!
What edits do to a text. `Edit.Revises n old es new` holds when the edits `es`, made for a text in
which `old` stands at offset `n`, turn `old` into `new`. Revisions of neighbouring texts compose,
and edits that revise a whole text can be applied to it in any order.
-/

namespace EnhancedFor

namespace Chars

theorem byteLength_eq_zero {cs : Chars} : byteLength cs = 0 ↔ cs = [] := by
  cases cs with
  | nil => simp
  | cons c cs =>
    have := Char.utf8Size_pos c
    simp only [byteLength_cons, reduceCtorEq, iff_false]
    omega

theorem byteLength_pos {cs : Chars} (h : cs ≠ []) : 0 < byteLength cs :=
  Nat.pos_of_ne_zero fun hzero => h (byteLength_eq_zero.1 hzero)

theorem cut?_append (before inside after : Chars) (span : Span)
    (start : span.start = byteLength before)
    (stop : span.stop = byteLength before + byteLength inside) :
    cut? (before ++ inside ++ after) span = some (before, inside, after) := by
  have hstop : span.stop = byteLength (before ++ inside) := by simp [stop]
  simp only [cut?, hstop, start, splitAt?_append, Option.bind_eq_bind, Option.bind_some]
  rfl

theorem isBoundary_append (before after : Chars) :
    isBoundary (before ++ after) (byteLength before) = true := by
  simp [isBoundary, splitAt?_append]

/-- Whole characters end at the offset. -/
def Boundary (cs : Chars) (offset : Nat) : Prop :=
  ∃ before after, cs = before ++ after ∧ before.byteLength = offset

theorem isBoundary_iff {cs : Chars} {offset : Nat} :
    isBoundary cs offset = true ↔ cs.Boundary offset := by
  constructor
  · intro h
    obtain ⟨⟨before, after⟩, hsplit⟩ := Option.isSome_iff_exists.1 h
    exact ⟨before, after, splitAt?_eq_some hsplit⟩
  · rintro ⟨before, after, rfl, rfl⟩
    exact isBoundary_append before after

end Chars

namespace Span

theorem le_antisymm {s t : Span} (hst : s.le t = true) (hts : t.le s = true) : s = t := by
  have hbounds : s.start = t.start ∧ s.stop = t.stop := by
    simp only [le, Bool.or_eq_true, decide_eq_true_eq, Bool.and_eq_true, beq_iff_eq] at hst hts
    omega
  exact congrArg₂ Span.mk hbounds.1 hbounds.2

end Span

namespace Edit

/-- No two of the edits insert at one place. -/
def InsertsApart (edits : List Edit) : Prop :=
  ((edits.filter (·.span.isEmpty)).map (·.span.start)).Nodup

theorem InsertsApart.perm {edits es : List Edit} (h : InsertsApart edits) (hp : edits.Perm es) :
    InsertsApart es :=
  ((hp.filter _).map _).nodup_iff.1 h

/-- Edits that replace something do not matter. -/
theorem InsertsApart.append {edits es : List Edit} (h : InsertsApart es)
    (hne : ∀ e ∈ edits, e.span.isEmpty = false) : InsertsApart (edits ++ es) := by
  have hnil : edits.filter (·.span.isEmpty) = [] :=
    List.filter_eq_nil_iff.2 fun e he => by simp [hne e he]
  rw [InsertsApart, List.filter_append, hnil]
  exact h

theorem insertsApart_of_nonempty {edits : List Edit} (hne : ∀ e ∈ edits, e.span.isEmpty = false) :
    InsertsApart edits := by
  have happend : InsertsApart (edits ++ []) := InsertsApart.append List.nodup_nil hne
  rwa [List.append_nil] at happend

/-- The edits made from the last to the first. Each must cut what the later ones have left on
character boundaries. -/
def replaceAll? (text : Chars) : List Edit → Option Chars
  | [] => some text
  | e :: es => (replaceAll? text es).bind (·.replace? e.span e.replacement.toList)

theorem foldr_applyOne_of_replaceAll? {text new : Chars} {es : List Edit}
    (h : replaceAll? text es = some new) : es.foldr applyOne text = new := by
  induction es generalizing new with
  | nil => exact Option.some.inj h
  | cons e es ih =>
    obtain ⟨later, hlater, hnew⟩ := Option.bind_eq_some_iff.1 h
    simp [applyOne, ih hlater, hnew]

/-- Edits in the order of the text. Each replaces `old` behind a gap that stays. -/
inductive Revises : Nat → Chars → List Edit → Chars → Prop
  | keep (n : Nat) (text : Chars) : Revises n text [] text
  | step {n : Nat} (gap old : Chars) {rest new : Chars} (e : Edit) {es : List Edit}
      (start : e.span.start = n + gap.byteLength)
      (stop : e.span.stop = n + gap.byteLength + old.byteLength)
      (tail : Revises (n + gap.byteLength + old.byteLength) rest es new) :
      Revises n (gap ++ old ++ rest) (e :: es) (gap ++ e.replacement.toList ++ new)

namespace Revises

variable {n : Nat} {old new : Chars} {es : List Edit}

theorem eq_of_nil (h : Revises n old [] new) : new = old := by
  cases h
  rfl

theorem swap (n : Nat) (old : Chars) (replacement : String) :
    Revises n old [⟨⟨n, n + old.byteLength⟩, replacement⟩] replacement.toList := by
  have h := step (n := n) [] old ⟨⟨n, n + old.byteLength⟩, replacement⟩ (by simp) (by simp)
    (keep _ [])
  simpa using h

/-- Text before the first edit can be moved into the gap. -/
theorem pad (text : Chars) (h : Revises (n + text.byteLength) old es new) :
    Revises n (text ++ old) es (text ++ new) := by
  cases h with
  | keep => exact keep _ _
  | @step _ gap old rest new e es start stop tail =>
    have hs := step (n := n) (text ++ gap) old e (by simp [start, Nat.add_assoc])
      (by simp [stop, Nat.add_assoc]) (by simpa [Nat.add_assoc] using tail)
    simpa [List.append_assoc] using hs

theorem append {old' new' : Chars} {es' : List Edit} (h : Revises n old es new)
    (h' : Revises (n + old.byteLength) old' es' new') :
    Revises n (old ++ old') (es ++ es') (new ++ new') := by
  induction h with
  | keep n text => exact pad text h'
  | @step n gap old rest new e es start stop tail ih =>
    have hs := step gap old e start stop (ih (by simpa [Nat.add_assoc] using h'))
    simpa [List.append_assoc] using hs

theorem append_text (text : Chars) (h : Revises n old es new) :
    Revises n (old ++ text) es (new ++ text) := by
  simpa using append h (keep _ text)

/-- Where an edit stands: its span cuts the text on character boundaries. -/
theorem cuts (h : Revises n old es new) {e : Edit} (he : e ∈ es) :
    ∃ before inside after, old = before ++ inside ++ after ∧
      e.span.start = n + before.byteLength ∧
      e.span.stop = n + before.byteLength + inside.byteLength := by
  induction h with
  | keep => simp at he
  | @step n gap old rest new f es start stop tail ih =>
    rcases List.mem_cons.1 he with rfl | he
    · exact ⟨gap, old, rest, rfl, start, stop⟩
    · obtain ⟨before, inside, after, rfl, hstart, hstop⟩ := ih he
      exact ⟨gap ++ old ++ before, inside, after, by simp, by simp [hstart]; omega,
        by simp [hstop]; omega⟩

theorem start_le_stop (h : Revises n old es new) {e : Edit} (he : e ∈ es) :
    n ≤ e.span.start ∧ e.span.start ≤ e.span.stop ∧ e.span.stop ≤ n + old.byteLength := by
  obtain ⟨before, inside, after, rfl, hstart, hstop⟩ := h.cuts he
  simp only [Chars.byteLength_append]
  omega

/-- No edit begins before an earlier one has ended. -/
theorem ordered (h : Revises n old es new) :
    es.Pairwise fun e f => e.span.stop ≤ f.span.start := by
  induction h with
  | keep => exact List.Pairwise.nil
  | @step n gap old rest new e es start stop tail ih =>
    refine List.pairwise_cons.2 ⟨fun f hf => ?_, ih⟩
    have := tail.start_le_stop hf
    omega

/-- Every edit finds its span on boundaries when the later ones are made, and the text around the
edits stays. -/
theorem replaceAll?_eq (before after : Chars) (h : Revises before.byteLength old es new) :
    replaceAll? (before ++ old ++ after) es = some (before ++ new ++ after) := by
  generalize hn : before.byteLength = n at h
  induction h generalizing before with
  | keep => rfl
  | @step n gap old rest new e es start stop tail ih =>
    have htail := ih (before ++ gap ++ old) (by simp [hn, Nat.add_assoc])
    have hcut := Chars.cut?_append (before ++ gap) old (new ++ after) e.span
      (by simp [start, hn]) (by simp [stop, hn, Nat.add_assoc])
    simp only [List.append_assoc] at htail hcut ⊢
    simp [replaceAll?, htail, Chars.replace?, hcut]

/-- Joining edits that touch changes nothing in what they do. -/
theorem join (h : Revises n old es new) : Revises n old (Edit.join es) new := by
  induction h with
  | keep => exact keep _ _
  | @step n gap old rest new e es start stop tail ih =>
    rw [Edit.join.eq_def]
    dsimp only
    split
    next hj =>
      rw [hj] at ih
      rw [ih.eq_of_nil]
      exact step gap old e start stop (keep _ _)
    next f fs hj =>
      rw [hj] at ih
      split
      next htouch =>
        -- The gap before `f` is empty, so both replaced texts are neighbours.
        cases ih with
        | @step _ gap' old' rest' new' _ _ start' stop' tail' =>
          have hgap : gap' = [] := by
            rw [← Chars.byteLength_eq_zero]
            have := beq_iff_eq.1 htouch
            omega
          subst hgap
          have hs := step gap (old ++ old')
            ⟨⟨e.span.start, f.span.stop⟩, e.replacement ++ f.replacement⟩
            start (by simpa [Nat.add_assoc] using stop') (by simpa [Nat.add_assoc] using tail')
          simpa [List.append_assoc] using hs
      next => exact step gap old e start stop ih

/-- After joining, no edit ends where another begins. -/
theorem join_apart (h : Revises n old es new) :
    (Edit.join es).Pairwise fun e f => e.span.stop < f.span.start := by
  induction h with
  | keep => exact List.Pairwise.nil
  | @step n gap old rest new e es start stop tail ih =>
    have hall := (step gap old e start stop tail).join
    rw [Edit.join.eq_def] at hall ⊢
    dsimp only at hall ⊢
    split
    next => simp
    next f fs hj =>
      rw [hj] at ih
      simp only [hj] at hall
      obtain ⟨hf, hfs⟩ := List.pairwise_cons.1 ih
      split
      next => exact List.pairwise_cons.2 ⟨hf, hfs⟩
      next hapart =>
        rw [if_neg hapart] at hall
        have hef := (List.pairwise_cons.1 hall.ordered).1 f (by simp)
        have hlt : e.span.stop < f.span.start := by
          have : e.span.stop ≠ f.span.start := fun h => hapart (beq_iff_eq.2 h)
          omega
        refine List.pairwise_cons.2 ⟨fun g hg => ?_, ih⟩
        rcases List.mem_cons.1 hg with rfl | hg
        · exact hlt
        · have := hf g hg
          have := (hall.start_le_stop (e := f) (by simp)).2.1
          omega

theorem spans_nodup_of_apart (h : Revises n old es new)
    (hapart : es.Pairwise fun e f => e.span.stop < f.span.start) :
    (es.map (·.span)).Nodup := by
  refine List.pairwise_map.2 (hapart.imp_of_mem fun {e f} he _ hlt heq => ?_)
  have := (h.start_le_stop he).2.1
  rw [← heq] at hlt
  omega

/-- Edits that revise a text have spans of their own, if no two insert at one place. -/
theorem spans_nodup (h : Revises n old es new) (hi : InsertsApart es) :
    (es.map (·.span)).Nodup := by
  have hinserts := List.pairwise_filter.1 (List.pairwise_map.1 hi)
  refine List.pairwise_map.2 ((h.ordered.and hinserts).imp_of_mem fun {e f} he hf hef heq => ?_)
  have hstart := (h.start_le_stop he).2.1
  have hempty : e.span.isEmpty = true := by
    have hle : e.span.stop ≤ e.span.start := heq ▸ hef.1
    simp only [Span.isEmpty, beq_iff_eq]
    omega
  exact hef.2 hempty (heq ▸ hempty) (congrArg Span.start heq)

end Revises

theorem sort_perm (edits : List Edit) : (sort edits).Perm edits := List.mergeSort_perm _ _

theorem sort_pairwise (edits : List Edit) :
    (sort edits).Pairwise fun e f => e.span.le f.span = true := by
  apply List.pairwise_mergeSort
  · exact fun _ _ _ => Span.le_trans
  · exact fun _ _ => Span.le_total _ _

/-- Edits with spans of their own are sorted in one way only. -/
theorem sort_eq_of_perm {edits es : List Edit} (hp : edits.Perm es)
    (hs : es.Pairwise fun e f => e.span.le f.span = true) (hn : (es.map (·.span)).Nodup) :
    sort edits = es := by
  have hperm : (sort edits).Perm es := (sort_perm edits).trans hp
  apply List.Perm.eq_of_pairwise _ (sort_pairwise edits) hs hperm
  intro e f he hf hef hfe
  exact List.inj_on_of_nodup_map hn (hperm.subset he) hf (Span.le_antisymm hef hfe)

theorem firstClash?_eq_none {es : List Edit}
    (h : es.Pairwise fun e f => clash e f = false) : firstClash? es = none := by
  fun_induction firstClash? es with
  | case1 e f rest hc => simp_all
  | case2 e f rest hc ih => exact ih (List.Pairwise.of_cons h)
  | case3 => rfl

namespace Revises

variable {text : String} {new : Chars} {edits es : List Edit}

theorem span_le (h : Revises 0 text.toList es new) :
    es.Pairwise fun e f => e.span.le f.span = true := by
  refine h.ordered.imp_of_mem fun {e f} he hf hle => ?_
  have := (h.start_le_stop he).2.1
  have := (h.start_le_stop hf).2.1
  simp only [Span.le, Bool.or_eq_true, decide_eq_true_eq, Bool.and_eq_true, beq_iff_eq]
  omega

theorem fault?_eq_none (h : Revises 0 text.toList es new) {e : Edit} (he : e ∈ es) :
    fault? text.toList e = none := by
  obtain ⟨before, inside, after, htext, hstart, hstop⟩ := h.cuts he
  have hbounds := h.start_le_stop he
  have hfirst : Chars.isBoundary text.toList e.span.start = true := by
    rw [htext, hstart, List.append_assoc, Nat.zero_add]
    exact Chars.isBoundary_append _ _
  have hlast : Chars.isBoundary text.toList e.span.stop = true := by
    rw [htext, hstop, Nat.zero_add, ← Chars.byteLength_append]
    exact Chars.isBoundary_append _ _
  have hin : ¬ (e.span.stop < e.span.start ∨ Chars.byteLength text.toList < e.span.stop) := by
    omega
  simp [fault?, hfirst, hlast, hin]

theorem clash_eq_false (h : Revises 0 text.toList es new) (hn : (es.map (·.span)).Nodup) :
    es.Pairwise fun e f => clash e f = false := by
  have hne : es.Pairwise fun e f => e.span ≠ f.span := List.pairwise_map.1 hn
  refine (h.ordered.and hne).imp fun {e f} hef => ?_
  obtain ⟨hle, hne⟩ := hef
  simp only [clash, Span.isEmpty, Bool.or_eq_false_iff, decide_eq_false_iff_not, Nat.not_lt,
    Bool.and_eq_false_iff, beq_eq_false_iff_ne, ne_eq]
  refine ⟨hle, ?_⟩
  by_contra hall
  push Not at hall
  obtain ⟨⟨he, hf⟩, hstart⟩ := hall
  exact hne (congrArg₂ Span.mk hstart (by rw [← he, ← hf, hstart]))

/-- Edits that revise a text can be normalised whatever their order. -/
theorem normalize_eq (h : Revises 0 text.toList es new) (hp : edits.Perm es)
    (hn : (es.map (·.span)).Nodup) : normalize text edits = .ok (Edit.join es) := by
  have hsort := sort_eq_of_perm hp h.span_le hn
  have hfault : es.findSome? (fault? text.toList) = none :=
    List.findSome?_eq_none_iff.2 fun e he => h.fault?_eq_none he
  have hclash := firstClash?_eq_none (h.clash_eq_false hn)
  simp [normalize, hsort, hfault, hclash]

/-- The text that edits make, whatever their order. -/
theorem apply_eq (h : Revises 0 text.toList es new) (hp : edits.Perm es)
    (hn : (es.map (·.span)).Nodup) : apply text edits = .ok (String.ofList new) := by
  have hreplaced := h.join.replaceAll?_eq [] []
  simp only [List.nil_append, List.append_nil] at hreplaced
  simp [apply, h.normalize_eq hp hn, Except.map, foldr_applyOne_of_replaceAll? hreplaced]

/-- Normalised edits make the same text as the edits they come from. -/
theorem apply_join_eq (h : Revises 0 text.toList es new) :
    apply text (Edit.join es) = .ok (String.ofList new) :=
  h.join.apply_eq (List.Perm.refl _) (h.join.spans_nodup_of_apart h.join_apart)

end Revises
end Edit
end EnhancedFor
