import EnhancedFor.Proofs.Text.Inverse

/-!
Applying edits as one splice of the text. Normalising looks at neighbours of the sorted edits only
and joins those that touch, and the replacements are made from the end of the text backwards. Main
statements: edits are accepted exactly if each fits the text and any two are compatible, the result
is the text with all replacements put in at once, neither the result nor the error depends on the
order of the edits, and normalised edits are a normal form: they are apart, stay as they are when
they are normalised again, and make the same text.
-/

namespace EnhancedFor

namespace Edit

variable {text : String} {e f : Edit} {edits es : List Edit}

/-- The span lies in the text and cuts it between characters. -/
def Fits (text : Chars) (e : Edit) : Prop :=
  e.span.start ≤ e.span.stop ∧ e.span.stop ≤ text.byteLength ∧
    text.Boundary e.span.start ∧ text.Boundary e.span.stop

/-- The edit that comes first by start and stop ends before the other starts, and they do not both
insert at one place. -/
def Compatible (e f : Edit) : Prop :=
  (if e.span.le f.span then e.span.stop ≤ f.span.start else f.span.stop ≤ e.span.start) ∧
    ¬ (e.span.isEmpty = true ∧ f.span.isEmpty = true ∧ e.span.start = f.span.start)

theorem fault?_eq_none_iff_fits {cs : Chars} : fault? cs e = none ↔ e.Fits cs := by
  simp only [fault?_eq_none_iff, Chars.isBoundary_iff, Fits]

theorem Compatible.symm (h : Compatible e f) : Compatible f e := by
  obtain ⟨hends, hinserts⟩ := h
  constructor
  · split
    · rename_i hfe
      split at hends
      · rename_i hef
        rw [Span.le_antisymm hef hfe] at hends ⊢
        exact hends
      · exact hends
    · rename_i hfe
      have hef : e.span.le f.span = true := by
        have htotal := Span.le_total e.span f.span
        simpa [hfe] using htotal
      rwa [if_pos hef] at hends
  · intro hboth
    exact hinserts ⟨hboth.2.1, hboth.1, hboth.2.2.symm⟩

theorem compatible_iff_of_le (h : e.span.le f.span = true) :
    Compatible e f ↔ clash e f = false := by
  rw [Compatible, if_pos h, clash_eq_false_iff]

/-- Sorting does not matter for what each edit and any two of them must satisfy. -/
theorem normalize_isOk_iff : (∃ normal, normalize text edits = .ok normal) ↔
    (∀ e ∈ edits, e.Fits text.toList) ∧ edits.Pairwise Compatible := by
  have hfits : (∀ e ∈ sort edits, fault? text.toList e = none) ↔
      ∀ e ∈ edits, e.Fits text.toList := by
    simp only [(sort_perm edits).mem_iff, fault?_eq_none_iff_fits]
  have hcompatible : ((sort edits).Pairwise fun e f => clash e f = false) ↔
      edits.Pairwise Compatible := by
    rw [← (sort_perm edits).pairwise_iff Compatible.symm]
    constructor
    · intro h
      exact (h.and (sort_pairwise edits)).imp fun hef => (compatible_iff_of_le hef.2).2 hef.1
    · intro h
      exact (h.and (sort_pairwise edits)).imp fun hef => (compatible_iff_of_le hef.2).1 hef.1
  rw [← hfits, ← hcompatible]
  simp [normalize_eq_ok_iff]

/-- The text from `start` on with all replacements put in at once: what stands between the edits
stays. -/
def splice? (text : Chars) (start : Nat) : List Edit → Option Chars
  | [] => text.slice? ⟨start, text.byteLength⟩
  | e :: es => do
    let gap ← text.slice? ⟨start, e.span.start⟩
    let rest ← splice? text e.span.stop es
    pure (gap ++ e.replacement.toList ++ rest)

theorem Revises.splice?_eq {n : Nat} {old new : Chars} (before : Chars) (h : Revises n old es new)
    (hn : before.byteLength = n) : splice? (before ++ old) n es = some new := by
  induction h generalizing before with
  | keep n text =>
    have hcut := Chars.cut?_append before text [] ⟨n, (before ++ text).byteLength⟩ hn.symm (by simp)
    rw [List.append_nil] at hcut
    rw [splice?, Chars.slice?, hcut]
    rfl
  | @step n gap old rest new e es start stop tail ih =>
    have hcut := Chars.cut?_append before gap (old ++ rest) ⟨n, e.span.start⟩ hn.symm
      (by rw [start, hn])
    have htail := ih (before ++ gap ++ old) (by simp [hn, Nat.add_assoc])
    rw [← stop] at htail
    simp only [List.append_assoc] at hcut htail ⊢
    simp [splice?, Chars.slice?, hcut, htail]

/-- The text that is made is a revision by the sorted edits. -/
theorem revises_of_apply {out : String} (h : apply text edits = .ok out) :
    normalize text edits = .ok (join (sort edits)) ∧
      Revises 0 text.toList (sort edits) out.toList ∧ ((sort edits).map (·.span)).Nodup := by
  cases hnormal : normalize text edits with
  | error error => simp [apply, hnormal, Except.map] at h
  | ok normal =>
    obtain ⟨rfl, hnodup, new, hnew⟩ := revises_sort hnormal
    have happly := hnew.apply_eq (sort_perm edits).symm hnodup
    obtain rfl : String.ofList new = out := Except.ok.inj (happly.symm.trans h)
    rw [String.toList_ofList]
    exact ⟨rfl, hnew, hnodup⟩

/-- Edits are accepted exactly if each fits the text and any two are compatible. Then the result is
the text with all replacements put in at once, in whatever way the edits are sorted by start and
stop, and every replacement that is made on the way finds its span on character boundaries. -/
theorem apply_eq_splice (text : String) (edits : List Edit) :
    ((∃ out, apply text edits = .ok out) ↔
      (∀ e ∈ edits, e.Fits text.toList) ∧ edits.Pairwise Compatible) ∧
    ∀ out, apply text edits = .ok out →
      (∀ es, es.Perm edits → (es.Pairwise fun e f => e.span.le f.span = true) →
        splice? text.toList 0 es = some out.toList) ∧
      ∃ normal, normalize text edits = .ok normal ∧
        replaceAll? text.toList normal = some out.toList := by
  constructor
  · rw [← normalize_isOk_iff]
    cases hnormal : normalize text edits with
    | error error => simp [apply, hnormal, Except.map]
    | ok normal => simp [apply, hnormal, Except.map]
  · intro out h
    obtain ⟨hnormal, hrevises, hnodup⟩ := revises_of_apply h
    constructor
    · intro es hperm hsorted
      have hes : sort edits = es := by
        apply sort_eq_of_perm hperm.symm hsorted
        exact ((hperm.trans (sort_perm edits).symm).map _).nodup_iff.2 hnodup
      rw [← hes]
      exact hrevises.splice?_eq [] rfl
    · have hreplaced := hrevises.join.replaceAll?_eq [] []
      simp only [List.nil_append, List.append_nil] at hreplaced
      exact ⟨_, hnormal, hreplaced⟩

end Edit

namespace Demo

/-- Out of order, on a text with a character of two bytes; the insertion touches the deletion. -/
def replacements : List Edit := [⟨⟨9, 12⟩, "x"⟩, .insert 4 "!", .delete ⟨0, 4⟩]

/-- The same in the order of the text. -/
def sorted : List Edit := [.delete ⟨0, 4⟩, .insert 4 "!", ⟨⟨9, 12⟩, "x"⟩]

theorem perm_sorted : replacements.Perm sorted := by decide

theorem nodup_sorted : (sorted.map (·.span)).Nodup := by decide

theorem revises_sorted : Edit.Revises 0 "für abc def".toList sorted "! abc x".toList :=
  .step [] "für".toList _ rfl rfl <| .step [] [] _ rfl rfl <|
    .step " abc ".toList "def".toList _ rfl rfl (.keep 12 [])

theorem apply_replacements : Edit.apply "für abc def" replacements = .ok "! abc x" :=
  revises_sorted.apply_eq perm_sorted nodup_sorted

theorem replacements_spliced :
    (∀ e ∈ replacements, e.Fits "für abc def".toList) ∧ replacements.Pairwise Edit.Compatible ∧
      Edit.splice? "für abc def".toList 0 [.delete ⟨0, 4⟩, .insert 4 "!", ⟨⟨9, 12⟩, "x"⟩] =
        some "! abc x".toList := by
  obtain ⟨haccepted, hresult⟩ := Edit.apply_eq_splice "für abc def" replacements
  obtain ⟨hfits, hcompatible⟩ := haccepted.1 ⟨_, apply_replacements⟩
  exact ⟨hfits, hcompatible, (hresult _ apply_replacements).1 _ perm_sorted.symm (by decide)⟩

end Demo

namespace Edit

variable {edits es : List Edit}

/-- The spans of the sorted edits do not depend on the order of the edits. -/
theorem map_span_sort_eq (hp : edits.Perm es) :
    (sort edits).map (·.span) = (sort es).map (·.span) := by
  apply List.Perm.eq_of_pairwise (fun s t _ _ => Span.le_antisymm)
  · exact List.pairwise_map.2 (sort_pairwise edits)
  · exact List.pairwise_map.2 (sort_pairwise es)
  · exact (((sort_perm edits).trans hp).trans (sort_perm es).symm).map _

/-- Faults are found by span. -/
theorem findSome?_fault?_congr (cs : Chars) (h : edits.map (·.span) = es.map (·.span)) :
    edits.findSome? (fault? cs) = es.findSome? (fault? cs) := by
  have hspan (edits : List Edit) : edits.findSome? (fault? cs) =
      (edits.map (·.span)).findSome? fun span => fault? cs (delete span) := by
    rw [List.findSome?_map]
    rfl
  rw [hspan edits, hspan es, h]

/-- The spans of the first two neighbours that clash. -/
def firstClashSpans? (edits : List Edit) : Option (Span × Span) :=
  (firstClash? edits).map fun c => (c.1.span, c.2.span)

/-- Clashes are found by span. -/
theorem firstClashSpans?_congr (h : edits.map (·.span) = es.map (·.span)) :
    firstClashSpans? edits = firstClashSpans? es := by
  induction edits generalizing es with
  | nil =>
    obtain rfl : es = [] := by simpa using h.symm
    rfl
  | cons e rest ih =>
    obtain ⟨e', rest', rfl, he, hrest⟩ := List.map_eq_cons_iff.1 h.symm
    cases rest with
    | nil =>
      obtain rfl : rest' = [] := by simpa using hrest
      rfl
    | cons f rest =>
      obtain ⟨f', rest', rfl, hf, -⟩ := List.map_eq_cons_iff.1 hrest
      have htail := ih hrest.symm
      have hclash : clash e' f' = clash e f := by simp only [clash, he, hf]
      unfold firstClashSpans? at htail ⊢
      rw [firstClash?, firstClash?, hclash]
      split
      · simp [he, hf]
      · exact htail

theorem normalize_eq_of_perm (text : String) (hp : edits.Perm es) :
    normalize text edits = normalize text es := by
  have hspans := map_span_sort_eq hp
  have hfaults := findSome?_fault?_congr text.toList hspans
  have hclashes := firstClashSpans?_congr hspans
  unfold firstClashSpans? at hclashes
  cases hfault : (sort es).findSome? (fault? text.toList) with
  | some error => simp [normalize, hfaults, hfault]
  | none =>
    cases hclash : firstClash? (sort es) with
    | some pair =>
      rw [hclash] at hclashes
      obtain ⟨c, hc, hpair⟩ := Option.map_eq_some_iff.1 hclashes
      obtain ⟨hfirst, hsecond⟩ := Prod.mk.inj hpair
      simp [normalize, hfaults, hfault, hclash, hc, hfirst, hsecond]
    | none =>
      -- Without clashes no two spans are equal, so the edits can be sorted in one way only.
      have hordered (e : Edit) (he : e ∈ sort es) : e.span.start ≤ e.span.stop :=
        (fault?_eq_none_iff.1 (List.findSome?_eq_none_iff.1 hfault e he)).1
      have hnodup := spans_nodup_of_clash hordered (pairwise_of_firstClash? hordered hclash)
      have hsort : sort edits = sort es :=
        sort_eq_of_perm (hp.trans (sort_perm es).symm) (sort_pairwise es) hnodup
      simp [normalize, hsort]

/-- Edits in any other order are normalised to the same list and make the same text, or fail with
the same error. -/
theorem same_result_of_perm (text : String) (edits es : List Edit) (hp : edits.Perm es) :
    normalize text edits = normalize text es ∧ apply text edits = apply text es := by
  have hnormal := normalize_eq_of_perm text hp
  exact ⟨hnormal, by rw [apply, apply, hnormal]⟩

end Edit

namespace Demo

/-- The other way round the edits make the same text. With one more edit of a span that is there
already they fail with the same error in any order, though the two replacements differ. -/
theorem replacements_reordered :
    Edit.apply "für abc def" replacements.reverse = .ok "! abc x" ∧
      Edit.apply "für abc def" (⟨⟨9, 12⟩, "y"⟩ :: replacements) =
        .error (.overlap ⟨9, 12⟩ ⟨9, 12⟩) ∧
      Edit.apply "für abc def" (replacements ++ [⟨⟨9, 12⟩, "y"⟩]) =
        .error (.overlap ⟨9, 12⟩ ⟨9, 12⟩) := by
  have hsort : Edit.sort (sorted ++ [⟨⟨9, 12⟩, "y"⟩]) = sorted ++ [⟨⟨9, 12⟩, "y"⟩] :=
    List.mergeSort_of_pairwise (by decide)
  have hclash : Edit.apply "für abc def" (sorted ++ [⟨⟨9, 12⟩, "y"⟩]) =
      .error (.overlap ⟨9, 12⟩ ⟨9, 12⟩) := by
    rw [Edit.apply, Edit.normalize, hsort]
    rfl
  have hperm : List.Perm (replacements ++ [⟨⟨9, 12⟩, "y"⟩]) (sorted ++ [⟨⟨9, 12⟩, "y"⟩]) :=
    perm_sorted.append_right _
  refine ⟨?_, ?_, ?_⟩
  · rw [(Edit.same_result_of_perm _ _ _ (List.reverse_perm replacements)).2, apply_replacements]
  · have hfirst := (List.perm_append_singleton ⟨⟨9, 12⟩, "y"⟩ replacements).symm.trans hperm
    rw [(Edit.same_result_of_perm _ _ _ hfirst).2, hclash]
  · rw [(Edit.same_result_of_perm _ _ _ hperm).2, hclash]

end Demo

namespace Edit

/-- Edits that do not touch stay as they are. -/
theorem join_eq_self {es : List Edit} (h : es.Pairwise fun e f => e.span.stop < f.span.start) :
    join es = es := by
  induction es with
  | nil => rfl
  | cons e rest ih =>
    obtain ⟨hhead, hrest⟩ := List.pairwise_cons.1 h
    cases rest with
    | nil => rfl
    | cons f rest =>
      have hapart : ¬ (e.span.stop == f.span.start) = true := by
        have hlt : e.span.stop < f.span.start := hhead f List.mem_cons_self
        rw [beq_iff_eq]
        omega
      rw [join, ih hrest]
      dsimp only
      rw [if_neg hapart]

/-- Normalised edits are in the order of the text and no two of them touch. Normalising them again
changes nothing, and they make the text that the edits they come from make. -/
theorem normalize_canonical (text : String) (edits normal : List Edit)
    (h : normalize text edits = .ok normal) :
    (normal.Pairwise fun e f => e.span.le f.span = true) ∧
      (normal.Pairwise fun e f => e.span.stop < f.span.start) ∧
      normalize text normal = .ok normal ∧
      ∃ out, apply text normal = .ok out ∧ apply text edits = .ok out := by
  obtain ⟨rfl, hnodup, new, hnew⟩ := revises_sort h
  have hapart := hnew.join_apart
  have hagain := hnew.join.normalize_eq (List.Perm.refl _) (hnew.join.spans_nodup_of_apart hapart)
  rw [join_eq_self hapart] at hagain
  refine ⟨hnew.join.span_le, hapart, hagain, String.ofList new, hnew.apply_join_eq, ?_⟩
  exact hnew.apply_eq (sort_perm edits).symm hnodup

end Edit

namespace Demo

/-- The insertion goes into the deletion that it touches. -/
theorem replacements_normalized :
    Edit.normalize "für abc def" replacements = .ok [⟨⟨0, 4⟩, "!"⟩, ⟨⟨9, 12⟩, "x"⟩] ∧
      Edit.normalize "für abc def" [⟨⟨0, 4⟩, "!"⟩, ⟨⟨9, 12⟩, "x"⟩] =
        .ok [⟨⟨0, 4⟩, "!"⟩, ⟨⟨9, 12⟩, "x"⟩] ∧
      Edit.apply "für abc def" [⟨⟨0, 4⟩, "!"⟩, ⟨⟨9, 12⟩, "x"⟩] = .ok "! abc x" := by
  have hnormal : Edit.normalize "für abc def" replacements =
      .ok [⟨⟨0, 4⟩, "!"⟩, ⟨⟨9, 12⟩, "x"⟩] :=
    revises_sorted.normalize_eq perm_sorted nodup_sorted
  obtain ⟨-, -, hagain, out, hout, hsame⟩ := Edit.normalize_canonical _ _ _ hnormal
  obtain rfl : "! abc x" = out := Except.ok.inj (apply_replacements.symm.trans hsame)
  exact ⟨hnormal, hagain, hout⟩

end Demo
end EnhancedFor
