import Mathlib.Algebra.Group.Nat.Defs
import EnhancedFor.Change.Perform
import EnhancedFor.Proofs.Text.Inverse

/-!
Undoing the edits of one file. Main statement: the undo of a text change gives back the documents as
they were, its own undo makes the change again, and a change that fails leaves all documents alone.
-/

namespace EnhancedFor

namespace Documents

variable {docs : Documents} {file other text new : String}

theorem lookup_put_self (texts : List (String × String)) :
    (put file text texts).lookup file = some text := by
  induction texts with
  | nil => simp [put]
  | cons entry texts ih =>
    obtain ⟨f, t⟩ := entry
    rw [put]
    split
    · simp
    · rename_i hne
      have hfile : (file == f) = false :=
        beq_eq_false_iff_ne.2 fun heq => hne (beq_iff_eq.2 heq.symm)
      simpa [List.lookup_cons, hfile] using ih

theorem lookup_put_of_ne (h : other ≠ file) (texts : List (String × String)) :
    (put file text texts).lookup other = texts.lookup other := by
  have hother : (other == file) = false := beq_eq_false_iff_ne.2 h
  induction texts with
  | nil => simp [put, List.lookup_cons, hother]
  | cons entry texts ih =>
    obtain ⟨f, t⟩ := entry
    rw [put]
    split
    · rename_i heq
      obtain rfl := beq_iff_eq.1 heq
      simp [List.lookup_cons, hother]
    · simp [List.lookup_cons, ih]

theorem put_put {texts : List (String × String)} (h : texts.lookup file = some text) :
    put file text (put file new texts) = texts := by
  induction texts with
  | nil => simp at h
  | cons entry texts ih =>
    obtain ⟨f, t⟩ := entry
    rw [List.lookup_cons] at h
    rw [put]
    split
    · rename_i heq
      obtain rfl := beq_iff_eq.1 heq
      obtain rfl : t = text := by simpa using h
      simp [put]
    · rename_i hne
      have hfile : (file == f) = false :=
        beq_eq_false_iff_ne.2 fun heq => hne (beq_iff_eq.2 heq.symm)
      rw [put, if_neg hne, ih (by simpa [hfile] using h)]

theorem get?_insert_self : (docs.insert file text).get? file = some text := lookup_put_self _

theorem get?_insert_of_ne (h : other ≠ file) :
    (docs.insert file text).get? other = docs.get? other :=
  lookup_put_of_ne h _

/-- Putting the text of a file back takes an insertion back, the order of the files included. -/
theorem insert_insert (h : docs.get? file = some text) :
    (docs.insert file new).insert file text = docs :=
  congrArg Documents.mk (put_put h)

/-- No text has 2⁶³ bytes or more, so that offsets and their differences are machine words. -/
def Bounded (docs : Documents) : Prop :=
  ∀ file text, docs.get? file = some text → Text.byteLength text < 2 ^ 63

theorem bounded_of_forall_mem
    (h : ∀ entry ∈ docs.texts, Text.byteLength entry.2 < 2 ^ 63) : docs.Bounded := by
  intro file text hget
  obtain ⟨before, after, htexts, -⟩ := List.lookup_eq_some_iff.1 hget
  exact h (file, text) (by simp [htexts])

theorem Bounded.le_maxOffset (h : docs.Bounded) (hget : docs.get? file = some text) :
    Text.byteLength text ≤ Span.maxOffset := by
  have := h file text hget
  rw [Span.maxOffset]
  omega

/-- A text just put in is bounded with the rest. -/
theorem Bounded.inserted {cs : Chars} (h : (docs.insert file (String.ofList cs)).Bounded) :
    cs.byteLength ≤ Span.maxOffset := by
  have hlength := h.le_maxOffset get?_insert_self
  rwa [Text.byteLength, String.toList_ofList] at hlength

end Documents

section

variable {H : Type} {file text : String} {docs : Documents} {es : List Edit} {new : Chars}
  (name : String)

theorem performText_of_revises {edits : List Edit} (hget : docs.get? file = some text)
    (h : Edit.Revises 0 text.toList es new) (hp : edits.Perm es) (hn : (es.map (·.span)).Nodup) :
    (performText name file edits docs : Performed H) =
      ⟨docs.insert file (String.ofList new), .text name file edits,
        .ok (some (.text name file (Edit.inverse text (Edit.join es)))), []⟩ := by
  simp only [performText, hget, h.normalize_eq hp hn, h.apply_join_eq]

/-- A text change leaves the documents alone, or puts a revision of the text into its file. -/
theorem performText_cases (file : String) (edits : List Edit) (docs : Documents) :
    (∃ e, (performText name file edits docs : Performed H) =
      ⟨docs, .text name file edits, .error e, []⟩) ∨
    ∃ text normal new, docs.get? file = some text ∧ Edit.Revises 0 text.toList normal new ∧
      (normal.Pairwise fun e f => e.span.stop < f.span.start) ∧
      (performText name file edits docs : Performed H) = ⟨docs.insert file (String.ofList new),
        .text name file edits, .ok (some (.text name file (Edit.inverse text normal))), []⟩ := by
  cases hget : docs.get? file with
  | none => exact .inl ⟨.unknownFile file, by simp only [performText, hget]⟩
  | some text =>
    cases hnormal : Edit.normalize text edits with
    | error e => exact .inl ⟨.edit e, by simp only [performText, hget, hnormal]⟩
    | ok normal =>
      obtain ⟨new, hnew, hapart⟩ := Edit.revises_of_normalize hnormal
      have happly : Edit.apply text normal = .ok (String.ofList new) :=
        hnew.apply_eq (List.Perm.refl _) (hnew.spans_nodup_of_apart hapart)
      refine .inr ⟨text, normal, new, rfl, hnew, hapart, ?_⟩
      simp only [performText, hget, hnormal, happly]

/-- The inverse edits take a revision back. Their undo again has inverse edits. -/
theorem performText_inverse (hget : docs.get? file = some text)
    (h : Edit.Revises 0 text.toList es new)
    (hapart : es.Pairwise fun e f => e.span.stop < f.span.start)
    (hmax : new.byteLength ≤ Span.maxOffset) :
    (performText name file (Edit.inverse text es) (docs.insert file (String.ofList new)) :
        Performed H) =
      ⟨docs, .text name file (Edit.inverse text es), .ok (some (.text name file
        (Edit.inverse (String.ofList new) (Edit.join (Edit.inverse text es))))), []⟩ := by
  have hback : Edit.Revises 0 (String.ofList new).toList (Edit.inverse text es) text.toList := by
    rw [String.toList_ofList]
    exact h.inverse hmax
  have hspans := hback.spans_nodup_of_apart (h.inverse_apart hapart hmax)
  rw [performText_of_revises name Documents.get?_insert_self hback (.refl _) hspans,
    String.ofList_toList, Documents.insert_insert hget]

end

section

variable {H : Type} [HostChange H]

/-- Performing the change works, gives an undo, and turns the documents into the others. -/
def Change.Turns (c : Change H) (docs edited : Documents) : Prop :=
  (c.perform docs).docs = edited ∧ ∃ undo, (c.perform docs).result = .ok (some undo)

/-- A text change that fails changes no document. One that works changes its own file only; its undo
works and brings back all documents, and the undo of the undo brings back the edited ones. -/
theorem Change.text_undo_redo (name file : String) (edits : List Edit) (docs : Documents) :
    (∀ error, ((Change.text name file edits : Change H).perform docs).result = .error error →
      ((Change.text name file edits : Change H).perform docs).docs = docs) ∧
    ∀ undo edited,
      ((Change.text name file edits : Change H).perform docs).result = .ok (some undo) →
      ((Change.text name file edits : Change H).perform docs).docs = edited →
      docs.Bounded → edited.Bounded →
      (∀ other, other ≠ file → edited.get? other = docs.get? other) ∧
      (undo.perform edited).docs = docs ∧
      ∃ redo, (undo.perform edited).result = .ok (some redo) ∧ redo.Turns docs edited := by
  rcases performText_cases (H := H) name file edits docs with
    ⟨e, heq⟩ | ⟨text, normal, new, hget, hnew, hapart, heq⟩
  · rw [Change.perform, heq]
    exact ⟨fun _ _ => rfl, fun undo edited hundo => by simp at hundo⟩
  · rw [Change.perform, heq]
    refine ⟨fun error herror => by simp at herror, ?_⟩
    rintro undo edited hundo rfl hdocs hedited
    obtain rfl := Option.some.inj (Except.ok.inj hundo)
    have hnewMax : new.byteLength ≤ Span.maxOffset := hedited.inserted
    have hback := performText_inverse (H := H) name hget hnew hapart hnewMax
    refine ⟨fun other hne => Documents.get?_insert_of_ne hne, ?_, ?_⟩
    · rw [Change.perform, hback]
    · refine ⟨_, by rw [Change.perform, hback], ?_⟩
      -- The undo is itself a revision, of the new text into the old one, and is undone like any
      -- other.
      have hinverse := (hnew.inverse hnewMax).join
      have hinverseApart := (hnew.inverse hnewMax).join_apart
      rw [← String.toList_ofList (l := new)] at hinverse
      have hedit : (docs.insert file (String.ofList new)).get? file = some (String.ofList new) :=
        Documents.get?_insert_self
      have hforth := performText_inverse (H := H) name hedit hinverse hinverseApart
        (hdocs.le_maxOffset hget)
      rw [String.ofList_toList, Documents.insert_insert hget] at hforth
      exact ⟨by rw [Change.perform, hforth], _, by rw [Change.perform, hforth]⟩

end

namespace Demo

def docs : Documents := ⟨[("Demo.java", "für abc def"), ("Other.java", "x")]⟩

def edited : Documents := ⟨[("Demo.java", "! abc x"), ("Other.java", "x")]⟩

/-- The edits of `edited`, out of order; two of them touch. -/
def edits : List Edit := [⟨⟨9, 12⟩, "x"⟩, .insert 4 "!", .delete ⟨0, 4⟩]

def edit : Change Empty := .text "edit" "Demo.java" edits

theorem bounded_docs : docs.Bounded := Documents.bounded_of_forall_mem (by decide)

theorem bounded_edited : edited.Bounded := Documents.bounded_of_forall_mem (by decide)

theorem perform_edit : edit.perform docs = ⟨edited, edit,
    .ok (some (.text "edit" "Demo.java" [⟨⟨0, 1⟩, "für"⟩, ⟨⟨6, 7⟩, "def"⟩])), []⟩ := by
  have hrevises : Edit.Revises 0 "für abc def".toList
      [.delete ⟨0, 4⟩, .insert 4 "!", ⟨⟨9, 12⟩, "x"⟩] "! abc x".toList :=
    .step [] "für".toList _ rfl rfl <| .step [] [] _ rfl rfl <|
      .step " abc ".toList "def".toList _ rfl rfl (.keep 12 [])
  rw [edit, Change.perform]
  exact performText_of_revises "edit" rfl hrevises (by decide) (by decide)

/-- The edits can be made, undone and made again. -/
theorem edits_undone : ∃ undo redo, (edit.perform docs).result = .ok (some undo) ∧
      (edit.perform docs).docs = edited ∧
      (undo.perform edited).docs = docs ∧ (undo.perform edited).result = .ok (some redo) ∧
      redo.Turns docs edited := by
  have hresult : (edit.perform docs).result =
      .ok (some (.text "edit" "Demo.java" [⟨⟨0, 1⟩, "für"⟩, ⟨⟨6, 7⟩, "def"⟩])) := by
    rw [perform_edit]
  have hdocs : (edit.perform docs).docs = edited := by rw [perform_edit]
  obtain ⟨-, hundo, redo, hredo, hturns⟩ := (Change.text_undo_redo "edit" "Demo.java" edits docs).2
    _ _ hresult hdocs bounded_docs bounded_edited
  exact ⟨_, redo, hresult, hdocs, hundo, hredo, hturns⟩

end Demo
end EnhancedFor
