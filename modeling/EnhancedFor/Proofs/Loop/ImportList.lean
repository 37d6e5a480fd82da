import Mathlib.Data.List.Perm.Basic
import EnhancedFor.Loop.Imports

/-!
The import list that a set of changes asks for. New names are placed among all lines, those that go
included. Main statement: where each name stands is the same as among the lines that stay exactly if
no line that stays comes between a removed one that follows the name and the next that does.
-/

namespace EnhancedFor

/-- The import of one type. -/
def Import.ofName (name : String) : Import := ⟨name, false, false⟩

/-- The import is not static and has a path greater than the name; a new import of the name stands
before the first such one. -/
def Import.follows (i : Import) (name : String) : Bool := !i.isStatic && decide (name < i.path)

/-- A line of the list that stays or goes. -/
abbrev MarkedImport := Import × Bool

namespace MarkedImport

def ofName (name : String) : MarkedImport := (.ofName name, true)

/-- Puts a new import before the first line that follows it, else at the end. -/
def insert (name : String) : List MarkedImport → List MarkedImport
  | [] => [ofName name]
  | line :: rest =>
    if line.1.follows name then ofName name :: line :: rest else line :: insert name rest

/-- The lines that stay. -/
def staying (lines : List MarkedImport) : List Import := (lines.filter (·.2)).map (·.1)

/-- The names before each line that follows them, the others at the end. -/
def interleave (names : List String) : List MarkedImport → List MarkedImport
  | [] => names.map ofName
  | line :: rest =>
    (names.filter line.1.follows).map ofName ++
      line :: interleave (names.filter (!line.1.follows ·)) rest

end MarkedImport

namespace ImportLine

/-- The lines with the answer whether they stay. -/
def marked (gone : ImportLine → Bool) (lines : List ImportLine) : List MarkedImport :=
  lines.map fun l => (l.line, !gone l)

end ImportLine

namespace ImportChanges

/-- New names in the order of their insertion. -/
def sortedNames (changes : ImportChanges) : List String :=
  changes.added.mergeSort fun a b => !decide (b < a)

/-- The list of imports after the changes: each new name, in sorted order, before the first line
that follows it and at the end if there is none, with the removed lines taken out. -/
def newImports (changes : ImportChanges) (lines : List ImportLine) : List Import :=
  MarkedImport.staying (changes.sortedNames.foldl (fun lines name => MarkedImport.insert name lines)
    (ImportLine.marked changes.removed.contains lines))

/-- The list with each new name placed among the lines that stay. -/
def placedImports (changes : ImportChanges) (lines : List ImportLine) : List Import :=
  newImports { changes with removed := [] } (lines.filter fun l => !changes.removed.contains l)

theorem sortedNames_pairwise (changes : ImportChanges) :
    changes.sortedNames.Pairwise fun a b => ¬ b < a := by
  have hsorted : changes.sortedNames.Pairwise fun a b => (!decide (b < a)) = true := by
    apply List.pairwise_mergeSort
    · intro a b c hab hbc
      rw [Bool.not_eq_true', decide_eq_false_iff_not, String.not_lt] at hab hbc ⊢
      exact String.le_trans hab hbc
    · intro a b
      rw [Bool.or_eq_true, Bool.not_eq_true', Bool.not_eq_true', decide_eq_false_iff_not,
        decide_eq_false_iff_not, String.not_lt, String.not_lt]
      exact String.le_total a b
  refine hsorted.imp fun h => ?_
  rwa [Bool.not_eq_true', decide_eq_false_iff_not] at h

end ImportChanges

namespace MarkedImport

variable {names pre : List String} {lines : List MarkedImport}

/-- A name passes those that it does not come before. -/
theorem insert_append {name : String} (h : ∀ p ∈ pre, ¬ name < p) :
    insert name (pre.map ofName ++ lines) = pre.map ofName ++ insert name lines := by
  induction pre with
  | nil => rfl
  | cons p pre ih =>
    have hp : (ofName p).1.follows name = false :=
      decide_eq_false (h p List.mem_cons_self)
    rw [List.map_cons, List.cons_append, insert, hp, ih fun q hq => h q (List.mem_cons_of_mem _ hq)]
    rfl

theorem foldl_insert_nil (hs : (pre ++ names).Pairwise fun a b => ¬ b < a) :
    names.foldl (fun lines name => insert name lines) (pre.map ofName) =
      (pre ++ names).map ofName := by
  induction names generalizing pre with
  | nil => simp
  | cons name names ih =>
    have hpre : ∀ p ∈ pre, ¬ name < p := fun p hp =>
      (List.pairwise_append.1 hs).2.2 p hp name List.mem_cons_self
    have hinsert : insert name (pre.map ofName ++ []) = pre.map ofName ++ insert name [] :=
      insert_append hpre
    have hnext : pre.map ofName ++ insert name [] = (pre ++ [name]).map ofName := by
      simp [insert]
    rw [List.append_nil, hnext] at hinsert
    rw [List.foldl_cons, hinsert, ih (by simpa using hs)]
    simp

theorem foldl_insert_cons {line : MarkedImport} {rest : List MarkedImport}
    (hs : (pre ++ names).Pairwise fun a b => ¬ b < a) :
    names.foldl (fun lines name => insert name lines) (pre.map ofName ++ line :: rest) =
      (pre ++ names.filter line.1.follows).map ofName ++
        line :: (names.filter (!line.1.follows ·)).foldl (fun lines name => insert name lines)
          rest := by
  induction names generalizing pre rest with
  | nil => simp
  | cons name names ih =>
    have hpre : ∀ p ∈ pre, ¬ name < p := fun p hp =>
      (List.pairwise_append.1 hs).2.2 p hp name List.mem_cons_self
    have hskip : (pre ++ names).Pairwise fun a b => ¬ b < a :=
      hs.sublist (List.Sublist.append_left (List.sublist_cons_self name names) pre)
    rw [List.foldl_cons, insert_append hpre, insert]
    cases hf : line.1.follows name with
    | true =>
      have hnext : pre.map ofName ++ ofName name :: line :: rest =
          (pre ++ [name]).map ofName ++ line :: rest := by simp
      rw [if_pos rfl, hnext, ih (by simpa using hs)]
      simp [hf]
    | false =>
      have hne : ¬ (false = true) := by simp
      rw [if_neg hne, ih hskip]
      simp [hf]

theorem mem_interleave {name : String} (h : name ∈ names) :
    ofName name ∈ interleave names lines := by
  induction lines generalizing names with
  | nil => exact List.mem_map_of_mem h
  | cons line rest ih =>
    cases hf : line.1.follows name with
    | true => exact List.mem_append_left _ (List.mem_map_of_mem (List.mem_filter.2 ⟨h, hf⟩))
    | false =>
      refine List.mem_append_right _ (List.mem_cons_of_mem _ (ih (List.mem_filter.2 ⟨h, ?_⟩)))
      rw [hf]
      rfl

theorem foldl_insert (hs : names.Pairwise fun a b => ¬ b < a) :
    names.foldl (fun lines name => insert name lines) lines = interleave names lines := by
  induction lines generalizing names with
  | nil => exact @foldl_insert_nil names [] hs
  | cons line rest ih =>
    rw [interleave, ← ih (hs.filter _)]
    exact @foldl_insert_cons names [] line rest hs

theorem interleave_nil (lines : List MarkedImport) : interleave [] lines = lines := by
  induction lines with
  | nil => rfl
  | cons line rest ih => exact congrArg (line :: ·) ih

theorem sublist_interleave : lines.Sublist (interleave names lines) := by
  induction lines generalizing names with
  | nil => exact List.nil_sublist _
  | cons line rest ih => exact (ih.cons_cons line).trans (List.sublist_append_right _ _)

theorem interleave_perm : (interleave names lines).Perm (lines ++ names.map ofName) := by
  induction lines generalizing names with
  | nil => exact .refl _
  | cons line rest ih =>
    let before := names.filter line.1.follows
    let after := names.filter (!line.1.follows ·)
    have hnames : (before ++ after).Perm names := List.filter_append_perm _ names
    calc List.Perm (before.map ofName ++ line :: interleave after rest)
          (line :: (before.map ofName ++ interleave after rest)) := List.perm_middle
      List.Perm _ (line :: (before.map ofName ++ (rest ++ after.map ofName))) :=
        (ih.append_left _).cons line
      List.Perm _ (line :: (rest ++ (before.map ofName ++ after.map ofName))) :=
        (List.perm_append_comm_assoc _ _ _).cons line
      List.Perm _ (line :: (rest ++ names.map ofName)) := by
        rw [← List.map_append]
        exact ((hnames.map _).append_left rest).cons line

theorem staying_append (a b : List MarkedImport) :
    staying (a ++ b) = staying a ++ staying b := by
  simp [staying]

theorem staying_map_ofName (names : List String) :
    staying (names.map ofName) = names.map .ofName := by
  induction names with
  | nil => rfl
  | cons name names ih => exact congrArg (_ :: ·) ih

/-- The place of a name is the same without the lines that go: from the first line that follows the
name on, the first that stays follows it as well. -/
def KeepsPlace (lines : List MarkedImport) (name : String) : Prop :=
  ∀ l ∈ (lines.dropWhile fun l => !l.1.follows name).find? (·.2), l.1.follows name = true

instance (lines : List MarkedImport) (name : String) : Decidable (KeepsPlace lines name) :=
  inferInstanceAs (Decidable (∀ l ∈ _, _))

/-- Names in order split where a line follows them no more. -/
theorem filter_follows_append (hs : names.Pairwise fun a b => ¬ b < a) (i : Import) :
    names.filter i.follows ++ names.filter (!i.follows ·) = names := by
  induction names with
  | nil => rfl
  | cons name names ih =>
    obtain ⟨hname, hs⟩ := List.pairwise_cons.1 hs
    cases hf : i.follows name with
    | true => simp [hf, ih hs]
    | false =>
      have hnone : ∀ other ∈ names, i.follows other = false := by
        intro other hother
        rw [Import.follows, Bool.and_eq_false_iff] at hf ⊢
        refine hf.imp_right fun hlt => decide_eq_false ?_
        have hpath : i.path ≤ name := String.not_lt.1 (of_decide_eq_false hlt)
        have hle : name ≤ other := String.not_lt.1 (hname other hother)
        exact String.not_lt.2 (String.le_trans hpath hle)
      have hfilter : names.filter i.follows = [] :=
        List.filter_eq_nil_iff.2 fun other hother => by simp [hnone other hother]
      have hall : names.filter (!i.follows ·) = names :=
        List.filter_eq_self.2 fun other hother => by simp [hnone other hother]
      simp [hf, hfilter, hall]

theorem keepsPlace_cons_of_follows {line : MarkedImport} {rest : List MarkedImport} {name : String}
    (hf : line.1.follows name = true) : KeepsPlace (line :: rest) name ↔
      line.2 = true ∨ ∀ l ∈ rest.find? (·.2), l.1.follows name = true := by
  rw [KeepsPlace, List.dropWhile_cons_of_neg (by simp [hf])]
  cases hstays : line.2 with
  | true => simp [hstays, hf]
  | false => simp [hstays]

theorem keepsPlace_cons_of_not_follows {line : MarkedImport} {rest : List MarkedImport}
    {name : String} (hf : line.1.follows name = false) :
    KeepsPlace (line :: rest) name ↔ KeepsPlace rest name := by
  rw [KeepsPlace, List.dropWhile_cons_of_pos (by simp [hf])]
  rfl

/-- Names that the first line follows stand before it, those that come after them do not matter. -/
theorem interleave_append {pre : List String}
    (h : ∀ l ∈ lines.head?, ∀ p ∈ pre, l.1.follows p = true) :
    interleave (pre ++ names) lines = pre.map ofName ++ interleave names lines := by
  cases lines with
  | nil => simp [interleave]
  | cons line rest =>
    have hall : pre.filter line.1.follows = pre := List.filter_eq_self.2 (h line rfl)
    have hnone : pre.filter (!line.1.follows ·) = [] :=
      List.filter_eq_nil_iff.2 fun p hp => by simp [h line rfl p hp]
    simp [interleave, hall, hnone]

/-- A line before which some of the names do not belong tells where the others are. -/
theorem follows_of_eq {pre : List String} {line : MarkedImport} {rest : List MarkedImport}
    {tail : List Import} (hstays : line.2 = true) (hnew : ∀ p ∈ pre, line.1 ≠ .ofName p)
    (h : pre.map .ofName ++ tail = staying (interleave names (line :: rest))) :
    ∀ p ∈ pre, line.1.follows p = true := by
  have hstaying : staying (interleave names (line :: rest)) =
      (names.filter line.1.follows).map .ofName ++
        line.1 :: staying (interleave (names.filter (!line.1.follows ·)) rest) := by
    rw [interleave, staying_append, staying_map_ofName]
    simp [staying, hstays]
  rw [hstaying] at h
  intro p hp
  have hmem : Import.ofName p ∈ (names.filter line.1.follows).map .ofName := by
    rcases List.append_eq_append_iff.1 h with ⟨others, hothers, -⟩ | ⟨others, hpre, hrest⟩
    · exact hothers ▸ List.mem_append_left _ (List.mem_map_of_mem hp)
    · cases others with
      | nil => exact (List.append_nil _ ▸ hpre) ▸ List.mem_map_of_mem hp
      | cons i others =>
        obtain rfl : line.1 = i := (List.cons.inj hrest).1
        have hline : line.1 ∈ pre.map .ofName :=
          hpre ▸ List.mem_append_right _ List.mem_cons_self
        obtain ⟨q, hq, heq⟩ := List.mem_map.1 hline
        exact (hnew q hq heq.symm).elim
  obtain ⟨q, hq, heq⟩ := List.mem_map.1 hmem
  obtain rfl : q = p := congrArg Import.path heq
  exact (List.mem_filter.1 hq).2

/-- Taking lines out before or after the new names come in makes no difference exactly if each new
name keeps its place. -/
theorem staying_interleave_iff (hs : names.Pairwise fun a b => ¬ b < a)
    (hnew : ∀ name ∈ names, ∀ l ∈ lines, l.1 ≠ .ofName name) :
    staying (interleave names lines) = staying (interleave names (lines.filter (·.2))) ↔
      ∀ name ∈ names, KeepsPlace lines name := by
  induction lines generalizing names with
  | nil => simp [KeepsPlace]
  | cons line rest ih =>
    let before := names.filter line.1.follows
    let after := names.filter (!line.1.follows ·)
    have hafter : after.Pairwise fun a b => ¬ b < a := hs.filter _
    have hih := ih hafter fun name hname l hl =>
      hnew name (List.mem_filter.1 hname).1 l (List.mem_cons_of_mem _ hl)
    have hnames : (∀ name ∈ names, KeepsPlace (line :: rest) name) ↔
        (∀ name ∈ before, line.2 = true ∨ ∀ l ∈ rest.find? (·.2), l.1.follows name = true) ∧
          ∀ name ∈ after, KeepsPlace rest name := by
      constructor
      · intro h
        refine ⟨fun name hname => ?_, fun name hname => ?_⟩
        · obtain ⟨hmem, hf⟩ := List.mem_filter.1 hname
          exact (keepsPlace_cons_of_follows hf).1 (h name hmem)
        · obtain ⟨hmem, hf⟩ := List.mem_filter.1 hname
          exact (keepsPlace_cons_of_not_follows (by simpa using hf)).1 (h name hmem)
      · rintro ⟨hbefore, hafter⟩ name hmem
        cases hf : line.1.follows name with
        | true =>
          exact (keepsPlace_cons_of_follows hf).2 (hbefore name (List.mem_filter.2 ⟨hmem, hf⟩))
        | false =>
          exact (keepsPlace_cons_of_not_follows hf).2
            (hafter name (List.mem_filter.2 ⟨hmem, by simp [hf]⟩))
    have hleft : staying (interleave names (line :: rest)) =
        before.map .ofName ++ (staying [line] ++ staying (interleave after rest)) := by
      rw [interleave, staying_append, staying_map_ofName]
      exact congrArg _ (staying_append [line] _)
    rw [hnames, hleft, ← hih]
    cases hstays : line.2 with
    | true =>
      have hright : staying (interleave names ((line :: rest).filter (·.2))) = before.map .ofName ++
          (staying [line] ++ staying (interleave after (rest.filter (·.2)))) := by
        rw [List.filter_cons_of_pos hstays, interleave, staying_append, staying_map_ofName]
        exact congrArg _ (staying_append [line] _)
      rw [hright, List.append_cancel_left_eq, List.append_cancel_left_eq]
      simp
    | false =>
      have hnone : staying [line] = [] := by simp [staying, hstays]
      rw [List.filter_cons_of_neg (by simp [hstays]), hnone, List.nil_append]
      have hsplit : before ++ after = names := filter_follows_append hs line.1
      have hhead : (rest.filter (·.2)).head? = rest.find? (·.2) := List.head?_filter ..
      -- The names before the line that goes stay together exactly if the next that stays follows
      -- them.
      have hright (hf : ∀ l ∈ rest.find? (·.2), ∀ name ∈ before, l.1.follows name = true) :
          staying (interleave names (rest.filter (·.2))) =
            before.map .ofName ++ staying (interleave after (rest.filter (·.2))) := by
        rw [← hsplit, interleave_append (hhead ▸ hf), staying_append, staying_map_ofName]
      simp only [Bool.false_eq_true, false_or]
      constructor
      · intro h
        have hf : ∀ l ∈ rest.find? (·.2), ∀ name ∈ before, l.1.follows name = true := by
          intro l hl
          obtain ⟨others, hothers⟩ := List.head?_eq_some_iff.1 (hhead.trans hl)
          rw [hothers] at h
          refine follows_of_eq (List.find?_some hl) (fun p hp => ?_) h
          exact hnew p (List.mem_filter.1 hp).1 l
            (List.mem_cons_of_mem _ (List.mem_of_find?_eq_some hl))
        rw [hright hf, List.append_cancel_left_eq] at h
        exact ⟨fun name hname l hl => hf l hl name hname, h⟩
      · rintro ⟨hf, h⟩
        rw [hright fun l hl name hname => hf name hname l hl, h]

end MarkedImport

namespace ImportChanges

variable (changes : ImportChanges) (lines : List ImportLine)

theorem newImports_eq : changes.newImports lines = MarkedImport.staying
    (MarkedImport.interleave changes.sortedNames
      (ImportLine.marked changes.removed.contains lines)) := by
  rw [← MarkedImport.foldl_insert changes.sortedNames_pairwise]
  rfl

/-- The imports that are not removed. -/
def survivors : List Import := (lines.filter fun l => !changes.removed.contains l).map (·.line)

theorem staying_marked :
    MarkedImport.staying (ImportLine.marked changes.removed.contains lines) =
      changes.survivors lines := by
  rw [MarkedImport.staying, ImportLine.marked, List.filter_map, List.map_map]
  rfl

theorem survivors_sublist_newImports :
    (changes.survivors lines).Sublist (changes.newImports lines) := by
  rw [newImports_eq, ← staying_marked]
  exact (MarkedImport.sublist_interleave.filter _).map _

theorem newImports_perm :
    (changes.newImports lines).Perm (changes.survivors lines ++ changes.added.map .ofName) := by
  have hlines := ((@MarkedImport.interleave_perm changes.sortedNames
    (ImportLine.marked changes.removed.contains lines)).filter (·.2)).map (·.1)
  have hnames : changes.sortedNames.Perm changes.added := List.mergeSort_perm _ _
  rw [newImports_eq, ← staying_marked]
  refine hlines.trans ?_
  show (MarkedImport.staying _).Perm _
  rw [MarkedImport.staying_append, MarkedImport.staying_map_ofName]
  exact (hnames.map _).append_left _

variable {changes lines}

theorem sortedNames_eq_nil : changes.sortedNames = [] ↔ changes.added.isEmpty = true := by
  rw [List.isEmpty_iff, ← List.length_eq_zero_iff, sortedNames, List.length_mergeSort,
    List.length_eq_zero_iff]

theorem newImports_ne_nil (h : changes.sortedNames ≠ []) (lines : List ImportLine) :
    changes.newImports lines ≠ [] := by
  obtain ⟨name, hname⟩ := List.exists_mem_of_ne_nil _ h
  rw [newImports_eq]
  exact List.ne_nil_of_mem (List.mem_map_of_mem
    (List.mem_filter.2 ⟨MarkedImport.mem_interleave hname, rfl⟩))

/-- After the changes the list has the lines that stay and the added names. -/
theorem mem_newImports {i : Import} : i ∈ changes.newImports lines ↔
    (∃ l ∈ lines, l ∉ changes.removed ∧ l.line = i) ∨ ∃ name ∈ changes.added, i = .ofName name := by
  rw [(changes.newImports_perm lines).mem_iff, List.mem_append, survivors]
  simp [and_assoc, @eq_comm _ i]

/-- The lists agree exactly if each new name keeps its place when lines go. -/
theorem newImports_eq_placedImports_iff
    (hnew : ∀ name ∈ changes.added, ∀ l ∈ lines, l.line ≠ .ofName name) :
    changes.newImports lines = changes.placedImports lines ↔ ∀ name ∈ changes.added,
      MarkedImport.KeepsPlace (ImportLine.marked changes.removed.contains lines) name := by
  have hsorted {name : String} : name ∈ changes.sortedNames ↔ name ∈ changes.added :=
    (List.mergeSort_perm _ _).mem_iff
  have hkept : ImportLine.marked (fun _ => false)
      (lines.filter fun l => !changes.removed.contains l) =
        (ImportLine.marked changes.removed.contains lines).filter (·.2) := by
    rw [ImportLine.marked, ImportLine.marked, List.filter_map]
    refine List.map_congr_left fun l hl => ?_
    exact congrArg (l.line, ·) (List.mem_filter.1 hl).2.symm
  have hplaced : changes.placedImports lines = MarkedImport.staying (MarkedImport.interleave
      changes.sortedNames ((ImportLine.marked changes.removed.contains lines).filter (·.2))) := by
    rw [placedImports, newImports_eq, ← hkept]
    rfl
  rw [newImports_eq, hplaced, MarkedImport.staying_interleave_iff changes.sortedNames_pairwise]
  · exact forall_congr' fun name => imp_congr_left hsorted
  · intro name hname m hm
    obtain ⟨l, hl, rfl⟩ := List.mem_map.1 hm
    exact hnew name (hsorted.1 hname) l hl

end ImportChanges
end EnhancedFor
