import EnhancedFor.Proofs.Except
import EnhancedFor.Proofs.Loop.ImportLines
import EnhancedFor.Proofs.Syntax.Layout

/-!
The import block in the text of a unit, and the edits that make a new one. Main statement: the edits
turn the head of a printed unit into the head with the new list, empty lines included.
-/

namespace EnhancedFor

open Edit (Revises InsertsApart)

namespace CompilationUnit

open ImportLine MarkedImport ImportChanges

variable {unit : CompilationUnit} {stop : Nat} {lines : List ImportLine} {names : List String}

theorem starts_gatherInserts (inserts : List (Nat × String)) :
    ((gatherInserts inserts).map (·.span.start)).Nodup := by
  have hstarts : (gatherInserts inserts).map (·.span.start) =
      (inserts.map (·.1)).eraseDups.mergeSort := by
    rw [gatherInserts, List.map_map]
    exact List.map_id _
  rw [hstarts]
  exact (List.mergeSort_perm _ _).nodup_iff.2 (nodup_eraseDups _)

theorem mem_gatherInserts {e : Edit} :
    e ∈ gatherInserts (names.map fun name => (slot stop lines name, importText name)) ↔
      ∃ name ∈ names, e = Edit.insert (slot stop lines name)
        (String.join ((group stop lines names (slot stop lines name)).map importText)) := by
  have hgroup (offset : Nat) :
      ((names.map fun name => (slot stop lines name, importText name)).filter
        (·.1 == offset)).map (·.2) = (group stop lines names offset).map importText := by
    rw [List.filter_map, List.map_map]
    rfl
  simp only [gatherInserts, List.mem_map, List.mem_mergeSort, List.mem_eraseDups, hgroup]
  constructor
  · rintro ⟨offset, ⟨_, ⟨name, hname, rfl⟩, rfl⟩, rfl⟩
    exact ⟨name, hname, rfl⟩
  · rintro ⟨name, hname, rfl⟩
    exact ⟨_, ⟨_, ⟨name, hname, rfl⟩, rfl⟩, rfl⟩

/-- The gathered insertions are those of the lines. -/
theorem gatherInserts_perm (hn : (lines.map (·.span.start) ++ [stop]).Nodup) :
    (gatherInserts (names.map fun name => (slot stop lines name, importText name))).Perm
      (blockEdits (fun _ => false) stop names lines) := by
  refine (List.perm_ext_iff_of_nodup ?_ ?_).2 fun e => ?_
  · exact List.Nodup.of_map _ (starts_gatherInserts _)
  · exact List.Nodup.of_map _ (starts_blockEdits.nodup hn)
  · rw [mem_gatherInserts, mem_blockEdits hn]

theorem textFrom_eq {before after : Chars} (h : unit.text.toList = before ++ after) :
    unit.textFrom before.byteLength = .ok after := by
  rw [textFrom, h, Chars.splitAt?_append]

/-- Each line ends with a line break. -/
theorem lineEnd_eq {before after : Chars} {l : ImportLine} (hl : l ∈ lines)
    (htext : unit.text.toList = before ++ (importsChars (lines.map (·.line)) ++ after))
    (h : Stand before.byteLength lines) :
    unit.lineEnd l.span = .ok (l.span.stop + 1) ∧
      ∃ rest, unit.textFrom (l.span.stop + 1) = .ok rest := by
  induction lines generalizing before with
  | nil => simp at hl
  | cons k rest ih =>
    have hcons : importsChars ((k :: rest).map (·.line)) =
        (k.line.chars ++ ['\n']) ++ importsChars (rest.map (·.line)) := rfl
    rw [hcons, List.append_assoc] at htext
    rcases List.mem_cons.1 hl with rfl | hl
    · have hafter := textFrom_eq ((List.append_assoc ..).symm ▸ htext)
      have hinside : unit.text.toList = (before ++ l.line.chars) ++
          ('\n' :: (importsChars (rest.map (·.line)) ++ after)) := by
        simpa [List.append_assoc] using htext
      have hbreak := textFrom_eq hinside
      rw [Chars.byteLength_append, byteLength_line, ← Nat.add_assoc] at hafter
      rw [Chars.byteLength_append] at hbreak
      rw [h.head]
      refine ⟨?_, _, hafter⟩
      rw [lineEnd, hbreak]
      rfl
    · refine ih hl ((List.append_assoc ..).symm ▸ htext) ?_
      rw [Chars.byteLength_append]
      exact h.tail

theorem lineDeletion_eq {l : ImportLine} {last : Bool} {rest : Chars}
    (hend : unit.lineEnd l.span = .ok (l.span.stop + 1))
    (hrest : unit.textFrom (l.span.stop + 1) = .ok rest) (hle : l.span.start ≤ l.span.stop) :
    unit.lineDeletion last l =
      .ok (if last && rest.head? == some '\n' then
        Edit.delete ⟨l.span.start, l.span.stop + 2⟩ else l.deletion) := by
  have hordered (stop : Nat) (h : l.span.stop ≤ stop) :
      Span.ordered l.span.start stop = .ok ⟨l.span.start, stop⟩ := if_pos (Nat.le_trans hle h)
  simp only [lineDeletion, hend, hrest, bind, Except.bind]
  cases last && rest.head? == some '\n' with
  | true =>
    simp only [if_true, hordered _ (Nat.le_add_right _ 2)]
    rfl
  | false =>
    simp only [Bool.false_eq_true, if_false, hordered _ (Nat.le_add_right _ 1)]
    rfl

theorem chars_importShape (imp : Import) : (importShape imp).chars = imp.chars := by
  obtain ⟨path, isStatic, isOnDemand⟩ := imp
  cases isStatic <;> cases isOnDemand <;> rfl

theorem chars_importLayout (i : Nat) (imp : Import) :
    (importLayout i imp).chars = imp.chars ++ ['\n'] :=
  congrArg (· ++ ['\n']) (chars_importShape imp)

theorem chars_importLayouts (imports : List Import) (k : Nat) :
    (Layout.concat ((imports.zipIdx k).map fun x => importLayout x.2 x.1)).chars =
      importsChars imports := by
  induction imports generalizing k with
  | nil => rfl
  | cons imp imports ih =>
    exact congrArg₂ (· ++ ·) (chars_importLayout k imp) (ih (k + 1))

/-- The empty line after imports. -/
def blankLine (imports : List Import) : Chars := if imports.isEmpty then [] else ['\n']

theorem chars_headerLayout : unit.headerLayout.chars =
    (packageLayout unit.package).chars ++ importsChars unit.imports ++ blankLine unit.imports := by
  have hblank : (Layout.text (if unit.imports.isEmpty then "" else "\n")).chars =
      blankLine unit.imports := by
    unfold blankLine
    cases unit.imports.isEmpty <;> rfl
  rw [← chars_importLayouts unit.imports 0, ← hblank]
  rfl

/-- In a printed text the import lines stand one after the other. -/
theorem Shows.stand {before : Chars} {imports : List Import} {k : Nat}
    (h : unit.Shows before
      (Layout.concat ((imports.zipIdx k).map fun x => importLayout x.2 x.1))) :
    Stand before.byteLength
      ((imports.zipIdx k).map fun x => ⟨x.1, unit.spans (.importLine x.2)⟩) := by
  induction imports generalizing before k with
  | nil => trivial
  | cons imp imports ih =>
    have hline : unit.Shows before (importLayout k imp) := h.left
    have hspan := hline.left.span rfl
    rw [chars_importShape] at hspan
    have hrest := ih (k := k + 1) h.right
    rw [chars_importLayout, Chars.byteLength_append, byteLength_line, ← Nat.add_assoc] at hrest
    exact ⟨hspan, hrest⟩

theorem map_line_importLines (unit : CompilationUnit) :
    unit.importLines.map (·.line) = unit.imports := by
  rw [importLines, List.map_map]
  exact List.zipIdx_map_fst 0 unit.imports

theorem insertionOffset_eq {before after : Chars}
    (htext : unit.text.toList = before ++ (importsChars unit.imports ++ after))
    (h : Stand before.byteLength unit.importLines) (hne : unit.imports ≠ []) (name : String) :
    unit.insertionOffset name = .ok (slot (before ++ importsChars unit.imports).byteLength
      unit.importLines name) := by
  have hlines := unit.map_line_importLines
  have hfind : unit.importLines.find? (fun i => !i.line.isStatic && decide (name < i.line.path)) =
      unit.importLines.find? (·.line.follows name) := rfl
  rw [insertionOffset, slot, hfind]
  cases unit.importLines.find? (·.line.follows name) with
  | some l => rfl
  | none =>
    cases hlast : unit.importLines.getLast? with
    | none =>
      rw [List.getLast?_eq_none_iff.1 hlast] at hlines
      exact (hne hlines.symm).elim
    | some l =>
      have hmem := List.mem_of_getLast? hlast
      have hend := (lineEnd_eq hmem (by rwa [hlines]) h).1
      rw [h.getLast hlast, hlines, ← Chars.byteLength_append] at hend
      exact hend

section

variable {before after : Chars} {changes : ImportChanges}
  (htext : unit.text.toList = before ++ (importsChars unit.imports ++ after))
  (hstand : Stand before.byteLength unit.importLines)

include htext hstand

/-- As long as an import stays or comes, lines are taken out one by one. -/
theorem removedImportEdits_eq
    (hleft : (unit.importLines.all changes.removed.contains && changes.added.isEmpty) = false) :
    unit.removedImportEdits changes =
      .ok ((unit.importLines.filter changes.removed.contains).map deletion) := by
  have hone : ∀ x ∈ unit.importLines.zipIdx.filter (fun x => changes.removed.contains x.1),
      unit.lineDeletion ((unit.importLines.all changes.removed.contains && changes.added.isEmpty) &&
        x.2 + 1 == unit.importLines.length) x.1 = .ok x.1.deletion := by
    intro x hx
    have hmem : x.1 ∈ unit.importLines :=
      (List.mem_zipIdx' (List.mem_of_mem_filter hx)).2 ▸ List.getElem_mem _
    obtain ⟨hend, rest, hrest⟩ :=
      lineEnd_eq hmem (by rwa [map_line_importLines]) hstand
    rw [hleft, lineDeletion_eq hend hrest (hstand.start_le hmem)]
    rfl
  have hlines : (unit.importLines.zipIdx.filter (fun x => changes.removed.contains x.1)).map
      (fun x => x.1.deletion) = (unit.importLines.filter changes.removed.contains).map
        deletion := by
    conv_rhs => rw [← List.zipIdx_map_fst 0 unit.importLines, List.filter_map, List.map_map]
    rfl
  rw [← hlines]
  exact mapM_ok hone

/-- When nothing stays and nothing comes, the last line goes with the empty line after it. -/
theorem removedImportEdits_all {rest : Chars} (hafter : after = '\n' :: rest)
    (hgone : unit.importLines.all changes.removed.contains = true)
    (hadded : changes.added.isEmpty = true) :
    unit.removedImportEdits changes =
      .ok (unit.importLines.zipIdx.map (clearing unit.importLines.length)) := by
  have hone : ∀ x ∈ unit.importLines.zipIdx,
      unit.lineDeletion ((unit.importLines.all changes.removed.contains && changes.added.isEmpty) &&
        x.2 + 1 == unit.importLines.length) x.1 = .ok (clearing unit.importLines.length x) := by
    intro x hx
    obtain ⟨hlt, hget⟩ := List.mem_zipIdx' hx
    have hmem : x.1 ∈ unit.importLines := hget ▸ List.getElem_mem _
    obtain ⟨hend, blank, hblank⟩ :=
      lineEnd_eq hmem (by rwa [map_line_importLines]) hstand
    rw [lineDeletion_eq hend hblank (hstand.start_le hmem), clearing, hgone, hadded]
    cases hlast : x.2 + 1 == unit.importLines.length with
    | false => rfl
    | true =>
      have hgetLast : unit.importLines.getLast? = some x.1 := by
        rw [List.getLast?_eq_getElem?, ← beq_iff_eq.1 hlast, Nat.add_sub_cancel,
          List.getElem?_eq_getElem hlt, hget]
      have hstop := hstand.getLast hgetLast
      rw [map_line_importLines, ← Chars.byteLength_append] at hstop
      rw [hstop, textFrom_eq ((List.append_assoc ..).symm ▸ htext), Except.ok.injEq] at hblank
      rw [← hblank, hafter]
      rfl
  have hall : unit.importLines.zipIdx.filter (fun x => changes.removed.contains x.1) =
      unit.importLines.zipIdx := by
    refine List.filter_eq_self.2 fun x hx => List.all_eq_true.1 hgone x.1 ?_
    exact (List.mem_zipIdx' hx).2 ▸ List.getElem_mem _
  have hmap := mapM_ok hone
  rw [← hall] at hmap ⊢
  exact hmap

end

theorem insertsApart_gatherInserts (inserts : List (Nat × String)) :
    InsertsApart (gatherInserts inserts) :=
  (List.filter_sublist.map _).nodup (starts_gatherInserts inserts)

theorem importEdits_eq_removed {changes : ImportChanges} (h : changes.added.isEmpty = true) :
    unit.importEdits changes = unit.removedImportEdits changes := by
  have hnil : changes.sortedNames.isEmpty = true := List.isEmpty_iff.2 (sortedNames_eq_nil.2 h)
  rw [importEdits]
  cases unit.removedImportEdits changes with
  | error e => rfl
  | ok edits => exact if_pos hnil

theorem importEdits_eq_added {changes : ImportChanges} {removed : List Edit}
    (hremoved : unit.removedImportEdits changes = .ok removed)
    (hsome : changes.sortedNames.isEmpty = false) :
    unit.importEdits changes = if unit.imports.isEmpty then
      (unit.newBlockEdit changes.sortedNames).map fun e => removed ++ [e]
    else (changes.sortedNames.mapM fun name =>
      return (← unit.insertionOffset name, importText name)).map (removed ++ gatherInserts ·) := by
  have hne : ¬ changes.sortedNames.isEmpty = true := by simp [hsome]
  rw [importEdits, hremoved]
  refine (if_neg hne).trans ?_
  split
  · change (unit.newBlockEdit changes.sortedNames).bind _ = _
    cases unit.newBlockEdit changes.sortedNames <;> rfl
  · change (changes.sortedNames.mapM fun name =>
      return (← unit.insertionOffset name, importText name)).bind _ = _
    cases changes.sortedNames.mapM fun name =>
      return (← unit.insertionOffset name, importText name) <;> rfl

theorem blankLine_of_ne_nil {imports : List Import} (h : imports ≠ []) :
    blankLine imports = ['\n'] := by
  cases imports with
  | nil => exact (h rfl).elim
  | cons i imports => rfl

/-- Edits that turn the import block after `before` into that of the new list. -/
def Remakes (unit : CompilationUnit) (before : Chars) (imports : List Import) (edits : List Edit) :
    Prop :=
  InsertsApart edits ∧ ∃ es, edits.Perm es ∧
    Revises before.byteLength (importsChars unit.imports ++ blankLine unit.imports) es
      (importsChars imports ++ blankLine imports)

/-- The edits of the lines make the new list, where neither list is empty. -/
theorem remakes_blockEdits {before : Chars} {changes : ImportChanges} {edits : List Edit}
    (hstand : Stand before.byteLength unit.importLines) (hold : unit.imports ≠ [])
    (hnew : changes.newImports unit.importLines ≠ [])
    (hperm : edits.Perm (blockEdits changes.removed.contains
      (before ++ importsChars unit.imports).byteLength changes.sortedNames unit.importLines))
    (hapart : InsertsApart edits) :
    unit.Remakes before (changes.newImports unit.importLines) edits := by
  have hlines := unit.map_line_importLines
  have hblock : Revises before.byteLength _ (blockEdits changes.removed.contains
      (before ++ importsChars unit.imports).byteLength changes.sortedNames unit.importLines) _ :=
    blockEdits_revises hstand (by rw [hlines, Chars.byteLength_append])
  rw [hlines, ← newImports_eq] at hblock
  refine ⟨hapart, _, hperm, ?_⟩
  rw [blankLine_of_ne_nil hold, blankLine_of_ne_nil hnew]
  exact hblock.append_text ['\n']

/-- The place of a first block of imports: the end of the package line and of the empty line after
it, else the start of the text. -/
theorem newBlockEdit_eq (hs : unit.Shows [] (packageLayout unit.package)) (names : List String) :
    unit.newBlockEdit names = .ok (Edit.insert (packageLayout unit.package).chars.byteLength
      (String.join (names.map importText) ++ "\n")) := by
  rw [newBlockEdit]
  cases hp : unit.package with
  | none => rfl
  | some name =>
    obtain ⟨line, hline⟩ : ∃ line, packageLayout (some name) =
        .mark .package line ++ .text "\n\n" := ⟨_, rfl⟩
    rw [hp, hline] at hs
    obtain ⟨after, htext⟩ := hs.text
    have hinside : unit.text.toList = line.chars ++ ("\n\n".toList ++ after) := by
      rw [htext, List.nil_append, Layout.chars_append, List.append_assoc]
      rfl
    have hstop : (unit.spans .package).stop = line.chars.byteLength := by
      rw [hs.left.span rfl, Chars.byteLength_nil, Nat.zero_add]
    have hblank : "\n\n".toList.isPrefixOf ("\n\n".toList ++ after) = true :=
      List.isPrefixOf_iff_prefix.2 (List.prefix_append _ _)
    have hend : (packageLayout (some name)).chars.byteLength = line.chars.byteLength + 2 := by
      rw [hline, Layout.chars_append, Chars.byteLength_append]
      rfl
    dsimp only
    rw [hstop, textFrom_eq hinside, hend]
    simp only [bind, Except.bind, hblank, if_true]
    rfl

/-- A first block of imports. -/
theorem importEdits_of_first {changes : ImportChanges}
    (hs : unit.Shows [] (packageLayout unit.package)) (hold : unit.imports = [])
    (hnames : changes.sortedNames ≠ []) :
    ∃ edits, unit.importEdits changes = .ok edits ∧
      unit.Remakes (packageLayout unit.package).chars (changes.newImports unit.importLines)
        edits := by
  have hlines : unit.importLines = [] := by rw [importLines, hold]; rfl
  have hremoved : unit.removedImportEdits changes = .ok [] := by
    rw [removedImportEdits, hlines]
    rfl
  have hnew : changes.newImports unit.importLines = changes.sortedNames.map .ofName := by
    rw [newImports_eq, hlines]
    exact staying_map_ofName _
  have hblank : blankLine (changes.sortedNames.map .ofName) = ['\n'] :=
    blankLine_of_ne_nil (by simpa using hnames)
  rw [importEdits_eq_added hremoved (by simpa using hnames), hold, newBlockEdit_eq hs, hnew]
  refine ⟨_, rfl, by simp [InsertsApart, Edit.insert], _, .refl _, ?_⟩
  have hswap := Revises.swap (packageLayout unit.package).chars.byteLength []
    (String.join (changes.sortedNames.map importText) ++ "\n")
  rw [String.toList_append, toList_join_importText] at hswap
  rw [hold, hblank]
  exact hswap

section

variable {before after : Chars} {changes : ImportChanges}
  (htext : unit.text.toList =
    before ++ (importsChars unit.imports ++ (blankLine unit.imports ++ after)))
  (hstand : Stand before.byteLength unit.importLines)

include htext hstand

/-- All lines go, and nothing comes. -/
theorem importEdits_of_cleared (hgone : unit.importLines.all changes.removed.contains = true)
    (hadded : changes.added.isEmpty = true) :
    ∃ edits, unit.importEdits changes = .ok edits ∧
      unit.Remakes before (changes.newImports unit.importLines) edits := by
  have hnew : changes.newImports unit.importLines = [] := by
    have hstays : ∀ l ∈ marked changes.removed.contains unit.importLines, l.2 = false := by
      intro l hl
      obtain ⟨k, hk, rfl⟩ := List.mem_map.1 hl
      have := List.all_eq_true.1 hgone k hk
      simpa using this
    rw [newImports_eq, sortedNames_eq_nil.2 hadded, interleave_nil, MarkedImport.staying,
      List.filter_eq_nil_iff.2 fun l hl => by simp [hstays l hl]]
    rfl
  rw [importEdits_eq_removed hadded, hnew]
  by_cases hne : unit.imports = []
  · have hlines : unit.importLines = [] := by
      rw [importLines, hne]
      rfl
    refine ⟨[], ?_, List.nodup_nil, [], .refl _, ?_⟩
    · rw [removedImportEdits, hlines]
      rfl
    · rw [hne]
      exact .keep _ _
  · rw [blankLine_of_ne_nil hne] at htext
    have hlines : unit.importLines ≠ [] := by
      intro h
      exact hne (by rw [← map_line_importLines, h, List.map_nil])
    refine ⟨_, removedImportEdits_all htext hstand rfl hgone hadded, ?_, _, .refl _, ?_⟩
    · refine Edit.insertsApart_of_nonempty fun e he => ?_
      obtain ⟨x, hx, rfl⟩ := List.mem_map.1 he
      have hmem : x.1 ∈ unit.importLines := (List.mem_zipIdx' hx).2 ▸ List.getElem_mem _
      exact isEmpty_clearing _ (hstand.start_le hmem)
    · have hrevises := clearing_revises (k := 0) hstand hlines (Nat.zero_add _).symm
      rw [map_line_importLines] at hrevises
      rw [blankLine_of_ne_nil hne]
      exact hrevises

/-- Some lines go, and nothing comes. -/
theorem importEdits_of_removed (hleft : unit.importLines.all changes.removed.contains = false)
    (hadded : changes.added.isEmpty = true) :
    ∃ edits, unit.importEdits changes = .ok edits ∧
      unit.Remakes before (changes.newImports unit.importLines) edits := by
  obtain ⟨l, hl, hstays⟩ := List.all_eq_false.1 hleft
  have hold : unit.imports ≠ [] := by
    rw [← map_line_importLines]
    exact List.ne_nil_of_mem (List.mem_map_of_mem hl)
  have hnames := sortedNames_eq_nil.2 hadded
  have hnew : changes.newImports unit.importLines ≠ [] := by
    rw [newImports_eq, hnames, interleave_nil]
    refine List.ne_nil_of_mem (List.mem_map_of_mem (List.mem_filter.2 ⟨List.mem_map_of_mem hl, ?_⟩))
    simpa using hstays
  have hperm : ((unit.importLines.filter changes.removed.contains).map deletion).Perm
      (blockEdits changes.removed.contains (before ++ importsChars unit.imports).byteLength
        changes.sortedNames unit.importLines) := by
    have hnone (lines : List ImportLine) (stop : Nat) :
        blockEdits (fun _ => false) stop [] lines = [] := by
      induction lines with
      | nil => rfl
      | cons l rest ih => exact ih
    refine .symm (blockEdits_perm.trans ?_)
    rw [hnames, hnone, List.append_nil]
  rw [importEdits_eq_removed hadded]
  refine ⟨_, removedImportEdits_eq htext hstand (by rw [hleft]; rfl), ?_⟩
  refine remakes_blockEdits hstand hold hnew hperm ?_
  refine Edit.insertsApart_of_nonempty fun e he => ?_
  obtain ⟨k, hk, rfl⟩ := List.mem_map.1 he
  exact isEmpty_deletion (hstand.start_le (List.mem_of_mem_filter hk))

/-- Names come to a list that is there. -/
theorem importEdits_of_added (hold : unit.imports ≠ []) (hadded : changes.added.isEmpty = false) :
    ∃ edits, unit.importEdits changes = .ok edits ∧
      unit.Remakes before (changes.newImports unit.importLines) edits := by
  have hnames : changes.sortedNames ≠ [] := by
    intro h
    rw [sortedNames_eq_nil.1 h] at hadded
    contradiction
  have hnew := newImports_ne_nil hnames unit.importLines
  have hstarts : (unit.importLines.map (·.span.start) ++
      [(before ++ importsChars unit.imports).byteLength]).Nodup :=
    hstand.starts_nodup (by rw [map_line_importLines, Chars.byteLength_append])
  have hinserts : changes.sortedNames.mapM
      (fun name => return (← unit.insertionOffset name, importText name)) =
      .ok (changes.sortedNames.map fun name =>
        (slot (before ++ importsChars unit.imports).byteLength unit.importLines name,
          importText name)) :=
    mapM_ok fun name _ => by rw [insertionOffset_eq htext hstand hold]; rfl
  have hremoved : unit.removedImportEdits changes = _ :=
    removedImportEdits_eq htext hstand (by rw [hadded, Bool.and_false])
  refine ⟨_, ?_, remakes_blockEdits hstand hold hnew
    ((List.Perm.append_left _ (gatherInserts_perm hstarts)).trans blockEdits_perm.symm) ?_⟩
  · rw [importEdits_eq_added hremoved (by simpa using hnames), if_neg (by simpa using hold),
      hinserts]
    rfl
  · refine InsertsApart.append (insertsApart_gatherInserts _) fun e he => ?_
    obtain ⟨k, hk, rfl⟩ := List.mem_map.1 he
    exact isEmpty_deletion (hstand.start_le (List.mem_of_mem_filter hk))

end

/-- The edits of the imports are made for any changes, insert nothing twice at one place, and turn
the head of a printed unit into that with the new import list. -/
theorem importEdits_revises {other : CompilationUnit} {changes : ImportChanges}
    (hs : unit.Shows [] unit.headerLayout) (hpackage : other.package = unit.package)
    (himports : other.imports = changes.newImports unit.importLines) :
    ∃ edits es, unit.importEdits changes = .ok edits ∧ edits.Perm es ∧ InsertsApart edits ∧
      Revises 0 unit.headerLayout.chars es other.headerLayout.chars := by
  have hstand : Stand (packageLayout unit.package).chars.byteLength unit.importLines :=
    hs.left.right.stand
  obtain ⟨after, htext⟩ := hs.text
  rw [List.nil_append, chars_headerLayout, List.append_assoc, List.append_assoc] at htext
  have hedits : ∃ edits, unit.importEdits changes = .ok edits ∧ unit.Remakes
      (packageLayout unit.package).chars (changes.newImports unit.importLines) edits := by
    cases hadded : changes.added.isEmpty with
    | true =>
      cases hgone : unit.importLines.all changes.removed.contains with
      | true => exact importEdits_of_cleared htext hstand hgone hadded
      | false => exact importEdits_of_removed htext hstand hgone hadded
    | false =>
      by_cases hold : unit.imports = []
      · refine importEdits_of_first hs.left.left hold fun h => ?_
        rw [sortedNames_eq_nil.1 h] at hadded
        contradiction
      · exact importEdits_of_added htext hstand hold hadded
  obtain ⟨edits, hok, hapart, es, hperm, hrevises⟩ := hedits
  refine ⟨edits, es, hok, hperm, hapart, ?_⟩
  rw [chars_headerLayout, chars_headerLayout, hpackage, himports, List.append_assoc,
    List.append_assoc]
  refine Revises.pad _ ?_
  rwa [Nat.zero_add]

end CompilationUnit

end EnhancedFor
