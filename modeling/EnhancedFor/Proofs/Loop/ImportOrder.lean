import EnhancedFor.Proofs.Loop.ImportBlock
import EnhancedFor.Proofs.Syntax.PrintedText
import EnhancedFor.Proofs.Syntax.Reprint

/-!
The order of the imports. A list of new names goes into a list of lines before the lines that follow
them; no line is lost or moved by that, and lines in order stay in order. Main statement: the edits
of the imports of a printed unit, shared nodes or not, give a text that differs in the import block
alone, and the new block has the lines that stay and the new ones, in order.
-/

namespace EnhancedFor

namespace Import

/-- A static import may stand before and after any other, one that is not static before none of a
smaller path. -/
def MayPrecede (i j : Import) : Prop := i.isStatic = false → j.isStatic = false → ¬ j.path < i.path

instance (i j : Import) : Decidable (i.MayPrecede j) :=
  inferInstanceAs (Decidable (i.isStatic = false → j.isStatic = false → ¬ j.path < i.path))

/-- The paths do not decrease, those of static imports aside. -/
def InOrder (imports : List Import) : Prop := imports.Pairwise MayPrecede

instance (imports : List Import) : Decidable (InOrder imports) :=
  inferInstanceAs (Decidable (imports.Pairwise MayPrecede))

variable {i j k : Import} {name : String}

theorem MayPrecede.trans (hij : i.MayPrecede j) (hj : j.isStatic = false) (hjk : j.MayPrecede k) :
    i.MayPrecede k := by
  intro hi hk
  have hle : i.path ≤ j.path := String.not_lt.1 (hij hi hj)
  have hle' : j.path ≤ k.path := String.not_lt.1 (hjk hj hk)
  exact String.not_lt.2 (String.le_trans hle hle')

theorem follows_eq_true : i.follows name = true ↔ i.isStatic = false ∧ name < i.path := by
  rw [follows, Bool.and_eq_true, Bool.not_eq_true', decide_eq_true_iff]

theorem mayPrecede_of_follows (h : i.follows name = true) : (ofName name).MayPrecede i :=
  fun _ _ => String.lt_asymm (follows_eq_true.1 h).2

theorem mayPrecede_ofName (h : i.follows name = false) : i.MayPrecede (ofName name) := by
  intro hi _ hlt
  cases h.symm.trans (follows_eq_true.2 ⟨hi, hlt⟩)

end Import

open Import (InOrder)

namespace MarkedImport

variable {names : List String} {lines : List MarkedImport}

/-- New names go where the order asks for them, before removed lines too. -/
theorem inOrder_interleave (hn : names.Pairwise fun a b => ¬ b < a)
    (hl : InOrder (lines.map (·.1))) : InOrder ((interleave names lines).map (·.1)) := by
  have hofName {ns : List String} (h : ns.Pairwise fun a b => ¬ b < a) :
      InOrder ((ns.map ofName).map (·.1)) := by
    rw [List.map_map]
    exact List.pairwise_map.2 (h.imp fun hab _ _ => hab)
  induction lines generalizing names with
  | nil => exact hofName hn
  | cons line rest ih =>
    obtain ⟨hline, hrest⟩ := List.pairwise_cons.1 hl
    -- Whatever comes after the line may do so: a line of the rest, or a name that the line does not
    -- follow.
    have hafter : ∀ i ∈ (interleave (names.filter (!line.1.follows ·)) rest).map (·.1),
        line.1.MayPrecede i := by
      intro i hi
      obtain ⟨x, hx, rfl⟩ := List.mem_map.1 hi
      rcases List.mem_append.1 (interleave_perm.subset hx) with hx | hx
      · exact hline _ (List.mem_map_of_mem hx)
      · obtain ⟨name, hname, rfl⟩ := List.mem_map.1 hx
        exact Import.mayPrecede_ofName (Bool.not_eq_true' _ ▸ (List.mem_filter.1 hname).2)
    rw [interleave, List.map_append, List.map_cons]
    refine List.pairwise_append.2 ⟨hofName (hn.filter _),
      List.pairwise_cons.2 ⟨hafter, ih (hn.filter _) hrest⟩, ?_⟩
    intro i hi j hj
    obtain ⟨x, hx, rfl⟩ := List.mem_map.1 hi
    obtain ⟨name, hname, rfl⟩ := List.mem_map.1 hx
    have hfollows : line.1.follows name = true := (List.mem_filter.1 hname).2
    have hfirst : (Import.ofName name).MayPrecede line.1 := Import.mayPrecede_of_follows hfollows
    rcases List.mem_cons.1 hj with rfl | hj
    · exact hfirst
    · exact hfirst.trans (Import.follows_eq_true.1 hfollows).1 (hafter j hj)

end MarkedImport

namespace ImportChanges

theorem inOrder_newImports (changes : ImportChanges) (lines : List ImportLine)
    (h : InOrder (lines.map (·.line))) : InOrder (changes.newImports lines) := by
  have hmarked : (ImportLine.marked changes.removed.contains lines).map (·.1) =
      lines.map (·.line) := by
    rw [ImportLine.marked, List.map_map]
    rfl
  rw [newImports_eq]
  exact (MarkedImport.inOrder_interleave changes.sortedNames_pairwise (hmarked ▸ h)).sublist
    (List.filter_sublist.map _)

end ImportChanges

/-- Marks of the package line and of import lines. -/
def Mark.isHead : Mark → Bool
  | .package | .importLine _ => true
  | _ => false

theorem Mark.isHead_eq_false {m : Mark} (h : m.isKey = false) : m.isHead = false := by
  cases m with
  | package | importLine => cases h
  | _ => rfl

theorem Layout.marked_sublist (p : Mark → Bool) (l : Layout) : (l.marked p).Sublist l.allMarks := by
  induction l with
  | text _ => exact .slnil
  | append a b iha ihb => exact iha.append ihb
  | mark m inner ih =>
    rw [marked]
    split
    · exact ih.cons_cons m
    · exact ih.cons m

namespace CompilationUnit

open Layout (Compositional)
open Edit (Revises)

variable {unit : CompilationUnit}

theorem compositional_headless : Compositional fun a _ _ => a.marked Mark.isHead = [] where
  text _ := rfl
  append h h' := by rw [Layout.marked_append, h, h', List.append_nil]
  mark hm h := by
    rw [Layout.marked, Mark.isHead_eq_false hm]
    exact h

theorem exprLayoutWithin_headless (d : Nat) (id : ExprId) :
    (unit.exprLayoutWithin d id).marked Mark.isHead = [] := by
  induction d generalizing id with
  | zero => rfl
  | succ d ih =>
    rw [exprLayoutWithin]
    split
    · rfl
    · exact @exprShape_rel _ compositional_headless _ (fun _ => .empty) (fun _ => []) id _
        fun c _ => ih c

theorem stmtLayoutWithin_headless (d level : Nat) (id : StmtId) :
    (unit.stmtLayoutWithin d level id).marked Mark.isHead = [] := by
  induction d generalizing level id with
  | zero => rfl
  | succ d ih =>
    rw [stmtLayoutWithin]
    dsimp only
    split
    · rfl
    · refine @stmtShape_rel _ compositional_headless _ (fun _ => .empty) (fun _ => []) level id _ _
        (fun _ => .empty) _ (fun _ => .empty) (fun e _ => exprLayoutWithin_headless _ e)
        (fun _ t _ => ih (level + 1) t) fun _ t _ => ?_
      split
      · exact ih level t
      · exact ih (level + 1) t

theorem typesLayout_headless : unit.typesLayout.marked Mark.isHead = [] := by
  refine @typesLayout_rel _ compositional_headless (fun _ => []) unit unit rfl
    (fun _ _ _ _ e _ => exprLayoutWithin_headless _ e) fun _ _ m _ => ?_
  cases m.body with
  | none => rfl
  | some s => exact stmtLayoutWithin_headless _ 1 s

theorem isHead_of_mem_headMarks {m : Mark} (h : m ∈ unit.headMarks) : m.isHead = true := by
  rcases List.mem_append.1 h with h | h
  · obtain ⟨name, -, rfl⟩ := Option.map_eq_some_iff.1 (Option.mem_toList.1 h)
    rfl
  · obtain ⟨i, -, rfl⟩ := List.mem_map.1 h
    rfl

/-- Head lines stand where they are printed, also when nodes are shared. -/
theorem shows_header_of_reprint {draft : CompilationUnit} (h : draft.reprint = .ok unit) :
    unit.Shows [] unit.headerLayout := by
  obtain ⟨-, rfl⟩ := eq_print_of_reprint h
  have hnodup : (draft.layout.marked Mark.isHead).Nodup := by
    rw [layout, Layout.marked_append, typesLayout_headless, List.append_nil]
    refine (Layout.marked_sublist _ _).nodup ?_
    rw [allMarks_headerLayout]
    exact nodup_headMarks
  have hstands : draft.print.StandsAt Mark.isHead 0 draft.headerLayout :=
    (standsAt_print hnodup).left
  refine ⟨⟨draft.typesLayout.chars, draft.layout.toList_toText⟩, fun m s hm _ => hstands m s hm ?_⟩
  have hmem : m ∈ draft.headerLayout.allMarks := Layout.exists_placed.1 ⟨s, hm⟩
  rw [allMarks_headerLayout] at hmem
  exact isHead_of_mem_headMarks hmem

def packageText (package : Option String) : String :=
  package.elim "" fun name => "package " ++ name ++ ";\n\n"

/-- Each import on its own line, and an empty line after them if there are any. -/
def importBlock (imports : List Import) : String :=
  String.join (imports.map fun i => i.text ++ "\n") ++ if imports.isEmpty then "" else "\n"

/-- The text of the unit with another list of imports. -/
def textWith (unit : CompilationUnit) (imports : List Import) : String :=
  packageText unit.package ++ importBlock imports ++ unit.typesLayout.toText

theorem toList_packageText (package : Option String) :
    (packageText package).toList = (packageLayout package).chars := by
  cases package with
  | none => rfl
  | some name =>
    have hend : ";\n\n".toList = ";".toList ++ "\n\n".toList := by decide
    show ("package " ++ name ++ ";\n\n").toList =
      "package ".toList ++ name.toList ++ ";".toList ++ _
    rw [String.toList_append, String.toList_append, hend]
    simp only [List.append_assoc]
    rfl

theorem toList_importBlock (imports : List Import) :
    (importBlock imports).toList = importsChars imports ++ blankLine imports := by
  have hline (i : Import) : (i.text ++ "\n").toList = i.chars ++ ['\n'] := by
    rw [String.toList_append, ← toText_importShape, Layout.toList_toText, chars_importShape]
    rfl
  have hblank : (if imports.isEmpty then "" else "\n").toList = blankLine imports := by
    unfold blankLine
    cases imports.isEmpty <;> rfl
  rw [importBlock, String.toList_append, String.toList_join, List.flatMap_map, hblank]
  simp only [hline]
  rfl

theorem toList_textWith (imports : List Import) : (unit.textWith imports).toList =
    ({ unit with imports := imports } : CompilationUnit).headerLayout.chars ++
      unit.typesLayout.chars := by
  rw [textWith, String.toList_append, String.toList_append, toList_packageText, toList_importBlock,
    Layout.toList_toText, chars_headerLayout,
    ← List.append_assoc (packageLayout unit.package).chars]

/-- For every printed unit and all changes of its imports the edits are made and can be applied.
Both texts are made of the package line, an import block and the types, and only the block is
another one: the lines that stay in their old order and each new import once, each on its own line,
and an empty line after them unless there are none. If the old imports are in order, so are the new
ones. -/
theorem importEdits_keep_order {draft : CompilationUnit} (h : draft.reprint = .ok unit)
    (changes : ImportChanges) :
    ∃ edits imports, unit.importEdits changes = .ok edits ∧
      unit.text = unit.textWith unit.imports ∧
      Edit.apply unit.text edits = .ok (unit.textWith imports) ∧
      (changes.survivors unit.importLines).Sublist imports ∧
      imports.Perm (changes.survivors unit.importLines ++ changes.added.map .ofName) ∧
      (Import.InOrder unit.imports → Import.InOrder imports) := by
  have hshows := shows_header_of_reprint h
  have htext : unit.text = unit.textWith unit.imports := by
    apply String.toList_inj.1
    rw [toList_text_of_reprint h, toList_textWith]
    rfl
  generalize himports : changes.newImports unit.importLines = imports
  obtain ⟨edits, es, hedits, hperm, hapart, hrevises⟩ :=
    @importEdits_revises unit { unit with imports := imports } changes hshows rfl himports.symm
  have hall : Revises 0 unit.text.toList es (unit.textWith imports).toList := by
    rw [htext, toList_textWith, toList_textWith]
    exact hrevises.append_text _
  have happly := hall.apply_eq hperm (hall.spans_nodup (hapart.perm hperm))
  rw [String.ofList_toList] at happly
  refine ⟨edits, imports, hedits, htext, happly, ?_, ?_, fun horder => ?_⟩
  · exact himports ▸ changes.survivors_sublist_newImports _
  · exact himports ▸ changes.newImports_perm _
  · rw [← himports]
    apply changes.inOrder_newImports
    rwa [map_line_importLines]

end CompilationUnit

namespace Shared

/-- The unit with a package line and imports, one of them static. -/
def imported : CompilationUnit :=
  { unit with
    package := some "app"
    imports := [⟨"java.util.Iterator", false, false⟩, ⟨"app.Util.use", true, false⟩,
      ⟨"java.util.List", false, false⟩] }

/-- Two new names, and the iterator goes. -/
def fileAndMap : ImportChanges :=
  ⟨["java.util.Map", "java.io.File"], [⟨⟨"java.util.Iterator", false, false⟩, ⟨14, 40⟩⟩]⟩

theorem reprint_imported : imported.reprint = .ok imported.print := by
  have hback : imported.Backward := backward_unit
  exact hback.reprint_eq (hback.complete (by decide))

theorem file_and_map_imported : imported.reprint = .ok imported.print ∧
    Import.InOrder imported.print.imports ∧
    ∃ edits imports, imported.print.importEdits fileAndMap = .ok edits ∧
      Edit.apply imported.print.text edits = .ok (imported.print.textWith imports) ∧
      [⟨"app.Util.use", true, false⟩, ⟨"java.util.List", false, false⟩].Sublist imports ∧
      imports.length = 4 ∧ Import.ofName "java.io.File" ∈ imports ∧ Import.InOrder imports := by
  have horder : Import.InOrder imported.print.imports := by decide +kernel
  have hstay : fileAndMap.survivors imported.print.importLines =
      [⟨"app.Util.use", true, false⟩, ⟨"java.util.List", false, false⟩] := by decide +kernel
  obtain ⟨edits, imports, hedits, -, happly, hsub, hperm, hkeeps⟩ :=
    CompilationUnit.importEdits_keep_order reprint_imported fileAndMap
  rw [hstay] at hsub hperm
  refine ⟨reprint_imported, horder, edits, imports, hedits, happly, hsub, hperm.length_eq, ?_,
    hkeeps horder⟩
  exact hperm.mem_iff.2 (by decide)

end Shared
end EnhancedFor
