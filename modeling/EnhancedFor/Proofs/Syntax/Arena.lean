import EnhancedFor.Syntax.Arena
import EnhancedFor.Proofs.Syntax.Marks

/-!
Units and arenas. The slots of the lines, types and nodes of an arena cover the marks of a unit,
each once, so that spans can be read back from where they are kept.
-/

namespace EnhancedFor

@[simp] theorem DeclSlot.node?_mark (place : DeclPlace) (slot : DeclSlot) :
    (slot.mark place).node? = place.node? := by
  cases slot <;> rfl

@[simp] theorem ParamSlot.node?_mark (place : ParamPlace) (slot : ParamSlot) :
    (slot.mark place).node? = place.node? := by
  cases slot <;> rfl

@[simp] theorem ExprSlot.node?_mark (id : ExprId) (slot : ExprSlot) :
    (slot.mark id).node? = some (.expr id) := by
  cases slot with
  | decl slot => exact slot.node?_mark _
  | whole | name | type => rfl

@[simp] theorem StmtSlot.node?_mark (id : StmtId) (slot : StmtSlot) :
    (slot.mark id).node? = some (.stmt id) := by
  cases slot with
  | decl slot => exact slot.node?_mark _
  | param slot => exact slot.node?_mark _
  | whole => rfl

@[simp] theorem TypeSlot.node?_mark (t : Nat) (slot : TypeSlot) : (slot.mark t).node? = none := by
  cases slot with
  | decl i slot => exact slot.node?_mark _
  | param i k slot => exact slot.node?_mark _
  | whole | field | method | result => rfl

@[simp] theorem TypeSlot.type?_mark (t : Nat) (slot : TypeSlot) : (slot.mark t).type? = some t := by
  cases slot with
  | decl i slot => cases slot <;> rfl
  | param i k slot => cases slot <;> rfl
  | whole | field | method | result => rfl

/-- Where the span of a mark is kept. -/
inductive Mark.Held : Mark → Prop where
  | package : Held .package
  | importLine (i : Nat) : Held (.importLine i)
  | type (t : Nat) (slot : TypeSlot) : Held (slot.mark t)
  | expr (id : ExprId) (slot : ExprSlot) : Held (slot.mark id)
  | stmt (id : StmtId) (slot : StmtSlot) : Held (slot.mark id)

theorem DeclPlace.held (place : DeclPlace) (slot : DeclSlot) : (slot.mark place).Held := by
  cases place with
  | expr id => exact .expr id (.decl slot)
  | stmt id => exact .stmt id (.decl slot)
  | field t i => exact .type t (.decl i slot)

theorem ParamPlace.held (place : ParamPlace) (slot : ParamSlot) : (slot.mark place).Held := by
  cases place with
  | forEach id => exact .stmt id (.param slot)
  | method t i k => exact .type t (.param i k slot)

/-- Some part of an arena has a slot for every mark. -/
theorem Mark.held (m : Mark) : m.Held := by
  cases m with
  | package => exact .package
  | importLine i => exact .importLine i
  | typeDecl t => exact .type t .whole
  | field t i => exact .type t (.field i)
  | method t i => exact .type t (.method i)
  | returnType t i => exact .type t (.result i)
  | expr id => exact .expr id .whole
  | exprName id => exact .expr id .name
  | exprType id => exact .expr id .type
  | stmt id => exact .stmt id .whole
  | declType place => exact place.held .type
  | fragment place i => exact place.held (.fragment i)
  | fragmentName place i => exact place.held (.fragmentName i)
  | param place => exact place.held .whole
  | paramType place => exact place.held .type
  | paramName place => exact place.held .name

namespace Arena

variable (arena : Arena)

theorem span?_expr (id : ExprId) (slot : ExprSlot) :
    arena.span? (slot.mark id) = arena.exprSpan? id slot := by
  cases slot with
  | decl slot => cases slot <;> rfl
  | whole | name | type => rfl

theorem span?_stmt (id : StmtId) (slot : StmtSlot) :
    arena.span? (slot.mark id) = arena.stmtSpan? id slot := by
  cases slot with
  | decl slot => cases slot <;> rfl
  | param slot => cases slot <;> rfl
  | whole => rfl

theorem span?_type (t : Nat) (slot : TypeSlot) :
    arena.span? (slot.mark t) = arena.typeSpan? t slot := by
  cases slot with
  | decl i slot => cases slot <;> rfl
  | param i k slot => cases slot <;> rfl
  | whole | field | method | result => rfl

end Arena

namespace CompilationUnit

variable {unit : CompilationUnit}

/-- The arena of the unit with other spans. -/
def arenaWith (unit : CompilationUnit) (spans : Mark → Span) : Arena :=
  (unit.retexted unit.text spans).arena

theorem arenaWith_eq (spans : Mark → Span) : unit.arenaWith spans =
    ⟨unit.file, unit.packageCell spans, unit.importCells spans, unit.typeCells spans,
      unit.exprCells spans, unit.stmtCells spans, unit.text⟩ := rfl

theorem contains_expr_iff {id : ExprId} :
    unit.contains (.expr id) = true ↔ ∃ node, unit.exprs[id.index]? = some node := by
  simp [contains, ← Option.isSome_iff_exists]

theorem contains_stmt_iff {id : StmtId} :
    unit.contains (.stmt id) = true ↔ ∃ s, unit.stmts[id.index]? = some s := by
  simp [contains, ← Option.isSome_iff_exists]

namespace HasMark

variable {m : Mark}

theorem mem_headMarks (h : unit.HasMark m) (hnode : m.node? = none) (htype : m.type? = none) :
    m ∈ unit.headMarks := by
  cases h with
  | head h => exact h
  | type _ h => cases (TypeDecl.place_of_mem_marks h).2.symm.trans htype
  | node _ h => cases (node_of_mem_ownMarks h).symm.trans hnode

theorem exists_type (h : unit.HasMark m) (hnode : m.node? = none) {t : Nat}
    (ht : m.type? = some t) : ∃ decl, unit.types[t]? = some decl := by
  cases h with
  | head h => cases (place_of_mem_headMarks h).2.symm.trans ht
  | @type t' decl hdecl h =>
    obtain rfl := Option.some.inj ((TypeDecl.place_of_mem_marks h).2.symm.trans ht)
    exact ⟨decl, hdecl⟩
  | node _ h => cases (node_of_mem_ownMarks h).symm.trans hnode

end HasMark

/-- The arena of a complete unit has the spans of all marks that are printed. -/
theorem span?_arenaWith (hc : unit.Complete) (spans : Mark → Span) (m : Mark) :
    (unit.arenaWith spans).span? m = some (spans m) ∨
      (unit.arenaWith spans).span? m = none ∧ ¬ unit.HasMark m := by
  have hoption {α : Type} {x : Option α} (hx : unit.HasMark m → ∃ a, x = some a) :
      x.map (fun _ => spans m) = some (spans m) ∨
        x.map (fun _ => spans m) = none ∧ ¬ unit.HasMark m := by
    cases x with
    | some a => exact .inl rfl
    | none =>
      refine .inr ⟨rfl, fun hm => ?_⟩
      obtain ⟨a, ha⟩ := hx hm
      cases ha
  cases m.held with
  | package =>
    have hspan : (unit.arenaWith spans).span? .package = unit.package.map fun _ => spans .package :=
      Option.map_map _ _ _
    rw [hspan]
    refine hoption fun hm => ?_
    have hmem := hm.mem_headMarks rfl rfl
    cases hname : unit.package with
    | none => simp [headMarks, hname] at hmem
    | some name => exact ⟨name, rfl⟩
  | importLine i =>
    have hspan : (unit.arenaWith spans).span? (.importLine i) =
        unit.imports[i]?.map fun _ => spans (.importLine i) := by
      simp [Arena.span?, arenaWith_eq, importCells, Function.comp_def]
    rw [hspan]
    refine hoption fun hm => ?_
    have hmem := hm.mem_headMarks rfl rfl
    have hlt : i < unit.imports.length := by simpa [headMarks] using hmem
    exact ⟨_, List.getElem?_eq_getElem hlt⟩
  | type t slot =>
    have hspan : (unit.arenaWith spans).span? (slot.mark t) =
        unit.types[t]?.map fun _ => spans (slot.mark t) := by
      simp [Arena.span?_type, Arena.typeSpan?, arenaWith_eq, typeCells, Function.comp_def]
    rw [hspan]
    exact hoption fun hm => hm.exists_type (slot.node?_mark t) (slot.type?_mark t)
  | expr id slot =>
    have hspan : (unit.arenaWith spans).span? (slot.mark id) =
        unit.exprs[id.index]?.map fun _ => spans (slot.mark id) := by
      simp [Arena.span?_expr, Arena.exprSpan?, arenaWith_eq, exprCells, Function.comp_def]
    rw [hspan]
    exact hoption fun hm => contains_expr_iff.1 (hc _ (hm.rooted (slot.node?_mark id)))
  | stmt id slot =>
    have hspan : (unit.arenaWith spans).span? (slot.mark id) =
        unit.stmts[id.index]?.map fun _ => spans (slot.mark id) := by
      simp [Arena.span?_stmt, Arena.stmtSpan?, arenaWith_eq, stmtCells, Function.comp_def]
    rw [hspan]
    exact hoption fun hm => contains_stmt_iff.1 (hc _ (hm.rooted (slot.node?_mark id)))

/-- An arena with the spans of a print and the unit that is printed. -/
theorem toUnit_arenaWith (hc : unit.Complete) {spans : Mark → Span} (text : String)
    (h : ∀ m, ¬ unit.HasMark m → spans m = unit.spans m) :
    Arena.toUnit { unit.arenaWith spans with text := text } unit.spans =
      unit.retexted text spans := by
  have hspans : (fun m => ((unit.arenaWith spans).span? m).getD (unit.spans m)) = spans := by
    funext m
    rcases span?_arenaWith hc spans m with hm | ⟨hm, hnot⟩
    · rw [hm]
      rfl
    · rw [hm]
      exact (h m hnot).symm
  have hpackage : (unit.packageCell spans).map (·.form) = unit.package := by
    cases hname : unit.package <;> simp [packageCell, hname]
  have himports : (unit.importCells spans).map (·.form) = unit.imports := by
    simp [importCells, Function.comp_def]
  have htypes : (unit.typeCells spans).map (·.form) = unit.types := by
    simp [typeCells, Function.comp_def]
  have hexprs : (unit.exprCells spans).map (·.form) = unit.exprs :=
    Array.ext_getElem? fun i => by simp [exprCells, Function.comp_def]
  have hstmts : (unit.stmtCells spans).map (·.form) = unit.stmts :=
    Array.ext_getElem? fun i => by simp [stmtCells, Function.comp_def]
  show CompilationUnit.mk unit.file ((unit.packageCell spans).map _)
    ((unit.importCells spans).map _) ((unit.typeCells spans).map _)
    ((unit.exprCells spans).map _) ((unit.stmtCells spans).map _) text
    (fun m => ((unit.arenaWith spans).span? m).getD (unit.spans m)) = _
  rw [hpackage, himports, htypes, hexprs, hstmts, hspans]
  rfl

end CompilationUnit
end EnhancedFor
