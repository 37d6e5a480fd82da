import EnhancedFor.Loop.Plan
import EnhancedFor.Proofs.Loop.Classification
import EnhancedFor.Proofs.Syntax.Parents

/-!
What a plan takes out of a unit: the statements that go, and the advance calls that become a name.
-/

namespace EnhancedFor

namespace CompilationUnit

/-- The nearest statement around an occurrence. A declaration is its own; for an assignment it is
looked for in the code of the unit. -/
inductive StandsIn (unit : CompilationUnit) : Occurrence → StmtId → Prop where
  | declaration {stmt : StmtId} {var : VarId} : StandsIn unit (.declaration stmt var) stmt
  | assignment {stmt : StmtId} {id target e : ExprId} (hr : unit.Rooted (.stmt stmt))
    (he : .expr e ∈ unit.kids (.stmt stmt)) (hb : unit.Below (.expr e) (.expr id)) :
    StandsIn unit (.assignment id target) stmt

/-- A direct part of a block. -/
def InBlock (unit : CompilationUnit) (block stmt : StmtId) : Prop :=
  ∃ statements, unit.stmt? block = some (.block statements) ∧ stmt ∈ statements

theorem InBlock.mem_kids {unit : CompilationUnit} {block stmt : StmtId}
    (h : unit.InBlock block stmt) : .stmt stmt ∈ unit.kids (.stmt block) := by
  obtain ⟨statements, hblock, hmem⟩ := h
  rw [kids_stmt hblock]
  exact List.mem_map_of_mem hmem

end CompilationUnit

namespace Classification

open CompilationUnit

variable {c : Classification} {unit : CompilationUnit} {store : TypeStore} {body stmt : StmtId}
  {names : Name.Candidates} {plan : Plan} {name : String} {header : Header}
  {imports : ImportChanges}

/-- The import changes of a conversion. -/
def plannedImports (c : Classification) (unit : CompilationUnit) (store : TypeStore)
    (body : StmtId) : ImportChanges :=
  (c.nodeChanges unit store body).applyTo unit store .empty

/-- A head has the given name and goes over the iterable; its type is looked up. -/
theorem header_eq_ok (h : c.header unit store name = .ok header) :
    ∃ b, store.type? c.elementType = some b ∧ header.elementType = c.elementType ∧
      header.typeText = (if c.usesQualifiedType unit store then b.qualifiedName else b.name) ∧
      header.name = name ∧ header.iterable.expr = c.iterableExpr := by
  obtain ⟨b, hb, h⟩ := bind_eq_ok.1 h
  obtain ⟨-, -, hok⟩ := bind_eq_ok.1 h
  obtain rfl := Except.ok.inj hok
  refine ⟨b, TypeStore.type_eq_ok.1 hb, rfl, rfl, rfl, ?_⟩
  dsimp only
  split <;> rfl

theorem exists_header (hs : store.Closed) (h : store.knows (.type c.elementType) = true)
    (unit : CompilationUnit) (name : String) : ∃ header, c.header unit store name = .ok header := by
  obtain ⟨b, hb⟩ := TypeStore.exists_type h
  have hmentions : store.require (store.mentionLookups c.elementType) = .ok () :=
    TypeStore.require_eq_ok.2 fun _ => hs.mentionLookups_known h
  exact ⟨_, by rw [Classification.header, TypeStore.type_eq_ok.2 hb, hmentions]; rfl⟩

section

variable {inits updates : List ExprId} {condition : Option ExprId}
  (hloop : unit.stmt? c.loop = some (.forLoop inits condition updates body))

include hloop

theorem plan_eq_ok (h : c.plan unit store names = .ok plan) :
    unit.complete = .ok unit ∧
      ∃ header, c.header unit store (names.first?.getD fallbackName) = .ok header ∧
        plan = c.planBody unit names body header (c.plannedImports unit store body) := by
  rw [Classification.plan, hloop] at h
  obtain ⟨header, hheader, h⟩ := bind_eq_ok.1 h
  obtain ⟨imports, himports, h⟩ := bind_eq_ok.1 h
  obtain ⟨other, hcomplete, himports⟩ := bind_eq_ok.1 himports
  obtain rfl := eq_of_complete hcomplete
  obtain ⟨-, -, himports⟩ := bind_eq_ok.1 himports
  obtain rfl := Except.ok.inj himports
  exact ⟨hcomplete, header, hheader, (Except.ok.inj h).symm⟩

/-- There is a plan where nothing is lacking. -/
theorem plan_of_header (hc : unit.complete = .ok unit)
    (hlookups : ∀ b ∈ unit.importLookups store, store.knows b = true)
    (hheader : c.header unit store (names.first?.getD fallbackName) = .ok header) :
    c.plan unit store names =
      .ok (c.planBody unit names body header (c.plannedImports unit store body)) := by
  simp only [Classification.plan, hloop, hheader, NodeChanges.importChanges, hc,
    TypeStore.require_eq_ok.2 hlookups, bind, Except.bind]
  rfl

end

theorem removedStatements_planBody :
    (c.planBody unit names body header imports).removedStatements =
      c.removedStatements unit body := by
  simp [planBody, Plan.removedStatements, List.filterMap_append, List.filterMap_map]

theorem replacedCalls_planBody :
    (c.planBody unit names body header imports).replacedCalls = c.replacedCalls unit body := by
  simp [planBody, Plan.replacedCalls, List.filterMap_append, List.filterMap_map]

theorem header?_planBody :
    (c.planBody unit names body header imports).header? = some header := rfl

theorem filter_inBlock {found : Option StmtId} : (match unit.stmt? body with
    | some (.block statements) => found.filter statements.contains
    | _ => none) = some stmt ↔ unit.InBlock body stmt ∧ found = some stmt := by
  split
  · rename_i statements hblock
    rw [Option.filter_eq_some_iff, List.contains_iff_mem]
    constructor
    · rintro ⟨hfound, hmem⟩
      exact ⟨⟨statements, hblock, hmem⟩, hfound⟩
    · rintro ⟨⟨others, hothers, hmem⟩, hfound⟩
      rw [hblock] at hothers
      obtain rfl := Stmt.block.inj (Option.some.inj hothers)
      exact ⟨hfound, hmem⟩
  · rename_i hno
    constructor
    · intro h
      simp at h
    · rintro ⟨⟨statements, hblock, -⟩, -⟩
      exact (hno statements hblock).elim

theorem occurrenceStmt?_eq_some_iff (hu : unit.SingleUse) (hc : unit.Complete) {o : Occurrence} :
    occurrenceStmt? unit (Parents.ofUnit unit) body o = some stmt ↔
      unit.InBlock body stmt ∧ unit.StandsIn o stmt := by
  cases o with
  | declaration s var =>
    refine filter_inBlock.trans (and_congr_right fun _ => ⟨fun h => ?_, ?_⟩)
    · obtain rfl := Option.some.inj h
      exact .declaration
    · rintro ⟨⟩
      rfl
  | assignment id target =>
    refine filter_inBlock.trans (and_congr_right fun _ =>
      (Parents.enclosingStmt?_expr_eq_some_iff hu hc).trans ⟨?_, ?_⟩)
    · rintro ⟨hr, e, he, hb⟩
      exact .assignment hr he hb
    · rintro (_ | ⟨hr, he, hb⟩)
      exact ⟨hr, _, he, hb⟩

/-- The statements that go are the declaration of the element outside the loop, and those of the
body block that an occurrence stands in. -/
theorem mem_removedStatements (hu : unit.SingleUse) (hc : unit.Complete) :
    stmt ∈ c.removedStatements unit body ↔
      c.element.bind (·.outerDeclaration) = some stmt ∨
        unit.InBlock body stmt ∧ ∃ o ∈ c.occurrences, unit.StandsIn o stmt := by
  rw [removedStatements, List.mem_eraseDups, List.mem_append, Option.mem_toList,
    List.mem_filterMap]
  refine or_congr_right ⟨?_, ?_⟩
  · rintro ⟨o, ho, h⟩
    obtain ⟨hblock, hstands⟩ := (occurrenceStmt?_eq_some_iff hu hc).1 h
    exact ⟨hblock, o, ho, hstands⟩
  · rintro ⟨hblock, o, ho, hstands⟩
    exact ⟨o, ho, (occurrenceStmt?_eq_some_iff hu hc).2 ⟨hblock, hstands⟩⟩

theorem mem_remainingExprs (hb : unit.Grounded (.stmt body)) {id : ExprId} :
    id ∈ c.remainingExprs unit body ↔
      unit.Reaches (c.keepsParts (c.removedStatements unit body)) (.stmt body) (.expr id) := by
  rw [remainingExprs, List.mem_filterMap, ← hb.mem_nodesBelow]
  constructor
  · rintro ⟨node, hn, h⟩
    cases node with
    | stmt s => simp at h
    | expr e => exact Option.some.inj h ▸ hn
  · intro h
    exact ⟨_, h, rfl⟩

theorem replacedCalls_nodup (hu : unit.SingleUse) (hb : unit.Grounded (.stmt body)) :
    (c.replacedCalls unit body).Nodup := by
  refine ((hu.nodesBelow_nodup hb).filterMap fun a b id ha hb => ?_).filter _
  cases a <;> cases b <;> simp_all

/-- A call that is replaced is in no statement that goes and in no other advance call. -/
theorem mem_replacedCalls (hu : unit.SingleUse) (hb : unit.Grounded (.stmt body)) {id : ExprId} :
    id ∈ c.replacedCalls unit body ↔ id ∈ c.advanceCalls ∧ unit.Below (.stmt body) (.expr id) ∧
      ∀ m, unit.Below (.stmt body) m → unit.Below m (.expr id) → m ≠ .expr id →
        c.keepsParts (c.removedStatements unit body) m = true := by
  rw [replacedCalls, List.mem_filter, mem_remainingExprs hb, hu.reaches_iff hb,
    List.contains_iff_mem, and_comm]

end Classification
end EnhancedFor
