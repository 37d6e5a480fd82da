import EnhancedFor.Proofs.Loop.OuterElement
import EnhancedFor.Proofs.Loop.Plan

/-!
What is lost with the statements that a plan removes from the loop body. Main statement: nothing but
the element's own declarations and assignments goes exactly if no occurrence shares its statement
with other code. The plan looks at the nearest statement only, and that may be a branch, a loop, a
return or a declaration of other variables.
-/

namespace EnhancedFor
namespace CompilationUnit

variable {unit : CompilationUnit} {store : TypeStore} {occurrences : List Occurrence}
  {iterator : VarId} {type : TypeId} {body stmt : StmtId}

/-- The first expression is the second in any parentheses. -/
inductive InParens (unit : CompilationUnit) : ExprId → ExprId → Prop where
  | here {id : ExprId} : InParens unit id id
  | paren {id inner core : ExprId} (h : unit.expr? id = some (.paren inner))
    (hp : InParens unit inner core) : InParens unit id core

/-- A statement that does nothing but give an element to a variable: an assignment that is an
occurrence, or a declaration of one variable that is. -/
inductive OnlyGives (unit : CompilationUnit) (occurrences : List Occurrence) (stmt : StmtId) :
    Prop where
  | assignment {e id target : ExprId} (h : unit.stmt? stmt = some (.eval e))
    (hp : unit.InParens e id) (ho : .assignment id target ∈ occurrences) :
    OnlyGives unit occurrences stmt
  | declaration {type : TypeRef} {fragment : Fragment} {var : VarId}
    (h : unit.stmt? stmt = some (.declare ⟨type, [fragment]⟩)) (hb : fragment.binding = some var)
    (ho : .declaration stmt var ∈ occurrences) : OnlyGives unit occurrences stmt

/-- A statement with more to it: a condition with its branches or its body, a loop over an iterable,
a result, an expression around an occurrence, further variables, or a variable other than an
element. -/
inductive Loses (unit : CompilationUnit) (occurrences : List Occurrence) (stmt : StmtId) :
    Prop where
  | branch {condition : ExprId} {thenBranch : StmtId} {elseBranch : Option StmtId}
    (h : unit.stmt? stmt = some (.branch condition thenBranch elseBranch)) :
    Loses unit occurrences stmt
  | whileLoop {condition : ExprId} {body : StmtId}
    (h : unit.stmt? stmt = some (.whileLoop condition body)) : Loses unit occurrences stmt
  | forEach {param : Parameter} {iterable : ExprId} {body : StmtId}
    (h : unit.stmt? stmt = some (.forEach param iterable body)) : Loses unit occurrences stmt
  | ret {value : Option ExprId} (h : unit.stmt? stmt = some (.ret value)) :
    Loses unit occurrences stmt
  | expression {e : ExprId} (h : unit.stmt? stmt = some (.eval e))
    (hne : ∀ id target, .assignment id target ∈ occurrences → ¬ unit.InParens e id) :
    Loses unit occurrences stmt
  | fragments {decl : Declaration} (h : unit.stmt? stmt = some (.declare decl))
    (hlen : decl.fragments.length ≠ 1) : Loses unit occurrences stmt
  | otherVariable {decl : Declaration} (h : unit.stmt? stmt = some (.declare decl))
    (hne : ∀ var, .declaration stmt var ∉ occurrences) : Loses unit occurrences stmt

theorem OnlyGives.not_loses (h : unit.OnlyGives occurrences stmt) :
    ¬ unit.Loses occurrences stmt := by
  intro hl
  cases h with
  | assignment h hp ho =>
    cases hl with
    | expression h' hne =>
      obtain rfl := Stmt.eval.inj (Option.some.inj (h.symm.trans h'))
      exact hne _ _ ho hp
    | branch h' | whileLoop h' | forEach h' | ret h' | fragments h' _ | otherVariable h' _ =>
      simp [h] at h'
  | declaration h hb ho =>
    cases hl with
    | fragments h' hlen =>
      obtain rfl := Stmt.declare.inj (Option.some.inj (h.symm.trans h'))
      exact hlen rfl
    | otherVariable _ hne => exact hne _ ho
    | branch h' | whileLoop h' | forEach h' | ret h' | expression h' _ => simp [h] at h'

/-- A declaration that holds an occurrence of its own gives elements only, unless it declares
more. -/
theorem onlyGives_or_loses_of_declaration
    (hrec : ∀ o ∈ occurrences, unit.Recognized store iterator type o) {var : VarId}
    (ho : .declaration stmt var ∈ occurrences) :
    unit.OnlyGives occurrences stmt ∨ unit.Loses occurrences stmt := by
  cases hrec _ ho with
  | @declaration _ decl f _ _ h hf hb _ _ _ =>
    by_cases hlen : decl.fragments.length = 1
    · obtain ⟨typeRef, fragments⟩ := decl
      obtain ⟨fragment, rfl⟩ := List.length_eq_one_iff.1 hlen
      obtain rfl := List.mem_singleton.1 hf
      exact .inl (.declaration h hb ho)
    · exact .inr (.fragments h hlen)

/-- A statement of the body block that an occurrence stands in is of one of the two kinds. -/
theorem onlyGives_or_loses (hu : unit.SingleUse) (hc : unit.Complete)
    (hocc : occurrences = unit.occurrences store iterator type body)
    (hblock : unit.InBlock body stmt) {o : Occurrence} (ho : o ∈ occurrences)
    (hs : unit.StandsIn o stmt) :
    unit.OnlyGives occurrences stmt ∨ unit.Loses occurrences stmt := by
  have hrec : ∀ o ∈ occurrences, unit.Recognized store iterator type o := by
    intro o ho
    exact recognized_of_mem_occurrences (hocc ▸ ho)
  cases hs with
  | declaration => exact onlyGives_or_loses_of_declaration hrec ho
  | @assignment _ id target e hr he hb =>
    obtain ⟨s, hsome⟩ : ∃ s, unit.stmt? stmt = some s := by
      have := contains_iff.1 (contains_of_mem_kids he)
      obtain ⟨s, hsome, -⟩ := Option.map_eq_some_iff.1 this
      exact ⟨s, hsome⟩
    rw [kids_stmt hsome] at he
    cases s with
    | block statements => simp [Stmt.children] at he
    | empty => simp [Stmt.children] at he
    | branch => exact .inr (.branch hsome)
    | whileLoop => exact .inr (.whileLoop hsome)
    | forEach => exact .inr (.forEach hsome)
    | ret => exact .inr (.ret hsome)
    | eval e =>
      by_cases hp : ∃ id target, .assignment id target ∈ occurrences ∧ unit.InParens e id
      · obtain ⟨id, target, ho, hp⟩ := hp
        exact .inl (.assignment hsome hp ho)
      · exact .inr (.expression hsome fun id target ho hin => hp ⟨id, target, ho, hin⟩)
    | declare decl =>
      by_cases hd : ∃ var, .declaration stmt var ∈ occurrences
      · obtain ⟨var, hd⟩ := hd
        exact onlyGives_or_loses_of_declaration hrec hd
      · exact .inr (.otherVariable hsome fun var h => hd ⟨var, h⟩)
    | forLoop inits condition updates inner =>
      -- The search does not go below counted loops, so the assignment is not in one.
      have hkid := hblock.mem_kids
      have hg := hu.grounded hc (hu.rooted_parent hr hkid)
      have hreach := reaches_of_mem_occurrences hg (hocc ▸ ho)
      have hbelow : unit.Below (.stmt stmt) (.expr id) := by
        refine .head ?_ hb
        rw [kids_stmt hsome]
        exact he
      have hsearched := ((hu.reaches_iff hg).1 hreach).2 (.stmt stmt) (.single hkid) hbelow
        (by simp [Occurrence.node])
      simp [searched, hsome] at hsearched

end CompilationUnit

/-- For an accepted loop and its plan: a statement in the loop body is removed exactly if it is a
statement of the body block and the nearest one around an occurrence; and all statements removed
there only give elements exactly if none of these has more to it. -/
theorem Classification.removed_from_body {c : Classification} {unit : CompilationUnit}
    (store : TypeStore) (options : ClassifyOptions) (loop : StmtId) {body : StmtId}
    {inits updates : List ExprId} {condition : Option ExprId} {names : Name.Candidates}
    {plan : Plan} (hu : unit.SingleUse)
    (hclass : unit.classify store options loop = .ok (.ok c))
    (hloop : unit.stmt? loop = some (.forLoop inits condition updates body))
    (hplan : c.plan unit store names = .ok plan) :
    (∀ stmt, unit.Below (.stmt body) (.stmt stmt) → (stmt ∈ plan.removedStatements ↔
      unit.InBlock body stmt ∧ ∃ o ∈ c.occurrences, unit.StandsIn o stmt)) ∧
    ((∀ stmt ∈ plan.removedStatements, unit.Below (.stmt body) (.stmt stmt) →
        unit.OnlyGives c.occurrences stmt) ↔
      ∀ stmt, unit.InBlock body stmt → ∀ o ∈ c.occurrences, unit.StandsIn o stmt →
        ¬ unit.Loses c.occurrences stmt) := by
  obtain ⟨-, rfl, inits, condition, updates, body', hacc⟩ :=
    CompilationUnit.accepts_of_classify hclass
  obtain ⟨rfl, rfl, rfl, rfl⟩ : inits = _ ∧ condition = _ ∧ updates = _ ∧ body' = body := by
    simpa using hacc.isLoop.symm.trans hloop
  obtain ⟨hcomplete, header, -, rfl⟩ := plan_eq_ok hloop hplan
  have hc := hu.complete_iff.1 hcomplete
  have hmem (stmt : StmtId) (hb : unit.Below (.stmt body') (.stmt stmt)) :
      stmt ∈ c.removedStatements unit body' ↔
        unit.InBlock body' stmt ∧ ∃ o ∈ c.occurrences, unit.StandsIn o stmt := by
    rw [mem_removedStatements hu hc, or_iff_right]
    intro houter
    have hout := (CompilationUnit.findElement_eq_some hacc.element houter).1
    exact ((CompilationUnit.mem_nodesOutside hu hc).1 hout).2 hb
  rw [removedStatements_planBody]
  refine ⟨hmem, fun h stmt hblock o ho hs => ?_, fun h stmt hstmt hb => ?_⟩
  · have hb : unit.Below (.stmt body') (.stmt stmt) := .single hblock.mem_kids
    exact (h stmt ((hmem stmt hb).2 ⟨hblock, o, ho, hs⟩) hb).not_loses
  · obtain ⟨hblock, o, ho, hs⟩ := (hmem stmt hb).1 hstmt
    exact (CompilationUnit.onlyGives_or_loses hu hc hacc.occurrences hblock ho hs).resolve_right
      (h stmt hblock o ho hs)

namespace Strings

/-- The body of the loop loses its one statement, which is the assignment of the element. -/
theorem only_assignment_removed : ∃ c plan,
    unit.classify store ⟨true, ⟨17⟩⟩ ⟨3⟩ = .ok (.ok c) ∧
      c.plan unit store (.ofList ["s"]) = .ok plan ∧ ⟨1⟩ ∈ plan.removedStatements ∧
      ∀ stmt ∈ plan.removedStatements, unit.Below (.stmt ⟨2⟩) (.stmt stmt) →
        unit.OnlyGives c.occurrences stmt := by
  refine ⟨_, _, rfl, rfl, by decide, ?_⟩
  refine (Classification.removed_from_body store ⟨true, ⟨17⟩⟩ ⟨3⟩ singleUse rfl rfl rfl).2.2 ?_
  rintro stmt ⟨statements, hblock, hmem⟩ o - - hloses
  have hbody : unit.stmt? ⟨2⟩ = some (.block [⟨1⟩]) := rfl
  have hstmt : unit.stmt? ⟨1⟩ = some (.eval ⟨8⟩) := rfl
  rw [hbody] at hblock
  obtain rfl := Stmt.block.inj (Option.some.inj hblock)
  obtain rfl := List.mem_singleton.1 hmem
  cases hloses with
  | expression h hne =>
    obtain rfl := Stmt.eval.inj (Option.some.inj (hstmt.symm.trans h))
    exact hne ⟨8⟩ ⟨5⟩ (by decide) .here
  | branch h | whileLoop h | forEach h | ret h | fragments h _ | otherVariable h _ =>
    simp [hstmt] at h

/-- The method with `if ((s = it.next()) != null) s;` for a body. -/
def branching : CompilationUnit :=
  { unit with
    types := [⟨"Main", none, [], [⟨"run", none, [store.parameter ⟨0⟩], some ⟨5⟩⟩]⟩]
    exprs := unit.exprs ++ #[.paren unit ⟨8⟩, .literal .null "null" none,
      .binary .ne ⟨9⟩ ⟨10⟩ none, .name store ⟨1⟩]
    stmts := #[.declare (store.declaration [(⟨1⟩, none)]), .eval ⟨12⟩,
      .branch ⟨11⟩ ⟨1⟩ none, .block [⟨2⟩], .forLoop [⟨2⟩] (some ⟨4⟩) [] ⟨3⟩, .block [⟨0⟩, ⟨4⟩]] }

/-- Here the whole branch goes with the assignment in its condition. -/
theorem branch_removed_with_assignment : branching.SingleUse ∧ ∃ c plan,
    branching.classify store ⟨true, ⟨17⟩⟩ ⟨4⟩ = .ok (.ok c) ∧
      c.plan branching store (.ofList ["s"]) = .ok plan ∧
      ⟨2⟩ ∈ plan.removedStatements ∧ branching.InBlock ⟨3⟩ ⟨2⟩ ∧
      branching.stmt? ⟨2⟩ = some (.branch ⟨11⟩ ⟨1⟩ none) ∧
      ¬ branching.OnlyGives c.occurrences ⟨2⟩ := by
  refine ⟨by decide, _, _, rfl, rfl, by decide, ⟨_, rfl, by decide⟩, rfl, fun h => ?_⟩
  exact h.not_loses (.branch rfl)

end Strings
end EnhancedFor
