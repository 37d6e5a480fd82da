import EnhancedFor.Proofs.Loop.FieldElement
import EnhancedFor.Proofs.Loop.LinkedNames

/-!
What a plan does with the body of a loop. Main statement: a plan accounts for every advance call and
for every name of the element once. A call goes with a statement, becomes the name, or stands in a
call that does, and the linked positions are the header, the calls that became the name and the
names that stay.
-/

namespace EnhancedFor

namespace Plan

/-- What becomes of an advance call: it goes with a statement, the one step about it puts the name
in its place, or it stands in another call that has such a step. -/
inductive Settles (plan : Plan) (unit : CompilationUnit) (name : String) (call : ExprId) :
    Prop where
  | removed {s : StmtId} (hs : s ∈ plan.removedStatements) (hb : unit.Below (.stmt s) (.expr call))
  | replaced (h : plan.steps.filter (PlanStep.replaces call) = [.replaceWithName call name])
  | inside {outer : ExprId}
    (h : plan.steps.filter (PlanStep.replaces outer) = [.replaceWithName outer name])
    (hne : outer ≠ call) (hb : unit.Below (.expr outer) (.expr call))

/-- The name is a name of the element in the body, and neither a statement that goes nor a call that
becomes the name has it below. -/
structure Survives (plan : Plan) (unit : CompilationUnit) (var : VarId) (body : StmtId)
    (id : ExprId) : Prop where
  names : unit.Names var (.expr id)
  below : unit.Below (.stmt body) (.expr id)
  stmt : ∀ s ∈ plan.removedStatements, ¬ unit.Below (.stmt s) (.expr id)
  call : ∀ call ∈ plan.replacedCalls, ¬ unit.Below (.expr call) (.expr id)

/-- A plan for a loop with this body accounts for the advance calls and for the names of the
element. -/
structure Accounts (plan : Plan) (unit : CompilationUnit) (c : Classification) (body : StmtId)
    (name : String) : Prop where
  removed_nodup : plan.removedStatements.Nodup
  removed_apart : ∀ s ∈ plan.removedStatements, ∀ t ∈ plan.removedStatements, ∀ n,
    unit.Below (.stmt s) n → unit.Below (.stmt t) n → s = t
  settles : ∀ call ∈ c.advanceCalls, plan.Settles unit name call
  replaced_advance : ∀ call ∈ plan.replacedCalls, call ∈ c.advanceCalls
  replaced_stays : ∀ call ∈ plan.replacedCalls, ∀ s ∈ plan.removedStatements,
    ¬ unit.Below (.stmt s) (.expr call)
  replaced_apart : ∀ call ∈ plan.replacedCalls, ∀ other ∈ plan.replacedCalls,
    unit.Below (.expr other) (.expr call) → other = call
  positions : ∃ refs : List ExprId, plan.positions =
      .headerName :: plan.replacedCalls.map .replacement ++ refs.map .reference ∧
    plan.positions.Nodup ∧
    (plan.replacedCalls.map .expr).Sublist (unit.subtree (.stmt body)) ∧
    (refs.map .expr).Sublist (unit.subtree (.stmt body)) ∧
    ∀ id, id ∈ refs ↔ ∃ e, c.element = some e ∧ plan.Survives unit e.var body id

end Plan

namespace Classification

open CompilationUnit

variable {c : Classification} {unit : CompilationUnit} {store : TypeStore} {strict : Bool}
  {inits updates : List ExprId} {condition : Option ExprId} {body : StmtId}
  {names : Name.Candidates} {header : Header} {imports : ImportChanges}

/-- A call that becomes the name has one step. -/
theorem filter_replaces_planBody (hu : unit.SingleUse) (hg : unit.Grounded (.stmt body))
    {call : ExprId} (hcall : call ∈ c.replacedCalls unit body) :
    (c.planBody unit names body header imports).steps.filter (PlanStep.replaces call) =
      [.replaceWithName call header.name] := by
  have hremoved : ((c.removedStatements unit body).map PlanStep.removeStatement).filter
      (PlanStep.replaces call) = [] :=
    List.filter_eq_nil_iff.2 fun step hstep => by
      obtain ⟨s, -, rfl⟩ := List.mem_map.1 hstep
      exact Bool.false_ne_true
  have hreplaced : ((c.replacedCalls unit body).map
      (.replaceWithName · header.name)).filter (PlanStep.replaces call) =
        [.replaceWithName call header.name] := by
    have honce := List.count_eq_one_of_mem (replacedCalls_nodup hu hg) hcall
    rw [List.filter_map]
    show ((c.replacedCalls unit body).filter (· == call)).map _ = _
    rw [List.filter_beq, honce]
    rfl
  show (PlanStep.replaceLoop c.loop _ body ::
      (c.removedStatements unit body).map .removeStatement ++
    (c.replacedCalls unit body).map _).filter (PlanStep.replaces call) = _
  rw [List.filter_append, List.filter_cons_of_neg Bool.false_ne_true, hremoved, hreplaced]
  rfl

theorem map_remainingExprs_sublist (hg : unit.Grounded (.stmt body)) :
    ((c.remainingExprs unit body).map Node.expr).Sublist (unit.subtree (.stmt body)) := by
  refine List.Sublist.trans ?_ (@Grounded.nodesBelow_sublist unit
    (c.keepsParts (c.removedStatements unit body)) _ hg)
  unfold remainingExprs
  generalize unit.nodesBelow (.stmt body) _ = nodes
  induction nodes with
  | nil => exact .slnil
  | cons node nodes ih =>
    cases node with
    | stmt s => exact ih.cons _
    | expr e => exact ih.cons_cons _

/-- A node of the body is met by the walk through the parts that stay, or it is in a statement that
goes, or properly in a call that becomes the name. -/
theorem reaches_or_taken (hg : unit.Grounded (.stmt body)) {n : Node}
    (hb : unit.Below (.stmt body) n) :
    unit.Reaches (c.keepsParts (c.removedStatements unit body)) (.stmt body) n ∨
      (∃ s ∈ c.removedStatements unit body, unit.Below (.stmt s) n) ∨
      ∃ call ∈ c.replacedCalls unit body, .expr call ≠ n ∧ unit.Below (.expr call) n := by
  obtain ⟨m, hreach, hm, hcase⟩ := hb.exists_reached (c.keepsParts (c.removedStatements unit body))
  by_cases heq : m = n
  · exact .inl (heq ▸ hreach)
  · have hstop := hcase.resolve_left heq
    cases m with
    | stmt s =>
      have hs : s ∈ c.removedStatements unit body := by simpa [keepsParts] using hstop
      exact .inr (.inl ⟨s, hs, hm⟩)
    | expr call =>
      have hcall : call ∈ c.advanceCalls := by simpa [keepsParts] using hstop
      have hreplaced : call ∈ c.replacedCalls unit body :=
        List.mem_filter.2 ⟨(mem_remainingExprs hg).2 hreach, List.contains_iff_mem.2 hcall⟩
      exact .inr (.inr ⟨call, hreplaced, heq, hm⟩)

theorem nodup_positions {calls refs : List ExprId} (hcalls : calls.Nodup) (hrefs : refs.Nodup) :
    (LinkedPosition.headerName :: calls.map .replacement ++
      refs.map LinkedPosition.reference).Nodup := by
  have hreplacements : (calls.map LinkedPosition.replacement).Nodup :=
    hcalls.map fun _ _ h => LinkedPosition.replacement.inj h
  have hreferences : (refs.map LinkedPosition.reference).Nodup :=
    hrefs.map fun _ _ h => LinkedPosition.reference.inj h
  refine List.nodup_append.2 ⟨List.nodup_cons.2 ⟨by simp, hreplacements⟩, hreferences, ?_⟩
  intro p hp q hq heq
  subst heq
  obtain ⟨id, -, rfl⟩ := List.mem_map.1 hq
  simp at hp

section Accepted

variable (hacc : unit.Accepts store strict inits condition updates body c) (hu : unit.SingleUse)
  (hc : unit.Complete) (hg : unit.Grounded (.stmt body))

include hacc hu hg

theorem settles_planBody {call : ExprId} (hcall : call ∈ c.advanceCalls) :
    (c.planBody unit names body header imports).Settles unit header.name call := by
  have hbelow := ((mem_advanceCalls hg).1 (hacc.advanceCalls ▸ hcall)).1
  rcases reaches_or_taken (c := c) hg hbelow with hreach | ⟨s, hs, hb⟩ | ⟨outer, houter, hne, hb⟩
  · have hreplaced : call ∈ c.replacedCalls unit body :=
      List.mem_filter.2 ⟨(mem_remainingExprs hg).2 hreach, List.contains_iff_mem.2 hcall⟩
    exact .replaced (filter_replaces_planBody hu hg hreplaced)
  · exact .removed (removedStatements_planBody ▸ hs) hb
  · exact .inside (filter_replaces_planBody hu hg houter)
      (fun heq => hne (congrArg Node.expr heq)) hb

include hc in
/-- The linked references are the names of the element that survive. -/
theorem mem_references_iff {id : ExprId} : id ∈ c.references unit body ↔
    ∃ e, c.element = some e ∧ (c.planBody unit names body header imports).Survives unit e.var body
      id := by
  have hplain {e : Element} {call : ExprId} (hcall : call ∈ c.advanceCalls)
      (hname : unit.Names e.var (.expr call)) : False := by
    obtain ⟨receiver, name, args, method, hexpr⟩ :=
      exists_call_of_mem_advanceCalls (hacc.advanceCalls ▸ hcall)
    cases hname with
    | name h => simp [hexpr] at h
  unfold references
  rw [List.mem_filter, List.mem_filter, mem_remainingExprs hg, Bool.not_eq_true',
    ← Bool.not_eq_true, List.contains_iff_mem]
  constructor
  · rintro ⟨⟨hreach, hadvance⟩, hname⟩
    cases he : c.element with
    | none =>
      unfold isElementName at hname
      split at hname
      · simp [he] at hname
      · contradiction
    | some e =>
      refine ⟨e, rfl, (isElementName_iff he).1 hname, hreach.below, fun s hs => ?_,
        fun call hcall hb => ?_⟩
      · rw [removedStatements_planBody] at hs
        exact hacc.reached_stays hu hc hs hg hreach
      · rw [replacedCalls_planBody, mem_replacedCalls hu hg] at hcall
        obtain ⟨hcall, hbelow, -⟩ := hcall
        have hne : Node.expr call ≠ .expr id := fun heq => hadvance (Node.expr.inj heq ▸ hcall)
        have hkept := ((hu.reaches_iff hg).1 hreach).2 (.expr call) hbelow hb hne
        simp [keepsParts, hcall] at hkept
  · rintro ⟨e, he, hsurvives⟩
    refine ⟨⟨?_, fun hcall => hplain hcall hsurvives.names⟩,
      (isElementName_iff he).2 hsurvives.names⟩
    rcases reaches_or_taken (c := c) hg hsurvives.below with hreach | ⟨s, hs, hb⟩ |
      ⟨call, hcall, -, hb⟩
    · exact hreach
    · exact (hsurvives.stmt s (removedStatements_planBody ▸ hs) hb).elim
    · exact (hsurvives.call call (replacedCalls_planBody ▸ hcall) hb).elim

end Accepted

/-- For every accepted loop in the code of a unit that uses no node twice and has all nodes of its
trees, and for every list of names: a plan has a new header, and it accounts for all advance calls
and for all names of the element, with the name of the header. There is a plan if the unit is bound
in a closed store. -/
theorem plan_accounts (store : TypeStore) (options : ClassifyOptions) (loop : StmtId)
    (names : Name.Candidates) (hu : unit.SingleUse) (hc : unit.Complete)
    (hr : unit.Rooted (.stmt loop)) (hclass : unit.classify store options loop = .ok (.ok c))
    (hloop : unit.stmt? loop = some (.forLoop inits condition updates body)) :
    (∀ plan, c.plan unit store names = .ok plan →
      ∃ header, plan.header? = some header ∧ plan.Accounts unit c body header.name) ∧
    (unit.BoundIn store → store.Closed → ∃ plan, c.plan unit store names = .ok plan) := by
  obtain ⟨rfl, hacc⟩ := accepts_of_classify_loop hclass hloop
  refine ⟨fun plan hplan => ?_, fun hbound hclosed =>
    hacc.exists_plan (hu.complete_iff.2 hc) hbound hclosed names⟩
  obtain ⟨-, header, hheader, rfl⟩ := plan_eq_ok hloop hplan
  obtain ⟨-, -, -, -, -, hiterable⟩ := header_eq_ok hheader
  have hg := hacc.grounded_body hu hc hr
  let r := hacc.rewriting hu hc hr header hiterable
  have hremaining := map_remainingExprs_sublist (c := c) hg
  have hcalls : ((c.replacedCalls unit body).map Node.expr).Sublist (unit.subtree (.stmt body)) :=
    (List.filter_sublist.map _).trans hremaining
  have hrefs : ((c.references unit body).map Node.expr).Sublist (unit.subtree (.stmt body)) :=
    ((List.filter_sublist.trans List.filter_sublist).map _).trans hremaining
  have hnodup : (unit.subtree (.stmt body)).Nodup := hu.nodesBelow_nodup hg
  refine ⟨header, header?_planBody, ?_⟩
  generalize c.plannedImports unit store body = imports
  have hpositions : (c.planBody unit names body header imports).positions =
      .headerName :: (c.replacedCalls unit body).map .replacement ++
        (c.references unit body).map .reference := rfl
  constructor
  case removed_nodup =>
    rw [removedStatements_planBody]
    exact r.removed_nodup
  case removed_apart =>
    rw [removedStatements_planBody]
    have hsame {s t : StmtId} (hs : s ∈ r.removed) (ht : t ∈ r.removed)
        (hb : unit.Below (.stmt s) (.stmt t)) : t = s :=
      Node.stmt.inj (r.eq_of_below_removed hu hc hs (r.mem_nodes.2 (.inr (.inl ⟨t, ht, rfl⟩))) hb)
    intro s hs t ht n hsn htn
    rcases hu.below_linear hsn htn with hb | hb
    · exact (hsame hs ht hb).symm
    · exact hsame ht hs hb
  case settles => exact fun call hcall => settles_planBody hacc hu hg hcall
  case replaced_advance =>
    rw [replacedCalls_planBody]
    exact fun call hcall => ((mem_replacedCalls hu hg).1 hcall).1
  case replaced_stays =>
    rw [replacedCalls_planBody, removedStatements_planBody]
    exact fun call hcall s hs => r.replaced_stays s hs call hcall
  case replaced_apart =>
    rw [replacedCalls_planBody]
    exact fun call hcall other hother hb => (r.replaced_apart other hother call hcall hb).symm
  case positions =>
    rw [replacedCalls_planBody]
    refine ⟨c.references unit body, hpositions, ?_, hcalls, hrefs, fun id => ?_⟩
    · rw [hpositions]
      exact nodup_positions (replacedCalls_nodup hu hg) ((hnodup.sublist hrefs).of_map _)
    · exact mem_references_iff hacc hu hc hg

end Classification

namespace Strings

/-- The loop with `use(s, it.next().it.next());` at the end of its body. -/
def chained : CompilationUnit :=
  { unit with
    exprs := unit.exprs ++ #[.name store ⟨1⟩, .name store ⟨2⟩, .call store (some ⟨10⟩) ⟨2⟩ [] none,
      .field store ⟨11⟩ ⟨2⟩, .call store (some ⟨12⟩) ⟨2⟩ [] none,
      .unresolvedCall none "use" [⟨9⟩, ⟨13⟩]]
    stmts := #[.declare (store.declaration [(⟨1⟩, none)]), .eval ⟨8⟩, .block [⟨1⟩, ⟨5⟩],
      .forLoop [⟨2⟩] (some ⟨4⟩) [] ⟨2⟩, .block [⟨0⟩, ⟨3⟩], .eval ⟨14⟩] }

theorem singleUse_chained : chained.SingleUse := by decide

/-- One call goes with the assignment, one becomes the name, and one is inside of it. -/
theorem chained_calls_settled : chained.BoundIn store ∧ store.Closed ∧ ∃ c plan,
    chained.classify store ⟨false, ⟨17⟩⟩ ⟨3⟩ = .ok (.ok c) ∧ c.advanceCalls = [⟨7⟩, ⟨13⟩, ⟨11⟩] ∧
      c.plan chained store (.ofList ["s"]) = .ok plan ∧ plan.removedStatements = [⟨0⟩, ⟨1⟩] ∧
      plan.positions = [.headerName, .replacement ⟨13⟩, .reference ⟨9⟩] ∧
      plan.Accounts chained c ⟨2⟩ "s" := by
  have hc : chained.Complete := singleUse_chained.complete_iff.1 rfl
  have hr : chained.Rooted (.stmt ⟨3⟩) := ⟨.stmt ⟨4⟩, by decide, .single (by decide)⟩
  have haccepted : ∃ c plan header, chained.classify store ⟨false, ⟨17⟩⟩ ⟨3⟩ = .ok (.ok c) ∧
      c.advanceCalls = [⟨7⟩, ⟨13⟩, ⟨11⟩] ∧ c.plan chained store (.ofList ["s"]) = .ok plan ∧
      plan.removedStatements = [⟨0⟩, ⟨1⟩] ∧
      plan.positions = [.headerName, .replacement ⟨13⟩, .reference ⟨9⟩] ∧
      plan.header? = some header ∧ header.name = "s" := by
    refine ⟨_, _, _, rfl, ?_, rfl, ?_, ?_, rfl, ?_⟩
    all_goals decide +kernel
  obtain ⟨c, plan, header, hclass, hcalls, hplan, hremoved, hpositions, hheader, hname⟩ := haccepted
  obtain ⟨haccounts, hplanned⟩ := Classification.plan_accounts store ⟨false, ⟨17⟩⟩ ⟨3⟩
    (.ofList ["s"]) singleUse_chained hc hr hclass rfl
  have hbound : chained.BoundIn store := by decide
  obtain ⟨plan', hplan'⟩ := hplanned hbound closed_store
  obtain rfl := Except.ok.inj (hplan.symm.trans hplan')
  obtain ⟨header', hheader', haccounts⟩ := haccounts plan hplan
  obtain rfl := Option.some.inj (hheader.symm.trans hheader')
  exact ⟨hbound, closed_store, c, plan, hclass, hcalls, hplan, hremoved, hpositions,
    hname ▸ haccounts⟩

end Strings
end EnhancedFor
