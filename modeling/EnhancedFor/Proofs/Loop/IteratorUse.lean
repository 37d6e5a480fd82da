import EnhancedFor.Proofs.Loop.OuterElement
import EnhancedFor.Proofs.Loop.Plan

/-!
Uses of the iterator in the body of a loop. The classifier looks for uses other than advance calls,
and the plan takes the advance calls away. Main statement: under the strict rules nothing that stays
in the body refers to the iterator.
-/

namespace EnhancedFor

/-- Whether the parts of a node of the body stay as they are. Statements that go and calls that are
replaced take theirs with them. -/
def Plan.keepsParts (plan : Plan) : Node → Bool
  | .stmt id => !plan.removedStatements.contains id
  | .expr id => !plan.replacedCalls.contains id

namespace CompilationUnit

variable {unit : CompilationUnit} {store : TypeStore} {iterator : VarId} {body : StmtId}
  {calls : List ExprId} {node : Node}

theorem mem_advanceCalls (hg : unit.Grounded (.stmt body)) {id : ExprId} :
    id ∈ unit.advanceCalls store iterator body ↔
      unit.Below (.stmt body) (.expr id) ∧ unit.isAdvance store iterator id = true := by
  rw [advanceCalls, List.mem_filterMap, ← hg.mem_subtree]
  constructor
  · rintro ⟨node, hn, h⟩
    cases node with
    | stmt s => simp at h
    | expr e =>
      obtain ⟨hadvance, he⟩ := Option.ite_none_right_eq_some.1 h
      obtain rfl := Option.some.inj he
      exact ⟨hn, hadvance⟩
  · rintro ⟨hn, hadvance⟩
    exact ⟨.expr id, hn, if_pos hadvance⟩

/-- The node is in the receiver of one of the calls. -/
def InReceiver (unit : CompilationUnit) (calls : List ExprId) (node : Node) : Prop :=
  ∃ id ∈ calls, ∃ receiver name args method,
    unit.expr? id = some (.call (some receiver) name args method) ∧
      unit.Below (.expr receiver) node

/-- The iterator does not escape exactly if each reference to it is in the receiver of one of the
calls. -/
theorem iteratorEscapes_eq_false_iff (hu : unit.SingleUse) (hg : unit.Grounded (.stmt body)) :
    unit.iteratorEscapes iterator body calls = false ↔
      ∀ node, unit.Below (.stmt body) node → unit.Refers iterator node →
        unit.InReceiver calls node := by
  rw [iteratorEscapes, List.any_eq_false]
  simp only [hu.mem_nodesBelow_filter hg, refersAt_iff]
  constructor
  · intro h node hb hr
    by_contra hnone
    refine h node ⟨hb, fun m _ hm => ?_⟩ hr
    -- A receiver above the reference would belong to one of the calls.
    rw [List.any_eq_false]
    intro receiver hreceiver heq
    obtain rfl := beq_iff_eq.1 heq
    obtain ⟨id, hid, hcall⟩ := List.mem_filterMap.1 hreceiver
    split at hcall
    · rename_i found name args method hexpr
      subst hcall
      exact hnone ⟨id, hid, receiver, name, args, method, hexpr, hm⟩
    · contradiction
  · rintro h node ⟨hb, hcut⟩ hr
    obtain ⟨id, hid, receiver, name, args, method, hexpr, hm⟩ := h node hb hr
    have hin : unit.Below (.stmt body) (.expr receiver) := by
      rcases hu.below_linear hb hm with hdown | hup
      · exact hdown
      · obtain ⟨e, heq⟩ := exists_expr_of_below hup
        cases heq
    have hfree := List.any_eq_false.1 (hcut _ hin hm) receiver
      (List.mem_filterMap.2 ⟨id, hid, by rw [hexpr]⟩)
    simp at hfree

theorem not_escapes_of_strictRejection? {condition : Option ExprId} {updates : List ExprId}
    (h : unit.strictRejection? store iterator condition updates body calls = none) :
    unit.iteratorEscapes iterator body calls = false :=
  (strictRejection?_eq_none_iff.1 h).2.2

end CompilationUnit

namespace Classification

open CompilationUnit Relation

variable {c : Classification} {unit : CompilationUnit} {store : TypeStore} {body : StmtId}
  {names : Name.Candidates} {header : Header} {imports : ImportChanges} {node : Node}

/-- The first advance call on a path into the body is replaced. So a path through what stays meets
no advance call before its end. -/
theorem reaches_keepsParts (hg : unit.Grounded (.stmt body))
    (h : unit.Reaches (c.planBody unit names body header imports).keepsParts (.stmt body) node) :
    unit.Reaches (c.keepsParts (c.removedStatements unit body)) (.stmt body) node := by
  induction h with
  | refl => exact .refl
  | @tail up node _ hstep ih =>
    refine ih.tail ⟨?_, hstep.2⟩
    have hkeeps := hstep.1
    cases up with
    | stmt id =>
      rw [Plan.keepsParts, removedStatements_planBody] at hkeeps
      exact hkeeps
    | expr id =>
      rw [Plan.keepsParts, replacedCalls_planBody, Bool.not_eq_true', ← Bool.not_eq_true,
        List.contains_iff_mem, replacedCalls, List.mem_filter, mem_remainingExprs hg] at hkeeps
      rw [keepsParts, Bool.not_eq_true']
      exact Bool.eq_false_iff.2 fun hcall => hkeeps ⟨ih, hcall⟩

/-- For a loop accepted under the strict rules, with a body that is finite and known: a walk through
the body that goes neither below the statements that the plan removes nor below the calls that it
replaces meets no reference to the iterator. -/
theorem not_refers_iterator (store : TypeStore) (options : ClassifyOptions) (loop : StmtId)
    {inits updates : List ExprId} {condition : Option ExprId} {plan : Plan} (hu : unit.SingleUse)
    (hstrict : options.strict = true) (hclass : unit.classify store options loop = .ok (.ok c))
    (hloop : unit.stmt? loop = some (.forLoop inits condition updates body))
    (hg : unit.Grounded (.stmt body)) (hplan : c.plan unit store names = .ok plan) :
    ∀ node ∈ unit.nodesBelow (.stmt body) plan.keepsParts, ¬ unit.Refers c.iterator node := by
  intro node hnode hrefers
  obtain ⟨-, rfl, inits', condition', updates', body', hacc⟩ := accepts_of_classify hclass
  obtain ⟨rfl, rfl, rfl, rfl⟩ :
      inits' = inits ∧ condition' = condition ∧ updates' = updates ∧ body' = body := by
    simpa using hacc.isLoop.symm.trans hloop
  obtain ⟨-, header, -, rfl⟩ := plan_eq_ok hloop hplan
  have hreach := reaches_keepsParts hg (hg.mem_nodesBelow.1 hnode)
  have hescapes := not_escapes_of_strictRejection? (hacc.rules hstrict)
  obtain ⟨id, hid, receiver, name, args, method, hcall, hbelow⟩ :=
    (iteratorEscapes_eq_false_iff hu hg).1 hescapes _ hreach.below hrefers
  -- The call of that receiver is above the reference, and the walk does not go below advance calls.
  have hkid : .expr receiver ∈ unit.kids (.expr id) := by
    rw [kids_expr hcall]
    exact List.mem_map_of_mem (List.mem_append_left _ List.mem_cons_self)
  have hin := ((mem_advanceCalls hg).1 (hacc.advanceCalls ▸ hid)).1
  have hne : Node.expr id ≠ node := by
    rintro rfl
    exact (hg.below hin).not_below hkid hbelow
  have hkeeps := ((hu.reaches_iff hg).1 hreach).2 (.expr id) hin (.head hkid hbelow) hne
  simp [keepsParts, hid] at hkeeps

end Classification

namespace Strings

/-- A method that loops over `xs`, with `if (it.next() != null) ;` for a body. -/
def testing : CompilationUnit :=
  { unit with
    exprs := #[.name store ⟨0⟩, .call store (some ⟨0⟩) ⟨0⟩ [] none,
      .declare store [(⟨2⟩, some ⟨1⟩)], .name store ⟨2⟩, .call store (some ⟨3⟩) ⟨1⟩ [] none,
      .name store ⟨2⟩, .call store (some ⟨5⟩) ⟨2⟩ [] none, .literal .null "null" none,
      .binary .ne ⟨6⟩ ⟨7⟩ none]
    stmts := #[.empty, .branch ⟨8⟩ ⟨0⟩ none, .block [⟨1⟩], .forLoop [⟨2⟩] (some ⟨4⟩) [] ⟨2⟩,
      .block [⟨3⟩]] }

theorem singleUse_testing : testing.SingleUse := by decide

theorem backward_testing : testing.Backward := by decide

theorem grounded_testing : testing.Grounded (.stmt ⟨2⟩) := backward_testing.grounded rfl

/-- The call in the condition stays as a name, and the iterator in it goes. -/
theorem iterator_gone_from_condition : ∃ c plan,
    testing.classify store ⟨true, ⟨17⟩⟩ ⟨3⟩ = .ok (.ok c) ∧
      c.plan testing store (.ofList ["s"]) = .ok plan ∧ plan.replacedCalls = [⟨6⟩] ∧
      testing.Refers c.iterator (.expr ⟨5⟩) ∧ .expr ⟨5⟩ ∈ testing.subtree (.stmt ⟨2⟩) ∧
      .expr ⟨6⟩ ∈ testing.nodesBelow (.stmt ⟨2⟩) plan.keepsParts ∧
      ∀ node ∈ testing.nodesBelow (.stmt ⟨2⟩) plan.keepsParts,
      ¬ testing.Refers c.iterator node := by
  refine ⟨_, _, rfl, rfl, by decide, .name rfl, by decide, by decide, ?_⟩
  exact Classification.not_refers_iterator store ⟨true, ⟨17⟩⟩ ⟨3⟩ singleUse_testing rfl rfl rfl
    grounded_testing rfl

end Strings
end EnhancedFor
