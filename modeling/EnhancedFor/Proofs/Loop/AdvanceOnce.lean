import EnhancedFor.Proofs.Syntax.Evaluation
import EnhancedFor.Proofs.Loop.IteratorUse

/-!
How often one round of a loop advances its iterator. The strict rules count the advance calls in the
text of the body. Main statement: a loop is accepted under them exactly if it is accepted without
and four conditions hold, none of them about what stands around the call; then there is at most one
call, and if nothing guards or repeats it, each round that no return cuts short advances the
iterator exactly once.
-/

namespace EnhancedFor

namespace CompilationUnit

variable {unit : CompilationUnit} {store : TypeStore} {iterator : VarId} {body : StmtId}
  {trace : List Node}

def advancesAt (unit : CompilationUnit) (store : TypeStore) (iterator : VarId) : Node → Bool
  | .expr id => unit.isAdvance store iterator id
  | .stmt _ => false

/-- How often a run advances the iterator. -/
def advances (unit : CompilationUnit) (store : TypeStore) (iterator : VarId) (trace : List Node) :
    Nat :=
  trace.countP (unit.advancesAt store iterator)

/-- A run of the body advances the iterator by the only advance call there is. -/
theorem advances_eq_count (hg : unit.Grounded (.stmt body)) {id : ExprId}
    (hcalls : unit.advanceCalls store iterator body = [id]) (h : unit.Runs [.stmt body] trace) :
    unit.advances store iterator trace = trace.count (.expr id) := by
  refine List.countP_congr fun node hn => ?_
  rw [beq_iff_eq]
  constructor
  · intro hadvances
    cases node with
    | stmt s => simp [advancesAt] at hadvances
    | expr e =>
      obtain ⟨m, hm, hb⟩ := h.exists_below hn
      obtain rfl := List.mem_singleton.1 hm
      have hmem := (mem_advanceCalls hg).2 ⟨hb, hadvances⟩
      rw [hcalls, List.mem_singleton] at hmem
      rw [hmem]
  · rintro rfl
    exact ((mem_advanceCalls hg).1 (hcalls ▸ List.mem_singleton_self id)).2

end CompilationUnit

open CompilationUnit

/-- For a loop with a body that is finite and known: the strict rules accept it exactly if it is
accepted without them, nothing is updated, the condition asks the iterator for more, the body has at
most one advance call, and each reference to the iterator in the body is in the receiver of one. For
an accepted loop, the advance calls of the classification are all there are in the body, and there
is at most one. If no branch, loop or short-circuit operator stands between the body and the call, a
run of the body advances the iterator exactly once, or not at all because a return elsewhere ends
it. -/
theorem Classification.advances_once {c : Classification} {unit : CompilationUnit}
    (store : TypeStore) (level : Java.Level) (loop : StmtId) {body : StmtId}
    {inits updates : List ExprId} {condition : Option ExprId} (hu : unit.SingleUse)
    (hloop : unit.stmt? loop = some (.forLoop inits condition updates body))
    (hg : unit.Grounded (.stmt body)) :
    (unit.classify store ⟨true, level⟩ loop = .ok (.ok c) ↔
      unit.classify store ⟨false, level⟩ loop = .ok (.ok c) ∧ updates = [] ∧
      (∃ e, condition = some e ∧
        unit.isCallOn store c.iterator testMethods (unit.strip e) = true) ∧
      c.advanceCalls.length ≤ 1 ∧
      ∀ node, unit.Below (.stmt body) node → unit.Refers c.iterator node →
        unit.InReceiver c.advanceCalls node) ∧
    (unit.classify store ⟨true, level⟩ loop = .ok (.ok c) →
      c.advanceCalls.length ≤ 1 ∧
      (∀ id, id ∈ c.advanceCalls ↔
        unit.Below (.stmt body) (.expr id) ∧ unit.isAdvance store c.iterator id = true) ∧
      ∀ id ∈ c.advanceCalls, unit.Unguarded (.stmt body) (.expr id) →
        ∀ trace, unit.Runs [.stmt body] trace →
          unit.advances store c.iterator trace = 1 ∨
            unit.advances store c.iterator trace = 0 ∧
              unit.ReturnsElsewhere trace (.expr id)) := by
  constructor
  · rw [classify_strict_iff hloop, strictRejection?_eq_none_iff, Bool.and_eq_true,
      List.isEmpty_iff, Option.any_eq_true, iteratorEscapes_eq_false_iff hu hg, and_assoc]
  intro hclass
  obtain ⟨rfl, hacc⟩ := accepts_of_classify_loop hclass hloop
  obtain ⟨-, hlength, -⟩ := strictRejection?_eq_none_iff.1 (hacc.rules rfl)
  refine ⟨hlength, fun id => hacc.advanceCalls ▸ mem_advanceCalls hg, ?_⟩
  intro id hid hpath trace hrun
  have honly : unit.advanceCalls store c.iterator body = [id] := by
    have hpos := List.length_pos_of_mem hid
    obtain ⟨only, heq⟩ := List.length_eq_one_iff.1 (Nat.le_antisymm hlength hpos)
    rw [heq, List.mem_singleton] at hid
    rw [← hacc.advanceCalls, heq, hid]
  rw [advances_eq_count hg honly hrun]
  exact hrun.evaluatesOnce_root hu hg hpath

namespace Strings

/-- A round of the loop with `if (it.next() != null) ;` for a body evaluates the call before it
branches, so it advances the iterator. -/
theorem condition_advances_once : ∃ c trace,
    testing.classify store ⟨true, ⟨17⟩⟩ ⟨3⟩ = .ok (.ok c) ∧ c.advanceCalls = [⟨6⟩] ∧
      testing.Runs [.stmt ⟨2⟩] trace ∧ testing.advances store c.iterator trace = 1 := by
  have hrun : testing.Runs [.stmt ⟨2⟩] [.stmt ⟨2⟩, .stmt ⟨1⟩, .expr ⟨8⟩, .expr ⟨6⟩, .expr ⟨5⟩,
      .expr ⟨7⟩] :=
    .step (.block rfl) (.step (.elseBranch rfl) (.step (.operands rfl) (.step (.operands rfl)
      (.step (.operands rfl) (.step (.operands rfl) .done)))))
  have hpath : testing.Unguarded (.stmt ⟨2⟩) (.expr ⟨6⟩) :=
    .head (b := .stmt ⟨1⟩) (by decide) (.head (b := .expr ⟨8⟩) (by decide) (.single (by decide)))
  refine ⟨_, _, rfl, by decide, hrun, ?_⟩
  have honce := ((Classification.advances_once store ⟨17⟩ ⟨3⟩ singleUse_testing rfl
    grounded_testing).2 rfl).2.2 ⟨6⟩ (by decide) hpath _ hrun
  refine honce.resolve_right ?_
  rintro ⟨-, id, value, hmem, hret, -⟩
  have hid : id = ⟨2⟩ ∨ id = ⟨1⟩ := by simpa using hmem
  rcases hid with rfl | rfl <;> cases hret

/-- A method that loops over `xs`. The only advance call is below a loop over `xs`, a counted loop,
a `while` loop, a branch and a right operand: `for (String s : xs) for (; ready();) while (ready())
if (ready()) use(ready() && test(it.next()));`. -/
def guarded : CompilationUnit :=
  { unit with
    types := [⟨"Main", none, [], [⟨"run", none, [store.parameter ⟨0⟩], some ⟨7⟩⟩]⟩]
    exprs := #[.name store ⟨0⟩, .call store (some ⟨0⟩) ⟨0⟩ [] none,
      .declare store [(⟨2⟩, some ⟨1⟩)], .name store ⟨2⟩, .call store (some ⟨3⟩) ⟨1⟩ [] none,
      .name store ⟨0⟩, .unresolvedCall none "ready" [], .unresolvedCall none "ready" [],
      .unresolvedCall none "ready" [], .unresolvedCall none "ready" [], .name store ⟨2⟩,
      .call store (some ⟨10⟩) ⟨2⟩ [] none, .unresolvedCall none "test" [⟨11⟩],
      .binary .and ⟨9⟩ ⟨12⟩ none, .unresolvedCall none "use" [⟨13⟩]]
    stmts := #[.eval ⟨14⟩, .branch ⟨8⟩ ⟨0⟩ none, .whileLoop ⟨7⟩ ⟨1⟩, .forLoop [] (some ⟨6⟩) [] ⟨2⟩,
      .forEach (store.parameter ⟨1⟩) ⟨5⟩ ⟨3⟩, .block [⟨4⟩], .forLoop [⟨2⟩] (some ⟨4⟩) [] ⟨5⟩,
      .block [⟨6⟩]] }

/-- A method that loops over `xs`, with `if (ready()) return; use(it.next());` for a body. -/
def returning : CompilationUnit :=
  { unit with
    types := [⟨"Main", none, [], [⟨"run", none, [store.parameter ⟨0⟩], some ⟨5⟩⟩]⟩]
    exprs := #[.name store ⟨0⟩, .call store (some ⟨0⟩) ⟨0⟩ [] none,
      .declare store [(⟨2⟩, some ⟨1⟩)], .name store ⟨2⟩, .call store (some ⟨3⟩) ⟨1⟩ [] none,
      .unresolvedCall none "ready" [], .name store ⟨2⟩, .call store (some ⟨6⟩) ⟨2⟩ [] none,
      .unresolvedCall none "use" [⟨7⟩]]
    stmts := #[.ret none, .branch ⟨5⟩ ⟨0⟩ none, .eval ⟨8⟩, .block [⟨1⟩, ⟨2⟩],
      .forLoop [⟨2⟩] (some ⟨4⟩) [] ⟨3⟩, .block [⟨4⟩]] }

/-- Both loops are accepted. A round of the one need not advance the iterator since its call is
guarded; a round of the other since it may return before the call, which nothing guards. -/
theorem rounds_without_advance :
    (guarded.SingleUse ∧ ∃ c trace,
      guarded.classify store ⟨true, ⟨17⟩⟩ ⟨6⟩ = .ok (.ok c) ∧ c.advanceCalls = [⟨11⟩] ∧
      ¬ guarded.Unguarded (.stmt ⟨5⟩) (.expr ⟨11⟩) ∧ guarded.Runs [.stmt ⟨5⟩] trace ∧
      guarded.advances store c.iterator trace = 0) ∧
    (returning.SingleUse ∧ ∃ c trace,
      returning.classify store ⟨true, ⟨17⟩⟩ ⟨4⟩ = .ok (.ok c) ∧ c.advanceCalls = [⟨7⟩] ∧
      returning.Unguarded (.stmt ⟨3⟩) (.expr ⟨7⟩) ∧ returning.Runs [.stmt ⟨3⟩] trace ∧
      returning.advances store c.iterator trace = 0) := by
  have hguarded : guarded.Runs [.stmt ⟨5⟩] [.stmt ⟨5⟩, .stmt ⟨4⟩, .expr ⟨5⟩] :=
    .step (.block rfl) (.step (.forEach 0 rfl) (.step (.operands rfl) .done))
  have hreturning : returning.Runs [.stmt ⟨3⟩] [.stmt ⟨3⟩, .stmt ⟨1⟩, .expr ⟨5⟩, .stmt ⟨0⟩] :=
    .step (.block rfl) (.step (.thenBranch rfl) (.step (.operands rfl) (.ret rfl .done)))
  have hpath : returning.Unguarded (.stmt ⟨3⟩) (.expr ⟨7⟩) :=
    .head (b := .stmt ⟨2⟩) (by decide) (.head (b := .expr ⟨8⟩) (by decide) (.single (by decide)))
  refine ⟨⟨by decide, _, _, rfl, by decide, fun h => ?_, hguarded, by decide⟩,
    ⟨by decide, _, _, rfl, by decide, hpath, hreturning, by decide⟩⟩
  have hreached : ∀ m ∈ [Node.stmt ⟨5⟩, .stmt ⟨4⟩, .expr ⟨5⟩],
      guarded.unguardedKids m ⊆ [.stmt ⟨5⟩, .stmt ⟨4⟩, .expr ⟨5⟩] := by decide
  have hmem := CompilationUnit.Unguarded.mem_of_closed h (by decide) hreached
  simp at hmem

end Strings
end EnhancedFor
