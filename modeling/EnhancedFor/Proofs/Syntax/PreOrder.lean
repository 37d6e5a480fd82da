import EnhancedFor.Syntax.Builder
import EnhancedFor.Proofs.Syntax.SingleUse

/-!
The walk over a stack of nodes against the recursion that it stands for. The recursion visits a node
and then, if the visitor asks for them, the trees of its parts from left to right; it ends because
parts come earlier in the tables, and it needs no bound. Main statement: the walk makes the calls of
the recursion, in the same order and with the same states, also where trees share nodes and where
the visitor's state decides what is left out.
-/

namespace EnhancedFor
namespace CompilationUnit

variable {unit : CompilationUnit} {σ : Type} {visit : Node → σ → σ × Descend} {node root : Node}

/-- The calls of a visitor in their order, each with the state that it was given, and what came
out. -/
structure Trace (σ : Type) where
  calls : List (Node × σ)
  outcome : Except Fault σ

namespace Trace

/-- What comes next goes on from the state that was reached; after a fault nothing does. -/
def andThen (first : Trace σ) (next : σ → Trace σ) : Trace σ :=
  match first.outcome with
  | .ok state => ⟨first.calls ++ (next state).calls, (next state).outcome⟩
  | .error fault => ⟨first.calls, .error fault⟩

theorem outcome_andThen (first : Trace σ) (next : σ → Trace σ) :
    (first.andThen next).outcome = first.outcome.bind fun state => (next state).outcome := by
  unfold andThen
  cases first.outcome <;> rfl

theorem outcome_foldl (next : Node → σ → Trace σ) (kids : List Node) (first : Trace σ) :
    (kids.foldl (fun done kid => done.andThen (next kid)) first).outcome =
      first.outcome.bind fun state =>
        kids.foldlM (fun state kid => (next kid state).outcome) state := by
  induction kids generalizing first with
  | nil => cases h : first.outcome <;> exact h
  | cons kid kids ih =>
    rw [List.foldl_cons, ih, outcome_andThen]
    cases first.outcome <;> rfl

end Trace

/-- The walk as a recursion: the node is visited, and then the trees of its parts if the answer asks
for them, each in the state that the one before has left. -/
def Backward.preOrder (h : unit.Backward) (visit : Node → σ → σ × Descend) (node : Node)
    (state : σ) : Trace σ :=
  let call : List (Node × σ) := [(node, state)]
  match visit node state with
  | (after, .skip) => ⟨call, .ok after⟩
  | (after, .children) =>
    match _hk : unit.children? node with
    | none => ⟨call, .error .unknownNode⟩
    | some kids =>
      kids.attach.foldl (fun done kid => done.andThen (h.preOrder visit kid.1)) ⟨call, .ok after⟩
termination_by unit.rank node
decreasing_by exact (h node kids _hk kid.1 kid.2).2

/-- The visitor, which notes each call with the state that it is given, the latest last. -/
def noting (visit : Node → σ → σ × Descend) (node : Node) (noted : List (Node × σ) × σ) :
    (List (Node × σ) × σ) × Descend :=
  ((noted.1 ++ [(node, noted.2)], (visit node noted.2).1), (visit node noted.2).2)

namespace Backward

variable (h : unit.Backward)

include h

/-- Any node has a tree of limited height; one that the unit lacks has no parts. -/
theorem heightWithin_depth (node : Node) : unit.HeightWithin unit.depth node := by
  intro kid hk
  have hrank := (h.of_mem_kids hk).2
  have hle := rank_le_size (contains_of_mem_kids hk)
  exact h.heightWithin (by omega)

theorem preOrder_skip {state after : σ} (hv : visit node state = (after, .skip)) :
    h.preOrder visit node state = ⟨[(node, state)], .ok after⟩ := by
  rw [preOrder, hv]

theorem preOrder_missing {state after : σ} (hv : visit node state = (after, .children))
    (hc : unit.children? node = none) :
    h.preOrder visit node state = ⟨[(node, state)], .error .unknownNode⟩ := by
  rw [preOrder, hv]
  dsimp only
  split
  · rfl
  · simp_all

theorem preOrder_children {state after : σ} {kids : List Node}
    (hv : visit node state = (after, .children)) (hc : unit.children? node = some kids) :
    h.preOrder visit node state =
      kids.foldl (fun done kid => done.andThen (h.preOrder visit kid))
        ⟨[(node, state)], .ok after⟩ := by
  rw [preOrder, hv]
  dsimp only
  split
  · simp_all
  · rename_i kids' hc'
    obtain rfl := Option.some.inj (hc'.symm.trans hc)
    exact List.foldl_attach (f := fun done kid => Trace.andThen done (h.preOrder visit kid))

/-- To a nesting that is enough for the tree, the bounded recursion comes out as the other one. -/
theorem visitTree_eq {d : Nat} (hd : unit.HeightWithin d node) (state : σ) :
    unit.visitTree visit d node state = (h.preOrder visit node state).outcome := by
  induction d generalizing node state with
  | zero => exact hd.elim
  | succ d ih =>
    rw [visitTree]
    rcases hv : visit node state with ⟨after, next⟩
    cases next with
    | skip => rw [h.preOrder_skip hv]
    | children =>
      cases hc : unit.children? node with
      | none => rw [h.preOrder_missing hv hc]
      | some kids =>
        rw [h.preOrder_children hv hc, Trace.outcome_foldl]
        exact foldlM_congr (fun kid hk state => ih (hd kid (kids_of_children hc ▸ hk)) state) after

/-- The loop over the stack, with any bound that the tree of the root does not exceed. -/
theorem walkStack_eq {steps : Nat} (hs : unit.weight root ≤ steps) (state : σ) :
    unit.walkStack visit steps [root] state = (h.preOrder visit root state).outcome := by
  have hheight : ∀ node ∈ [root], unit.HeightWithin unit.depth node :=
    fun node _ => h.heightWithin_depth node
  rw [CompilationUnit.walkStack_eq hheight hs, List.foldlM_cons,
    h.visitTree_eq (h.heightWithin_depth root)]
  cases (h.preOrder visit root state).outcome <;> rfl

end Backward

namespace Trace

/-- The first trace is that of a noting visitor: it ends with the calls of the second one after
those that were noted before. -/
def Notes (noted : List (Node × σ)) (first : Trace (List (Node × σ) × σ)) (second : Trace σ) :
    Prop :=
  first.outcome = second.outcome.map fun last => (noted ++ second.calls, last)

theorem Notes.andThen {noted : List (Node × σ)} {first : Trace (List (Node × σ) × σ)}
    {second : Trace σ}
    {next : List (Node × σ) × σ → Trace (List (Node × σ) × σ)} {next' : σ → Trace σ}
    (h : Notes noted first second)
    (hnext : ∀ noted state, Notes noted (next (noted, state)) (next' state)) :
    Notes noted (first.andThen next) (second.andThen next') := by
  unfold Notes at h ⊢
  rw [outcome_andThen, h]
  unfold Trace.andThen
  cases second.outcome with
  | error fault => rfl
  | ok state =>
    have hstep := hnext (noted ++ second.calls) state
    rw [Notes, List.append_assoc] at hstep
    exact hstep

theorem Notes.foldl {noted : List (Node × σ)} {first : Trace (List (Node × σ) × σ)}
    {second : Trace σ}
    {next : Node → List (Node × σ) × σ → Trace (List (Node × σ) × σ)} {next' : Node → σ → Trace σ}
    {kids : List Node} (h : Notes noted first second)
    (hnext : ∀ kid ∈ kids, ∀ noted state, Notes noted (next kid (noted, state)) (next' kid state)) :
    Notes noted (kids.foldl (fun done kid => done.andThen (next kid)) first)
      (kids.foldl (fun done kid => done.andThen (next' kid)) second) := by
  induction kids generalizing first second with
  | nil => exact h
  | cons kid kids ih =>
    exact ih (h.andThen (hnext kid List.mem_cons_self))
      fun k hk => hnext k (List.mem_cons_of_mem _ hk)

end Trace

namespace Backward

/-- Noting the calls changes none of them. -/
theorem notes_preOrder (h : unit.Backward) (visit : Node → σ → σ × Descend) (node : Node)
    (noted : List (Node × σ)) (state : σ) :
    Trace.Notes noted (h.preOrder (noting visit) node (noted, state))
      (h.preOrder visit node state) := by
  induction hrank : unit.rank node using Nat.strongRecOn generalizing node noted state with
  | ind k ih =>
    rcases hv : visit node state with ⟨after, next⟩
    have hnoting : noting visit node (noted, state) =
        ((noted ++ [(node, state)], after), next) := by
      simp only [noting, hv]
    cases next with
    | skip =>
      rw [h.preOrder_skip hv, h.preOrder_skip hnoting]
      rfl
    | children =>
      cases hc : unit.children? node with
      | none =>
        rw [h.preOrder_missing hv hc, h.preOrder_missing hnoting hc]
        rfl
      | some kids =>
        rw [h.preOrder_children hv hc, h.preOrder_children hnoting hc]
        refine Trace.Notes.foldl rfl fun kid hk noted state => ?_
        exact ih _ (hrank ▸ (h node kids hc kid hk).2) kid noted state rfl

/-- A walk from a node of the unit meets no fault. -/
theorem preOrder_ok (h : unit.Backward) (visit : Node → σ → σ × Descend) {node : Node}
    (hn : unit.contains node = true) (state : σ) :
    ∃ last, (h.preOrder visit node state).outcome = .ok last := by
  induction hrank : unit.rank node using Nat.strongRecOn generalizing node state with
  | ind k ih =>
    rcases hv : visit node state with ⟨after, next⟩
    cases next with
    | skip => exact ⟨after, by rw [h.preOrder_skip hv]⟩
    | children =>
      have hc := contains_iff.1 hn
      rw [h.preOrder_children hv hc, Trace.outcome_foldl]
      refine foldlM_isOk (fun kid hk state => ?_) after
      obtain ⟨hkid, hlt⟩ := h.of_mem_kids hk
      exact ih _ (hrank ▸ hlt) hkid state rfl

/-- For every unit whose nodes refer to earlier ones, every root and every visitor with a state: the
walk comes out as the recursion does, and however many steps it may take beyond those of the tree,
the calls that are noted on the way are those of the recursion, each with its state. From a node of
the unit no fault is met. -/
theorem walk_eq_preOrder (h : unit.Backward) (visit : Node → σ → σ × Descend) (root : Node)
    (state : σ) :
    unit.walk root visit state = (h.preOrder visit root state).outcome ∧
      (∀ steps, unit.weight root ≤ steps →
        unit.walkStack (noting visit) steps [root] ([], state) =
          (h.preOrder visit root state).outcome.map fun last =>
            ((h.preOrder visit root state).calls, last)) ∧
      (unit.contains root = true → ∃ last, (h.preOrder visit root state).outcome = .ok last) := by
  refine ⟨h.walkStack_eq (Nat.le_refl _) state, fun steps hs => ?_,
    fun hr => h.preOrder_ok visit hr state⟩
  rw [h.walkStack_eq hs]
  exact h.notes_preOrder visit root [] state

end Backward
end CompilationUnit

namespace Shared

/-- `class Main { int y = x + x + x + x; void run() { use(x); while (c) use(x); } }`, with one node
for all places of `x`, one for both sums in the sum, and one for both calls. The name `z` is in no
tree. -/
def unit : CompilationUnit :=
  { CompilationUnit.initial "Main.java" with
    types := [⟨"Main", none, [⟨⟨"int", none⟩, [⟨"y", none, some ⟨2⟩⟩]⟩],
      [⟨"run", none, [], some ⟨2⟩⟩]⟩]
    exprs := #[.unresolvedName "x", .binary .add ⟨0⟩ ⟨0⟩ none, .binary .add ⟨1⟩ ⟨1⟩ none,
      .unresolvedName "z", .unresolvedCall none "use" [⟨0⟩], .unresolvedName "c"]
    stmts := #[.eval ⟨4⟩, .whileLoop ⟨5⟩ ⟨0⟩, .block [⟨0⟩, ⟨1⟩]] }

theorem backward_unit : unit.Backward := by decide

/-- Counts its calls and goes on below the nodes of the first three. -/
def limited (_ : Node) (calls : Nat) : Nat × Descend :=
  (calls + 1, if calls < 3 then .children else .skip)

/-- The sum that stands twice is entered once: at its second place the visitor has seen enough. -/
theorem sum_entered_once : unit.Backward ∧ unit.walk (.expr ⟨2⟩) limited 0 = .ok 5 ∧
    (backward_unit.preOrder limited (.expr ⟨2⟩) 0).calls =
      [(.expr ⟨2⟩, 0), (.expr ⟨1⟩, 1), (.expr ⟨0⟩, 2), (.expr ⟨0⟩, 3), (.expr ⟨1⟩, 4)] := by
  obtain ⟨hwalk, hcalls, -⟩ :=
    CompilationUnit.Backward.walk_eq_preOrder backward_unit limited (.expr ⟨2⟩) 0
  have hfive : unit.walk (.expr ⟨2⟩) limited 0 = .ok 5 := rfl
  have hnoted := hcalls _ (Nat.le_refl _)
  rw [← hwalk, hfive] at hnoted
  exact ⟨backward_unit, hfive, (Prod.mk.inj (Except.ok.inj hnoted)).1.symm⟩

end Shared
end EnhancedFor
