import Mathlib.Data.List.Count
import EnhancedFor.Proofs.Syntax.SingleUse

/-!
Evaluation of code as far as its syntax decides it. Which branch is taken, how often a loop goes
round and whether a right operand is reached stays open, so a node has many runs. Main statement: a
node that no branch, loop or short-circuit operator separates from the root is evaluated once in
every run, unless a return elsewhere ends the run first.
-/

namespace EnhancedFor

/-- The left operand alone may decide the result. -/
def BinaryOp.shortCircuits : BinaryOp → Bool
  | .and | .or => true
  | _ => false

/-- The operands that are evaluated once whenever the expression is. -/
def Expr.unguarded : Expr → List ExprId
  | .binary op left right => if op.shortCircuits then [left] else [left, right]
  | e => e.children

/-- The parts that are evaluated once whenever the statement is: neither branches nor anything that
a loop repeats. -/
def Stmt.unguarded : Stmt → List Node
  | .branch condition _ _ => [.expr condition]
  | .whileLoop _ _ => []
  | .forLoop inits _ _ _ => inits.map .expr
  | .forEach _ iterable _ => [.expr iterable]
  | s => s.children

theorem Expr.unguarded_subset (e : Expr) : e.unguarded ⊆ e.children := by
  cases e with
  | binary op left right =>
    rw [Expr.unguarded]
    split <;> simp [Expr.children]
  | _ => exact List.Subset.refl _

theorem Stmt.unguarded_subset (s : Stmt) : s.unguarded ⊆ s.children := by
  cases s with
  | branch | whileLoop | forLoop | forEach => simp [Stmt.unguarded, Stmt.children]
  | _ => exact List.Subset.refl _

namespace CompilationUnit

open Relation

variable {unit : CompilationUnit} {node kid n : Node} {parts stack trace : List Node}

def unguardedKids (unit : CompilationUnit) : Node → List Node
  | .expr id => ((unit.expr? id).map fun e => e.unguarded.map .expr).getD []
  | .stmt id => ((unit.stmt? id).map Stmt.unguarded).getD []

/-- A path through parts that are evaluated once whenever the node above them is. -/
abbrev Unguarded (unit : CompilationUnit) : Node → Node → Prop :=
  ReflTransGen fun node kid => kid ∈ unit.unguardedKids node

/-- One way to evaluate a node: its parts in the order of evaluation, some of them left out or
repeated. -/
inductive Expands (unit : CompilationUnit) : Node → List Node → Prop where
  | operands {id : ExprId} {e : Expr} (h : unit.expr? id = some e) :
    Expands unit (.expr id) (e.children.map .expr)
  | leftOnly {id left right : ExprId} {op : BinaryOp}
    (h : unit.expr? id = some (.binary op left right)) (hop : op.shortCircuits = true) :
    Expands unit (.expr id) [.expr left]
  | block {id : StmtId} {statements : List StmtId} (h : unit.stmt? id = some (.block statements)) :
    Expands unit (.stmt id) (statements.map .stmt)
  | declare {id : StmtId} {decl : Declaration} (h : unit.stmt? id = some (.declare decl)) :
    Expands unit (.stmt id) (decl.inits.map .expr)
  | eval {id : StmtId} {e : ExprId} (h : unit.stmt? id = some (.eval e)) :
    Expands unit (.stmt id) [.expr e]
  | empty {id : StmtId} (h : unit.stmt? id = some .empty) : Expands unit (.stmt id) []
  | thenBranch {id thenBranch : StmtId} {condition : ExprId} {elseBranch : Option StmtId}
    (h : unit.stmt? id = some (.branch condition thenBranch elseBranch)) :
    Expands unit (.stmt id) [.expr condition, .stmt thenBranch]
  | elseBranch {id thenBranch : StmtId} {condition : ExprId} {elseBranch : Option StmtId}
    (h : unit.stmt? id = some (.branch condition thenBranch elseBranch)) :
    Expands unit (.stmt id) (.expr condition :: elseBranch.toList.map .stmt)
  | whileLoop {id body : StmtId} {condition : ExprId} (rounds : Nat)
    (h : unit.stmt? id = some (.whileLoop condition body)) :
    Expands unit (.stmt id)
      (.expr condition :: (List.replicate rounds [.stmt body, .expr condition]).flatten)
  | forLoop {id body : StmtId} {inits updates : List ExprId} {condition : Option ExprId}
    (rounds : Nat) (h : unit.stmt? id = some (.forLoop inits condition updates body)) :
    Expands unit (.stmt id) ((inits ++ condition.toList).map .expr ++
      (List.replicate rounds (.stmt body :: (updates ++ condition.toList).map .expr)).flatten)
  | forEach {id body : StmtId} {param : Parameter} {iterable : ExprId} (rounds : Nat)
    (h : unit.stmt? id = some (.forEach param iterable body)) :
    Expands unit (.stmt id) (.expr iterable :: List.replicate rounds (.stmt body))

/-- A run works off a stack of nodes, top first, and lists the nodes that it evaluates. A return
gives up all that is left. -/
inductive Runs (unit : CompilationUnit) : List Node → List Node → Prop where
  | done : Runs unit [] []
  | step {node : Node} {parts rest trace : List Node} (h : unit.Expands node parts)
    (hr : Runs unit (parts ++ rest) trace) : Runs unit (node :: rest) (node :: trace)
  | ret {id : StmtId} {value : Option ExprId} {rest trace : List Node}
    (h : unit.stmt? id = some (.ret value)) (hr : Runs unit (value.toList.map .expr) trace) :
    Runs unit (.stmt id :: rest) (.stmt id :: trace)

/-- The run evaluates a return that the node is no part of. -/
def ReturnsElsewhere (unit : CompilationUnit) (trace : List Node) (n : Node) : Prop :=
  ∃ id value, .stmt id ∈ trace ∧ unit.stmt? id = some (.ret value) ∧ ¬ unit.Below (.stmt id) n

/-- The run evaluates the node once, unless a return elsewhere keeps it from that. -/
def EvaluatesOnce (unit : CompilationUnit) (trace : List Node) (n : Node) : Prop :=
  trace.count n = 1 ∨ trace.count n = 0 ∧ unit.ReturnsElsewhere trace n

theorem unguardedKids_expr {id : ExprId} {e : Expr} (h : unit.expr? id = some e) :
    unit.unguardedKids (.expr id) = e.unguarded.map .expr := by
  rw [unguardedKids, h]
  rfl

theorem unguardedKids_stmt {id : StmtId} {s : Stmt} (h : unit.stmt? id = some s) :
    unit.unguardedKids (.stmt id) = s.unguarded := by
  rw [unguardedKids, h]
  rfl

theorem Expands.subset_kids (h : unit.Expands node parts) : parts ⊆ unit.kids node := by
  cases h with
  | operands h => exact fun part hp => kids_expr h ▸ hp
  | leftOnly h _ =>
    rw [kids_expr h]
    simp [Expr.children]
  | block h | declare h | eval h | empty h | thenBranch h | elseBranch h =>
    rw [kids_stmt h]
    simp [Stmt.children]
  | whileLoop rounds h | forLoop rounds h | forEach rounds h =>
    rw [kids_stmt h]
    intro part hp
    simp only [Stmt.children, List.mem_cons, List.mem_append, List.mem_flatten,
      List.mem_replicate, List.mem_map, Option.mem_toList] at hp ⊢
    grind

theorem unguardedKids_subset_kids : unit.unguardedKids node ⊆ unit.kids node := by
  cases node with
  | expr id =>
    cases he : unit.expr? id with
    | none => simp [unguardedKids, he]
    | some e =>
      rw [unguardedKids_expr he, kids_expr he]
      exact List.map_subset _ e.unguarded_subset
  | stmt id =>
    cases hs : unit.stmt? id with
    | none => simp [unguardedKids, hs]
    | some s =>
      rw [unguardedKids_stmt hs, kids_stmt hs]
      exact s.unguarded_subset

theorem Unguarded.below (h : unit.Unguarded node n) : unit.Below node n :=
  ReflTransGen.mono (fun _ _ hk => unguardedKids_subset_kids hk) _ _ h

/-- A set of nodes that holds the unguarded parts of its members holds all that unguarded paths
reach. -/
theorem Unguarded.mem_of_closed {nodes : List Node} (h : unit.Unguarded node n)
    (hnode : node ∈ nodes) (hclosed : ∀ m ∈ nodes, unit.unguardedKids m ⊆ nodes) : n ∈ nodes := by
  induction h with
  | refl => exact hnode
  | tail _ hk ih => exact hclosed _ ih hk

theorem EvaluatesOnce.cons (h : unit.EvaluatesOnce trace n) (hne : node ≠ n) :
    unit.EvaluatesOnce (node :: trace) n := by
  rw [EvaluatesOnce, List.count_cons_of_ne hne]
  rcases h with h | ⟨h, id, value, hmem, hret⟩
  · exact .inl h
  · exact .inr ⟨h, id, value, List.mem_cons_of_mem _ hmem, hret⟩

/-- However the node is evaluated, the part is evaluated once. -/
theorem Expands.count_eq_one (hu : unit.SingleUse) (h : unit.Expands node parts)
    (hk : kid ∈ unit.unguardedKids node) : parts.count kid = 1 := by
  have hnodup := hu.kids_nodup node
  have hkid := unguardedKids_subset_kids hk
  cases h with
  | operands h =>
    rw [kids_expr h] at hnodup hkid
    exact List.count_eq_one_of_mem hnodup hkid
  | leftOnly h hop =>
    rw [unguardedKids_expr h, Expr.unguarded, if_pos hop] at hk
    obtain rfl := List.mem_singleton.1 hk
    exact List.count_singleton_self
  | block h | declare h | eval h | empty h =>
    rw [kids_stmt h] at hnodup hkid
    exact List.count_eq_one_of_mem hnodup hkid
  | thenBranch h | elseBranch h =>
    rw [unguardedKids_stmt h] at hk
    obtain rfl := List.mem_singleton.1 hk
    simp [List.count_eq_zero]
  | whileLoop rounds h =>
    rw [unguardedKids_stmt h] at hk
    exact (List.not_mem_nil hk).elim
  | @forLoop _ body inits updates condition rounds h =>
    rw [unguardedKids_stmt h] at hk
    have honce := List.count_pos_iff.2 hk
    have hall := List.count_eq_one_of_mem hnodup hkid
    rw [kids_stmt h] at hall
    simp only [Stmt.unguarded, Stmt.children, List.map_append, List.count_append] at honce hall
    -- So neither the condition nor an update is this initialiser, and the body is a statement.
    have hround : kid ∉ (List.replicate rounds (Node.stmt body ::
        (updates ++ condition.toList).map .expr)).flatten := by
      rw [List.mem_flatten]
      rintro ⟨round, hr, hin⟩
      obtain rfl := (List.mem_replicate.1 hr).2
      have := List.count_pos_iff.2 hin
      simp only [List.map_append, List.count_cons, List.count_append, List.count_nil] at this hall
      omega
    rw [List.map_append, List.count_append, List.count_append, List.count_eq_zero.2 hround]
    omega
  | forEach rounds h =>
    rw [unguardedKids_stmt h] at hk
    obtain rfl := List.mem_singleton.1 hk
    simp [List.count_eq_zero]

/-- Around a part that is evaluated once, no other part has the nodes below it. -/
theorem Expands.split (hu : unit.SingleUse) (hg : unit.Grounded node) (h : unit.Expands node parts)
    (hk : kid ∈ unit.unguardedKids node) (hb : unit.Below kid n) :
    ∃ before after, parts = before ++ kid :: after ∧ (∀ m ∈ before, ¬ unit.Below m n) ∧
      ∀ m ∈ after, ¬ unit.Below m n := by
  have hcount := h.count_eq_one hu hk
  have hmem : kid ∈ parts := List.count_pos_iff.1 (by omega)
  obtain ⟨before, after, rfl⟩ := List.append_of_mem hmem
  rw [List.count_append, List.count_cons_self] at hcount
  have hkid := unguardedKids_subset_kids hk
  have hapart {m : Node} (hm : m ∈ before ++ kid :: after) (hbelow : unit.Below m n) : m = kid :=
    hu.kids_apart hg (h.subset_kids hm) hkid hbelow hb
  refine ⟨before, after, rfl, fun m hm hbelow => ?_, fun m hm hbelow => ?_⟩
  · obtain rfl := hapart (List.mem_append_left _ hm) hbelow
    have := List.count_pos_iff.2 hm
    omega
  · obtain rfl := hapart (List.mem_append_right _ (List.mem_cons_of_mem _ hm)) hbelow
    have := List.count_pos_iff.2 hm
    omega

namespace Runs

/-- A run stays below the nodes of its stack. -/
theorem exists_below (h : unit.Runs stack trace) (hn : n ∈ trace) :
    ∃ m ∈ stack, unit.Below m n := by
  induction h with
  | done => exact (List.not_mem_nil hn).elim
  | @step node parts rest trace h _ ih =>
    rcases List.mem_cons.1 hn with rfl | hn
    · exact ⟨n, List.mem_cons_self, .refl⟩
    · obtain ⟨m, hm, hb⟩ := ih hn
      rcases List.mem_append.1 hm with hm | hm
      · exact ⟨node, List.mem_cons_self, .head (h.subset_kids hm) hb⟩
      · exact ⟨m, List.mem_cons_of_mem _ hm, hb⟩
  | @ret id value rest trace h _ ih =>
    refine ⟨.stmt id, List.mem_cons_self, ?_⟩
    rcases List.mem_cons.1 hn with rfl | hn
    · exact .refl
    · obtain ⟨m, hm, hb⟩ := ih hn
      refine .head ?_ hb
      rw [kids_stmt h]
      exact hm

theorem count_eq_zero (h : unit.Runs stack trace) (hn : ∀ m ∈ stack, ¬ unit.Below m n) :
    trace.count n = 0 := by
  rw [List.count_eq_zero]
  intro hmem
  obtain ⟨m, hm, hb⟩ := h.exists_below hmem
  exact hn m hm hb

/-- The stack holds one node above `n`, without a guard on the way. Each step of the run keeps it so
until `n` itself is evaluated. -/
theorem evaluatesOnce (hu : unit.SingleUse) (h : unit.Runs stack trace) {before after : List Node}
    (hstack : stack = before ++ node :: after) (hg : ∀ m ∈ stack, unit.Grounded m)
    (hbefore : ∀ m ∈ before, ¬ unit.Below m n) (hafter : ∀ m ∈ after, ¬ unit.Below m n)
    (hpath : unit.Unguarded node n) : unit.EvaluatesOnce trace n := by
  induction h generalizing before node after with
  | done => simp at hstack
  | @step top parts rest trace h hr ih =>
    have htop := hg top List.mem_cons_self
    have hgrounded : ∀ m ∈ parts ++ rest, unit.Grounded m := by
      intro m hm
      rcases List.mem_append.1 hm with hm | hm
      · exact htop.kid (h.subset_kids hm)
      · exact hg m (List.mem_cons_of_mem _ hm)
    cases before with
    | nil =>
      obtain ⟨rfl, rfl⟩ := List.cons.inj hstack
      rcases ReflTransGen.cases_head hpath with rfl | ⟨kid, hk, hpath⟩
      · left
        rw [List.count_cons_self, hr.count_eq_zero]
        intro m hm
        rcases List.mem_append.1 hm with hm | hm
        · exact htop.not_below (h.subset_kids hm)
        · exact hafter m hm
      · have hb := Unguarded.below hpath
        obtain ⟨before, after, rfl, hbefore, hnext⟩ := h.split hu htop hk hb
        have hsplit : before ++ kid :: after ++ rest = before ++ kid :: (after ++ rest) := by simp
        refine (ih hsplit hgrounded hbefore (fun m hm => ?_) hpath).cons ?_
        · rcases List.mem_append.1 hm with hm | hm
          · exact hnext m hm
          · exact hafter m hm
        · rintro rfl
          exact htop.not_below (unguardedKids_subset_kids hk) hb
    | cons first before =>
      obtain ⟨rfl, rfl⟩ := List.cons.inj hstack
      have hfirst := hbefore top List.mem_cons_self
      have hsplit : parts ++ (before ++ node :: after) = (parts ++ before) ++ node :: after := by
        simp
      refine (ih hsplit hgrounded (fun m hm hb => ?_) hafter hpath).cons ?_
      · rcases List.mem_append.1 hm with hm | hm
        · exact hfirst (.head (h.subset_kids hm) hb)
        · exact hbefore m (List.mem_cons_of_mem _ hm) hb
      · rintro rfl
        exact hfirst .refl
  | @ret id value rest trace h hr ih =>
    have htop := hg (.stmt id) List.mem_cons_self
    have hvalue : ∀ m ∈ value.toList.map Node.expr, m ∈ unit.kids (.stmt id) := by
      rw [kids_stmt h]
      exact fun m hm => hm
    cases before with
    | nil =>
      obtain ⟨rfl, rfl⟩ := List.cons.inj hstack
      rcases ReflTransGen.cases_head hpath with rfl | ⟨kid, hk, hpath⟩
      · left
        rw [List.count_cons_self, hr.count_eq_zero fun m hm => htop.not_below (hvalue m hm)]
      · have hb := Unguarded.below hpath
        have hne : Node.stmt id ≠ n := by
          rintro rfl
          exact htop.not_below (unguardedKids_subset_kids hk) hb
        rw [unguardedKids_stmt h] at hk
        -- The value of the return is all that is left to evaluate.
        cases value with
        | none => simp [Stmt.unguarded, Stmt.children] at hk
        | some e =>
          obtain rfl := List.mem_singleton.1 hk
          have hnil : ∀ m ∈ ([] : List Node), ¬ unit.Below m n := by simp
          have hsplit : (some e).toList.map Node.expr = [] ++ .expr e :: [] := rfl
          exact (ih hsplit (fun m hm => htop.kid (hvalue m hm)) hnil hnil hpath).cons hne
    | cons first before =>
      obtain ⟨rfl, rfl⟩ := List.cons.inj hstack
      have hfirst := hbefore (.stmt id) List.mem_cons_self
      have hne : Node.stmt id ≠ n := by
        rintro rfl
        exact hfirst .refl
      refine .inr ⟨?_, id, value, List.mem_cons_self, h, hfirst⟩
      rw [List.count_cons_of_ne hne]
      exact hr.count_eq_zero fun m hm hb => hfirst (.head (hvalue m hm) hb)

theorem evaluatesOnce_root (hu : unit.SingleUse) (hg : unit.Grounded node)
    (h : unit.Runs [node] trace) (hpath : unit.Unguarded node n) : unit.EvaluatesOnce trace n := by
  have hnil : ∀ m ∈ ([] : List Node), ¬ unit.Below m n := by simp
  have hsplit : [node] = [] ++ node :: [] := rfl
  exact h.evaluatesOnce hu hsplit (by simpa using hg) hnil hnil hpath

end Runs

end CompilationUnit
end EnhancedFor
