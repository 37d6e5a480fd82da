import Mathlib.Data.List.Basic
import Mathlib.Data.List.Flatten
import Mathlib.Logic.Relation
import EnhancedFor.Syntax.Walk
import EnhancedFor.Proofs.Except

/-!
Trees of nodes. A node is grounded when the tree below it is finite and complete. A walk from such a
node is the recursive one: it visits the node before its parts, from left to right, and goes below
the nodes it is told to.
-/

namespace EnhancedFor
namespace CompilationUnit

open Relation

variable {unit : CompilationUnit} {descend : Node → Bool} {σ : Type}

/-- Direct parts of a node; none for a node that the unit lacks. -/
def kids (unit : CompilationUnit) (node : Node) : List Node := (unit.children? node).getD []

/-- A node is below itself and below the nodes that it is a part of. -/
abbrev Below (unit : CompilationUnit) : Node → Node → Prop :=
  ReflTransGen fun node kid => kid ∈ unit.kids node

/-- A path that goes on only from nodes that `descend` holds for. -/
abbrev Reaches (unit : CompilationUnit) (descend : Node → Bool) : Node → Node → Prop :=
  ReflTransGen fun node kid => descend node = true ∧ kid ∈ unit.kids node

/-- The tree below a node has at most so many levels, the first being the node itself. -/
def HeightWithin (unit : CompilationUnit) : Nat → Node → Prop
  | 0, _ => False
  | d + 1, node => ∀ kid ∈ unit.kids node, unit.HeightWithin d kid

/-- The tree below the node is finite, and the unit has all of its nodes. -/
structure Grounded (unit : CompilationUnit) (node : Node) : Prop where
  height : unit.HeightWithin unit.depth node
  present : ∀ n, unit.Below node n → unit.contains n = true

theorem contains_iff {node : Node} :
    unit.contains node = true ↔ unit.children? node = some (unit.kids node) := by
  have hsome (kids : Option (List Node)) : kids.isSome = true ↔ kids = some (kids.getD []) := by
    cases kids <;> simp
  rw [kids, ← hsome]
  cases node <;> simp [contains, children?, expr?, stmt?]

theorem contains_of_mem_kids {node kid : Node} (h : kid ∈ unit.kids node) :
    unit.contains node = true := by
  rw [contains_iff]
  unfold kids at h ⊢
  cases hc : unit.children? node with
  | none => simp [hc] at h
  | some ks => rfl

theorem kids_expr {id : ExprId} {e : Expr} (h : unit.expr? id = some e) :
    unit.kids (.expr id) = e.children.map .expr := by
  rw [kids, children?, h]
  rfl

theorem kids_stmt {id : StmtId} {s : Stmt} (h : unit.stmt? id = some s) :
    unit.kids (.stmt id) = s.children := by
  rw [kids, children?, h]
  rfl

/-- The parts of an expression are expressions. -/
theorem exists_expr_of_mem_kids {id : ExprId} {kid : Node} (h : kid ∈ unit.kids (.expr id)) :
    ∃ inner, kid = .expr inner := by
  have hsome := contains_iff.1 (contains_of_mem_kids h)
  obtain ⟨e, -, he⟩ := Option.map_eq_some_iff.1 hsome
  rw [← he] at h
  obtain ⟨inner, -, rfl⟩ := List.mem_map.1 h
  exact ⟨inner, rfl⟩

theorem exists_expr_of_below {id : ExprId} {node : Node} (h : unit.Below (.expr id) node) :
    ∃ inner, node = .expr inner := by
  induction h with
  | refl => exact ⟨id, rfl⟩
  | tail _ hk ih =>
    obtain ⟨inner, rfl⟩ := ih
    exact exists_expr_of_mem_kids hk

theorem Reaches.below {root node : Node} (h : unit.Reaches descend root node) :
    unit.Below root node :=
  ReflTransGen.mono (fun _ _ hk => hk.2) _ _ h

/-- On the way to a node a walk gets to the node, or to one above it that it does not go below. -/
theorem Below.exists_reached {root node : Node} (h : unit.Below root node) (descend : Node → Bool) :
    ∃ m, unit.Reaches descend root m ∧ unit.Below m node ∧ (m = node ∨ descend m = false) := by
  induction h with
  | refl => exact ⟨root, .refl, .refl, .inl rfl⟩
  | @tail up node _ hk ih =>
    obtain ⟨m, hreach, hb, heq | hstop⟩ := ih
    · subst heq
      cases hd : descend m with
      | true => exact ⟨node, hreach.tail ⟨hd, hk⟩, .refl, .inl rfl⟩
      | false => exact ⟨m, hreach, .single hk, .inr hd⟩
    · exact ⟨m, hreach, hb.tail hk, .inr hstop⟩

theorem HeightWithin.succ {d : Nat} {node : Node} (h : unit.HeightWithin d node) :
    unit.HeightWithin (d + 1) node := by
  induction d generalizing node with
  | zero => exact h.elim
  | succ d ih => exact fun kid hkid => ih (h kid hkid)

theorem HeightWithin.mono {d e : Nat} {node : Node} (h : unit.HeightWithin d node) (hle : d ≤ e) :
    unit.HeightWithin e node := by
  induction hle with
  | refl => exact h
  | step _ ih => exact ih.succ

/-- A tree of finite height does not contain itself as a proper part. -/
theorem HeightWithin.not_below_of_mem {d : Nat} {node kid : Node}
    (h : unit.HeightWithin d node) (hk : kid ∈ unit.kids node) : ¬ unit.Below kid node := by
  induction d generalizing node kid with
  | zero => exact h.elim
  | succ d ih =>
    intro hb
    rcases ReflTransGen.cases_head hb with rfl | ⟨next, hnext, hb⟩
    · exact ih (h kid hk) hk .refl
    · exact ih (h kid hk) hnext (hb.tail hk)

namespace Grounded

variable {node : Node}

theorem children (h : unit.Grounded node) : unit.children? node = some (unit.kids node) :=
  contains_iff.1 (h.present node .refl)

theorem kid {kid : Node} (h : unit.Grounded node) (hk : kid ∈ unit.kids node) : unit.Grounded kid :=
  ⟨HeightWithin.succ (h.height kid hk), fun n hn => h.present n (.head hk hn)⟩

theorem operand {id inner : ExprId} {e : Expr} (h : unit.Grounded (.expr id))
    (he : unit.expr? id = some e) (hi : inner ∈ e.children) : unit.Grounded (.expr inner) :=
  h.kid (kids_expr he ▸ List.mem_map_of_mem hi)

theorem below {n : Node} (h : unit.Grounded node) (hn : unit.Below node n) : unit.Grounded n := by
  induction hn with
  | refl => exact h
  | tail _ hk ih => exact ih.kid hk

theorem not_below {kid : Node} (h : unit.Grounded node) (hk : kid ∈ unit.kids node) :
    ¬ unit.Below kid node :=
  h.height.not_below_of_mem hk

/-- Induction from the parts of a node to the node. -/
@[elab_as_elim]
theorem rec_kids {motive : (node : Node) → unit.Grounded node → Prop}
    (step : ∀ node (h : unit.Grounded node),
      (∀ kid (hk : kid ∈ unit.kids node), motive kid (h.kid hk)) → motive node h)
    (h : unit.Grounded node) : motive node h := by
  have main : ∀ d n, unit.HeightWithin d n → ∀ h : unit.Grounded n, motive n h := by
    intro d
    induction d with
    | zero => exact fun n hd _ => hd.elim
    | succ d ih =>
      exact fun n hd hn => step n hn fun kid hk => ih kid (hd kid hk) (hn.kid hk)
  exact main _ node h.height h

end Grounded

theorem rank_le_size {node : Node} (h : unit.contains node = true) :
    unit.rank node ≤ unit.size := by
  cases node <;> simp [contains, rank, size] at h ⊢ <;> omega

namespace Backward

variable {node kid : Node}

theorem of_mem_kids (h : unit.Backward) (hk : kid ∈ unit.kids node) :
    unit.contains kid = true ∧ unit.rank kid < unit.rank node :=
  h node _ (contains_iff.1 (contains_of_mem_kids hk)) kid hk

theorem heightWithin (h : unit.Backward) {d : Nat} (hd : unit.rank node < d) :
    unit.HeightWithin d node := by
  induction d generalizing node with
  | zero => omega
  | succ d ih =>
    intro kid hk
    have hrank := (h.of_mem_kids hk).2
    exact ih (by omega)

/-- Where nodes refer to earlier ones, the tree below each node of the tables is finite and
complete. -/
theorem grounded (h : unit.Backward) (hn : unit.contains node = true) : unit.Grounded node := by
  constructor
  · exact h.heightWithin (Nat.lt_succ_of_le (rank_le_size hn))
  · intro n hbelow
    induction hbelow with
    | refl => exact hn
    | tail _ hk _ => exact (h.of_mem_kids hk).1

end Backward

/-- A walk as a recursion on the tree below the node, to a nesting of `d`. -/
def visitTree (unit : CompilationUnit) (visit : Node → σ → σ × Descend) :
    Nat → Node → σ → Except Fault σ
  | 0, _, state => .ok state
  | d + 1, node, state =>
    match visit node state with
    | (state, .skip) => .ok state
    | (state, .children) =>
      match unit.children? node with
      | some kids => kids.foldlM (fun state kid => visitTree unit visit d kid state) state
      | none => .error .unknownNode

theorem kids_of_children {node : Node} {ks : List Node} (h : unit.children? node = some ks) :
    unit.kids node = ks := by
  rw [kids, h]
  rfl

/-- The nodes of several trees together, each to a nesting of `d`. -/
def stackWeight (unit : CompilationUnit) (d : Nat) (stack : List Node) : Nat :=
  (stack.map (unit.weightWithin d)).foldr (· + ·) 0

theorem stackWeight_cons (d : Nat) (node : Node) (stack : List Node) :
    unit.stackWeight d (node :: stack) = unit.weightWithin d node + unit.stackWeight d stack := rfl

theorem stackWeight_append (d : Nat) (stack rest : List Node) :
    unit.stackWeight d (stack ++ rest) = unit.stackWeight d stack + unit.stackWeight d rest := by
  induction stack with
  | nil => simp [stackWeight]
  | cons node stack ih =>
    rw [List.cons_append, stackWeight_cons, stackWeight_cons, ih]
    omega

theorem weightWithin_succ (d : Nat) (node : Node) :
    unit.weightWithin (d + 1) node = unit.stackWeight d (unit.kids node) + 1 := by
  rw [weightWithin, ← kids]
  induction unit.kids node with
  | nil => rfl
  | cons kid kids ih =>
    rw [List.foldr_cons, ih, stackWeight_cons]
    omega

theorem HeightWithin.weightWithin_eq {d : Nat} {node : Node} (h : unit.HeightWithin d node) :
    unit.weightWithin (d + 1) node = unit.weightWithin d node := by
  induction d generalizing node with
  | zero => exact h.elim
  | succ d ih =>
    rw [weightWithin_succ, weightWithin_succ, stackWeight, stackWeight,
      List.map_congr_left fun kid hk => ih (h kid hk)]

theorem HeightWithin.visitTree_eq {visit : Node → σ → σ × Descend} {d : Nat} {node : Node}
    (h : unit.HeightWithin d node) (state : σ) :
    unit.visitTree visit (d + 1) node state = unit.visitTree visit d node state := by
  induction d generalizing node state with
  | zero => exact h.elim
  | succ d ih =>
    rw [visitTree, visitTree]
    split
    · rfl
    · split
      · rename_i ks hks
        exact foldlM_congr (fun kid hk s => ih (h kid (kids_of_children hks ▸ hk)) s) _
      · rfl

/-- With enough steps the walk over a stack is the recursive walk over each of its trees. -/
theorem walkStack_eq {visit : Node → σ → σ × Descend} {steps : Nat} {stack : List Node}
    (hh : ∀ node ∈ stack, unit.HeightWithin unit.depth node)
    (hs : unit.stackWeight unit.depth stack ≤ steps) (state : σ) :
    unit.walkStack visit steps stack state =
      stack.foldlM (fun state node => unit.visitTree visit unit.depth node state) state := by
  induction steps generalizing stack state with
  | zero =>
    cases stack with
    | nil => rfl
    | cons node rest =>
      -- Each node of the stack weighs at least one.
      rw [stackWeight_cons, depth, weightWithin_succ] at hs
      omega
  | succ steps ih =>
    cases stack with
    | nil => rfl
    | cons node rest =>
      have hnode : ∀ kid ∈ unit.kids node, unit.HeightWithin unit.size kid :=
        hh node List.mem_cons_self
      have hrest : ∀ n ∈ rest, unit.HeightWithin unit.depth n :=
        fun n hn => hh n (List.mem_cons_of_mem _ hn)
      have hweight : unit.weightWithin unit.depth node =
          unit.stackWeight unit.depth (unit.kids node) + 1 := by
        rw [depth, weightWithin_succ, stackWeight, stackWeight,
          List.map_congr_left fun kid hk => (hnode kid hk).weightWithin_eq]
      rw [stackWeight_cons, hweight] at hs
      rw [walkStack, List.foldlM_cons, depth, visitTree]
      rcases hv : visit node state with ⟨state', next⟩
      cases next with
      | skip => exact ih hrest (by omega) state'
      | children =>
        cases hc : unit.children? node with
        | none => rfl
        | some ks =>
          obtain rfl := kids_of_children hc
          have hfold : (unit.kids node).foldlM
                (fun state kid => unit.visitTree visit unit.size kid state) state' =
              (unit.kids node).foldlM
                (fun state kid => unit.visitTree visit unit.depth kid state) state' :=
            foldlM_congr (fun kid hk s => ((hnode kid hk).visitTree_eq s).symm) _
          have hall : ∀ n ∈ unit.kids node ++ rest, unit.HeightWithin unit.depth n := by
            intro n hn
            rcases List.mem_append.1 hn with hn | hn
            · exact (hnode n hn).succ
            · exact hrest n hn
          dsimp only
          rw [ih hall (by rw [stackWeight_append]; omega), List.foldlM_append, hfold]
          rfl

theorem walk_eq {visit : Node → σ → σ × Descend} {node : Node}
    (h : unit.HeightWithin unit.depth node) (state : σ) :
    unit.walk node visit state = unit.visitTree visit unit.depth node state := by
  rw [walk, walkStack_eq (by simpa using h) (by simp [stackWeight, weight]), List.foldlM_cons]
  simp

/-- The visitor that gathers the nodes it sees, the latest first. -/
def collect (descend : Node → Bool) (node : Node) (out : List Node) : List Node × Descend :=
  (node :: out, if descend node then .children else .skip)

theorem visited_eq {node : Node} (h : unit.HeightWithin unit.depth node) :
    unit.visited node descend =
      (unit.visitTree (collect descend) unit.depth node []).map List.reverse :=
  congrArg (Except.map List.reverse) (walk_eq h [])

/-- The recursive walk below a grounded node adds its nodes to those seen before. -/
theorem Grounded.visitTree_collect {node : Node} (h : unit.Grounded node) :
    ∀ out, unit.visitTree (collect descend) unit.depth node out =
      .ok ((node :: if descend node then
        (unit.kids node).flatMap (unit.nodesBelow · descend) else []).reverse ++ out) := by
  induction h using Grounded.rec_kids with
  | step node h ih =>
    intro out
    have hkid : ∀ kid ∈ unit.kids node, ∀ out, unit.visitTree (collect descend) unit.size kid out =
        .ok ((unit.nodesBelow kid descend).reverse ++ out) := by
      intro kid hk out
      have hbelow : unit.nodesBelow kid descend = kid :: if descend kid then
          (unit.kids kid).flatMap (unit.nodesBelow · descend) else [] := by
        rw [nodesBelow, visited_eq (h.kid hk).height, ih kid hk]
        simp [Except.map, Except.toOption]
      rw [← HeightWithin.visitTree_eq (h.height kid hk), hbelow]
      exact ih kid hk out
    rw [depth, visitTree, collect]
    cases hd : descend node with
    | false => simp
    | true =>
      simp only [h.children, if_true]
      rw [foldlM_ok hkid]
      simp

namespace Grounded

variable {node : Node}

/-- A walk visits a node, and then the trees of its parts if it goes on. -/
theorem nodesBelow_eq (h : unit.Grounded node) (descend : Node → Bool) :
    unit.nodesBelow node descend = node :: if descend node then
      (unit.kids node).flatMap (unit.nodesBelow · descend) else [] := by
  rw [nodesBelow, visited_eq h.height, h.visitTree_collect]
  simp [Except.map, Except.toOption]

theorem visited_eq_ok (h : unit.Grounded node) (descend : Node → Bool) :
    unit.visited node descend = .ok (unit.nodesBelow node descend) := by
  rw [h.nodesBelow_eq, visited_eq h.height, h.visitTree_collect]
  simp [Except.map]

theorem mem_nodesBelow (h : unit.Grounded node) {n : Node} :
    n ∈ unit.nodesBelow node descend ↔ unit.Reaches descend node n := by
  induction h using Grounded.rec_kids with
  | step node h ih =>
    rw [h.nodesBelow_eq, List.mem_cons]
    constructor
    · rintro (rfl | hn)
      · exact .refl
      · split at hn
        · rename_i hd
          obtain ⟨kid, hk, hn⟩ := List.mem_flatMap.1 hn
          exact .head ⟨hd, hk⟩ ((ih kid hk).1 hn)
        · simp at hn
    · intro hn
      rcases ReflTransGen.cases_head hn with rfl | ⟨kid, ⟨hd, hk⟩, hn⟩
      · exact .inl rfl
      · rw [if_pos hd]
        exact .inr (List.mem_flatMap.2 ⟨kid, hk, (ih kid hk).2 hn⟩)

theorem mem_subtree (h : unit.Grounded node) {n : Node} :
    n ∈ unit.subtree node ↔ unit.Below node n :=
  h.mem_nodesBelow.trans ⟨Reaches.below, ReflTransGen.mono (fun _ _ hk => ⟨rfl, hk⟩) _ _⟩

/-- A walk that leaves out nodes meets the others in the order of the full walk. -/
theorem nodesBelow_sublist (h : unit.Grounded node) :
    (unit.nodesBelow node descend).Sublist (unit.subtree node) := by
  induction h using Grounded.rec_kids with
  | step node h ih =>
    rw [subtree, h.nodesBelow_eq, h.nodesBelow_eq, if_pos rfl]
    apply List.Sublist.cons_cons
    split
    · exact List.Sublist.flatMap_right _ ih
    · exact List.nil_sublist _

end Grounded

end CompilationUnit
end EnhancedFor
