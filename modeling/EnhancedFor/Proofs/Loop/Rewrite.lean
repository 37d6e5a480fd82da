import EnhancedFor.Proofs.Loop.ImportBlock
import EnhancedFor.Proofs.Loop.Plan
import EnhancedFor.Proofs.Syntax.UnitPrinting

/-!
What a conversion does to the tree: the loop gets a new head, statements leave their blocks, calls
become names, and the import list is another one. The changed unit is complete again.
-/

namespace EnhancedFor

/-- A block without the given statements; any other statement as it is. -/
def Stmt.without (removed : List StmtId) : Stmt → Stmt
  | .block statements => .block (statements.filter (!removed.contains ·))
  | s => s

/-- The loop over the iterable of the header. -/
def Header.toStmt (header : Header) (body : StmtId) : Stmt :=
  .forEach ⟨⟨header.typeText, some header.elementType⟩, header.name, none⟩ header.iterable.expr body

/-- The unit with a loop over the iterable in place of the counted one. The removed statements leave
their blocks, the name of the loop variable takes the place of the replaced calls, and the import
list is a new one. -/
def CompilationUnit.rewriteLoop (unit : CompilationUnit) (loop : StmtId) (header : Header)
    (body : StmtId) (removed : List StmtId) (replaced : List ExprId) (imports : List Import) :
    CompilationUnit :=
  { unit with
    imports
    stmts := unit.stmts.mapIdx fun i s =>
      if StmtId.mk i = loop then header.toStmt body else s.without removed
    exprs := unit.exprs.mapIdx fun i n =>
      if ExprId.mk i ∈ replaced then { n with expr := .name header.name none } else n }

/-- The unit after a plan for the loop with the given head and body. -/
def Plan.rewrite (plan : Plan) (unit : CompilationUnit) (loop : StmtId) (header : Header)
    (body : StmtId) : CompilationUnit :=
  unit.rewriteLoop loop header body plan.removedStatements plan.replacedCalls
    (plan.imports.newImports unit.importLines)

/-- The same with each new import placed among the lines that stay. -/
def Plan.rewritePlaced (plan : Plan) (unit : CompilationUnit) (loop : StmtId) (header : Header)
    (body : StmtId) : CompilationUnit :=
  unit.rewriteLoop loop header body plan.removedStatements plan.replacedCalls
    (plan.imports.placedImports unit.importLines)

theorem Plan.rewrite_eq_rewritePlaced_iff {plan : Plan} {unit : CompilationUnit} {loop : StmtId}
    {header : Header} {body : StmtId} :
    plan.rewrite unit loop header body = plan.rewritePlaced unit loop header body ↔
      plan.imports.newImports unit.importLines = plan.imports.placedImports unit.importLines :=
  ⟨congrArg CompilationUnit.imports, congrArg _⟩

namespace CompilationUnit

variable {unit other : CompilationUnit} {body stmt : StmtId} {node : Node}

/-- A declaration of one variable, without initialiser, outside the body. -/
structure BareDeclaration (unit : CompilationUnit) (body stmt : StmtId) : Prop where
  rooted : unit.Rooted (.stmt stmt)
  outside : ¬ unit.Below (.stmt body) (.stmt stmt)
  declares : ∃ type name binding, unit.stmt? stmt = some (.declare ⟨type, [⟨name, binding, none⟩]⟩)

theorem BareDeclaration.kids_eq (h : unit.BareDeclaration body stmt) :
    unit.kids (.stmt stmt) = [] := by
  obtain ⟨type, name, binding, hs⟩ := h.declares
  rw [kids_stmt hs]
  rfl

/-- If another unit of the same size has under each node only what this one has below it, trees of
this one are trees of the other. -/
theorem Grounded.transfer (hsize : other.size = unit.size)
    (hcontains : ∀ n, other.contains n = unit.contains n)
    (hkids : ∀ n, ∀ m ∈ other.kids n, ∃ kid ∈ unit.kids n, unit.Below kid m)
    (h : unit.Grounded node) : other.Grounded node := by
  have hbelow {m n : Node} (hb : unit.Below m n) {d : Nat} (hd : unit.HeightWithin d m) :
      unit.HeightWithin d n := by
    induction hb with
    | refl => exact hd
    | tail _ hk ih =>
      cases d with
      | zero => exact ih.elim
      | succ d => exact (ih _ hk).succ
  have hheight (d : Nat) (n : Node) (hd : unit.HeightWithin d n) : other.HeightWithin d n := by
    induction d generalizing n with
    | zero => exact hd.elim
    | succ d ih =>
      intro m hm
      obtain ⟨kid, hkid, hb⟩ := hkids n m hm
      exact ih m (hbelow hb (hd kid hkid))
  have hpresent (n : Node) (hn : other.Below node n) : unit.Below node n := by
    induction hn with
    | refl => exact .refl
    | tail _ hm ih =>
      obtain ⟨kid, hkid, hb⟩ := hkids _ _ hm
      exact (ih.tail hkid).trans hb
  refine ⟨?_, fun n hn => ?_⟩
  · rw [depth, hsize]
    exact hheight _ _ h.height
  · rw [hcontains]
    exact h.present n (hpresent n hn)

end CompilationUnit

open CompilationUnit

/-- A conversion of a loop of the unit, with the facts on where its parts stand. -/
structure Rewriting (unit : CompilationUnit) where
  loop : StmtId
  inits : List ExprId
  condition : Option ExprId
  updates : List ExprId
  body : StmtId
  header : Header
  removed : List StmtId
  replaced : List ExprId
  isLoop : unit.stmt? loop = some (.forLoop inits condition updates body)
  rooted : unit.Rooted (.stmt loop)
  fromHead : ∃ e ∈ inits, unit.Below (.expr e) (.expr header.iterable.expr)
  removed_nodup : removed.Nodup
  removed_cases : ∀ s ∈ removed, unit.InBlock body s ∨ unit.BareDeclaration body s
  replaced_nodup : replaced.Nodup
  replaced_below : ∀ e ∈ replaced, unit.Below (.stmt body) (.expr e)
  replaced_call : ∀ e ∈ replaced, ∃ receiver name args binding,
    unit.expr? e = some (.call receiver name args binding)
  replaced_apart : ∀ e ∈ replaced, ∀ e' ∈ replaced, unit.Below (.expr e) (.expr e') → e' = e
  replaced_stays : ∀ s ∈ removed, ∀ e ∈ replaced, ¬ unit.Below (.stmt s) (.expr e)

namespace Rewriting

variable {unit : CompilationUnit} (r : Rewriting unit)

/-- The nodes that the conversion changes. -/
def nodes : List Node := .stmt r.loop :: (r.removed.map .stmt ++ r.replaced.map .expr)

def steps : List PlanStep :=
  .replaceLoop r.loop r.header r.body ::
    (r.removed.map .removeStatement ++ r.replaced.map (.replaceWithName · r.header.name))

/-- The step at a node. -/
def stepAt : Node → PlanStep
  | .stmt s => if s = r.loop then .replaceLoop r.loop r.header r.body else .removeStatement s
  | .expr e => .replaceWithName e r.header.name

theorem mem_nodes {n : Node} : n ∈ r.nodes ↔ n = .stmt r.loop ∨
    (∃ s ∈ r.removed, n = .stmt s) ∨ ∃ e ∈ r.replaced, n = .expr e := by
  simp [nodes, eq_comm]

theorem removed_mem {s : StmtId} (hs : s ∈ r.removed) : .stmt s ∈ r.nodes :=
  r.mem_nodes.2 (.inr (.inl ⟨s, hs, rfl⟩))

theorem body_mem : .stmt r.body ∈ unit.kids (.stmt r.loop) := by
  rw [kids_stmt r.isLoop]
  exact List.mem_append_right _ (List.mem_singleton_self _)

theorem head_mem {e : ExprId} (h : e ∈ r.inits ++ r.condition.toList ++ r.updates) :
    .expr e ∈ unit.kids (.stmt r.loop) := by
  rw [kids_stmt r.isLoop]
  exact List.mem_append_left _ (List.mem_map_of_mem h)

theorem rooted_body : unit.Rooted (.stmt r.body) := r.rooted.kid r.body_mem

theorem rooted_of_mem_nodes {n : Node} (h : n ∈ r.nodes) : unit.Rooted n := by
  rcases r.mem_nodes.1 h with rfl | ⟨s, hs, rfl⟩ | ⟨e, he, rfl⟩
  · exact r.rooted
  · rcases r.removed_cases s hs with hin | hbare
    · exact r.rooted_body.kid hin.mem_kids
    · exact hbare.rooted
  · exact r.rooted_body.below (r.replaced_below e he)

section

variable (hu : unit.SingleUse) (hc : unit.Complete)

include hu hc

theorem loop_not_removed : r.loop ∉ r.removed := by
  intro h
  have hg := hu.grounded hc r.rooted
  rcases r.removed_cases _ h with hin | hbare
  · exact hg.not_below r.body_mem (.single hin.mem_kids)
  · obtain ⟨type, name, binding, hs⟩ := hbare.declares
    simp [r.isLoop] at hs

theorem nodes_nodup : r.nodes.Nodup := by
  refine List.nodup_cons.2 ⟨fun h => ?_, List.nodup_append.2 ⟨?_, ?_, ?_⟩⟩
  · have hloop := r.loop_not_removed hu hc
    simp [hloop] at h
  · exact r.removed_nodup.map fun _ _ h => Node.stmt.inj h
  · exact r.replaced_nodup.map fun _ _ h => Node.expr.inj h
  · intro a ha b hb heq
    obtain ⟨s, -, rfl⟩ := List.mem_map.1 ha
    obtain ⟨e, -, rfl⟩ := List.mem_map.1 hb
    contradiction

theorem steps_eq : r.steps = r.nodes.map r.stepAt := by
  have hloop := r.loop_not_removed hu hc
  have hremoved : (r.removed.map Node.stmt).map r.stepAt = r.removed.map .removeStatement := by
    rw [List.map_map]
    refine List.map_congr_left fun s hs => if_neg ?_
    rintro rfl
    exact hloop hs
  rw [steps, nodes, List.map_cons, List.map_append, hremoved, List.map_map, stepAt, if_pos rfl]
  rfl

/-- Nothing else changes below a statement that goes. -/
theorem eq_of_below_removed {s : StmtId} (hs : s ∈ r.removed) {n : Node} (hn : n ∈ r.nodes)
    (hb : unit.Below (.stmt s) n) : n = .stmt s := by
  rcases r.removed_cases s hs with hin | hbare
  · have hbody := hu.grounded hc r.rooted_body
    have hbelow : unit.Below (.stmt r.body) n := .head hin.mem_kids hb
    rcases r.mem_nodes.1 hn with rfl | ⟨s', hs', rfl⟩ | ⟨e, he, rfl⟩
    · exact ((hu.grounded hc r.rooted).not_below r.body_mem hbelow).elim
    · rcases r.removed_cases s' hs' with hin' | hbare'
      · exact (hu.kids_apart hbody hin.mem_kids hin'.mem_kids hb .refl).symm
      · exact (hbare'.outside hbelow).elim
    · exact (r.replaced_stays s hs e he hb).elim
  · rcases Relation.ReflTransGen.cases_head hb with rfl | ⟨kid, hk, -⟩
    · rfl
    · rw [hbare.kids_eq] at hk
      exact (List.not_mem_nil hk).elim

omit hu hc in
/-- Below an expression only calls change. -/
theorem exists_replaced {e : ExprId} {n : Node} (hn : n ∈ r.nodes) (hb : unit.Below (.expr e) n) :
    ∃ e' ∈ r.replaced, n = .expr e' := by
  obtain ⟨e', rfl⟩ := exists_expr_of_below hb
  rcases r.mem_nodes.1 hn with h | ⟨s, -, h⟩ | h
  · contradiction
  · contradiction
  · exact h

omit hu hc in
theorem eq_of_below_replaced {e : ExprId} (he : e ∈ r.replaced) {n : Node} (hn : n ∈ r.nodes)
    (hb : unit.Below (.expr e) n) : n = .expr e := by
  obtain ⟨e', he', rfl⟩ := r.exists_replaced hn hb
  rw [r.replaced_apart e he e' he' hb]

/-- The old head of the loop goes as a whole. -/
theorem not_below_head {e : ExprId} (he : e ∈ r.inits ++ r.condition.toList ++ r.updates) {n : Node}
    (hn : n ∈ r.nodes) : ¬ unit.Below (.expr e) n := by
  intro hb
  obtain ⟨e', he', rfl⟩ := r.exists_replaced hn hb
  have heq := hu.kids_apart (hu.grounded hc r.rooted) (r.head_mem he) r.body_mem hb
    (r.replaced_below e' he')
  contradiction

end

/-- The changed nodes in the tree of a node, in the order of the text. -/
def touched (n : Node) : List Node := (unit.subtree n).filter r.nodes.contains

theorem touched_eq {n : Node} (h : unit.Grounded n) :
    r.touched n = (if r.nodes.contains n then [n] else []) ++ (unit.kids n).flatMap r.touched := by
  have hsubtree : unit.subtree n = n :: (unit.kids n).flatMap unit.subtree := by
    rw [subtree, h.nodesBelow_eq]
    rfl
  rw [touched, hsubtree, List.filter_cons, List.filter_flatMap]
  split <;> rfl

theorem touched_eq_nil {n : Node} (h : unit.Grounded n) (hn : ∀ m ∈ r.nodes, ¬ unit.Below n m) :
    r.touched n = [] := by
  refine List.filter_eq_nil_iff.2 fun m hm hcontains => ?_
  exact hn m (List.contains_iff_mem.1 hcontains) (h.mem_subtree.1 hm)

/-- A node is the only one to change in its tree if no other is below it. -/
theorem touched_singleton {n : Node} (h : unit.Grounded n) (hn : n ∈ r.nodes)
    (honly : ∀ m ∈ r.nodes, unit.Below n m → m = n) : r.touched n = [n] := by
  have hkids : (unit.kids n).flatMap r.touched = [] := by
    refine List.flatMap_eq_nil_iff.2 fun kid hk => r.touched_eq_nil (h.kid hk) fun m hm hb => ?_
    exact h.not_below hk (honly m hm (.head hk hb) ▸ hb)
  rw [r.touched_eq h, if_pos (List.contains_iff_mem.2 hn), hkids, List.append_nil]

theorem touched_of_not_mem {n : Node} (h : unit.Grounded n) (hn : n ∉ r.nodes) :
    r.touched n = (unit.kids n).flatMap r.touched := by
  rw [r.touched_eq h, if_neg fun hc => hn (List.contains_iff_mem.1 hc), List.nil_append]

section

variable (hu : unit.SingleUse) (hc : unit.Complete)

include hu hc

theorem touched_removed {s : StmtId} (hs : s ∈ r.removed) : r.touched (.stmt s) = [.stmt s] := by
  have hn := r.removed_mem hs
  exact r.touched_singleton (hu.grounded hc (r.rooted_of_mem_nodes hn)) hn
    fun m hm hb => r.eq_of_below_removed hu hc hs hm hb

theorem touched_replaced {e : ExprId} (he : e ∈ r.replaced) : r.touched (.expr e) = [.expr e] := by
  have hn : .expr e ∈ r.nodes := r.mem_nodes.2 (.inr (.inr ⟨e, he, rfl⟩))
  exact r.touched_singleton (hu.grounded hc (r.rooted_of_mem_nodes hn)) hn
    fun m hm hb => r.eq_of_below_replaced he hm hb

theorem touched_loop : r.touched (.stmt r.loop) = .stmt r.loop :: r.touched (.stmt r.body) := by
  have hg := hu.grounded hc r.rooted
  have hloop : r.nodes.contains (.stmt r.loop) = true :=
    List.contains_iff_mem.2 (r.mem_nodes.2 (.inl rfl))
  have hhead : ((r.inits ++ r.condition.toList ++ r.updates).map Node.expr).flatMap r.touched =
      [] := by
    refine List.flatMap_eq_nil_iff.2 fun n hn => ?_
    obtain ⟨e, he, rfl⟩ := List.mem_map.1 hn
    exact r.touched_eq_nil (hg.kid (r.head_mem he)) fun m hm => r.not_below_head hu hc he hm
  rw [r.touched_eq hg, if_pos hloop, kids_stmt r.isLoop, Stmt.children, List.flatMap_append, hhead,
    List.nil_append, List.flatMap_singleton]
  rfl

/-- All changed nodes, in the order of the text. -/
theorem touched_roots_perm {roots : List Node} (hroots : roots.Perm unit.roots) :
    (roots.flatMap r.touched).Perm r.nodes := by
  have hnodup : (roots.flatMap unit.subtree).Nodup :=
    (hroots.flatMap_right _).nodup_iff.2 (hu.roots_walk_nodup hc)
  have hfilter : roots.flatMap r.touched =
      (roots.flatMap unit.subtree).filter r.nodes.contains := by
    rw [List.filter_flatMap]
    rfl
  rw [hfilter]
  refine (List.perm_ext_iff_of_nodup (hnodup.filter _) (r.nodes_nodup hu hc)).2 fun n => ?_
  rw [List.mem_filter, (hroots.flatMap_right unit.subtree).mem_iff, List.contains_iff_mem]
  exact and_iff_right_of_imp fun hn => (hu.mem_allNodes hc).2 (r.rooted_of_mem_nodes hn)

end

/-- The changed unit. -/
def rewrite (imports : List Import) : CompilationUnit :=
  unit.rewriteLoop r.loop r.header r.body r.removed r.replaced imports

variable (imports : List Import)

theorem stmt?_rewrite (id : StmtId) : (r.rewrite imports).stmt? id = (unit.stmt? id).map fun s =>
    if id = r.loop then r.header.toStmt r.body else s.without r.removed := by
  rw [CompilationUnit.stmt?, CompilationUnit.stmt?, rewrite, rewriteLoop, Array.getElem?_mapIdx]

theorem expr?_rewrite (id : ExprId) : (r.rewrite imports).expr? id = (unit.expr? id).map fun e =>
    if id ∈ r.replaced then .name r.header.name none else e := by
  rw [CompilationUnit.expr?, CompilationUnit.expr?, rewrite, rewriteLoop, Array.getElem?_mapIdx,
    Option.map_map, Option.map_map]
  congr 1
  funext n
  by_cases hid : id ∈ r.replaced <;> simp [hid]

/-- The changed tree has under a node only what was below it before. -/
theorem kids_rewrite (n m : Node) (hm : m ∈ (r.rewrite imports).kids n) :
    ∃ kid ∈ unit.kids n, unit.Below kid m := by
  cases n with
  | expr id =>
    cases he : unit.expr? id with
    | none => simp [kids, children?, r.expr?_rewrite imports, he] at hm
    | some e =>
      have hnew := r.expr?_rewrite imports id
      rw [he, Option.map_some] at hnew
      rw [kids_expr hnew] at hm
      rw [kids_expr he]
      split at hm
      · simp [Expr.children] at hm
      · exact ⟨m, hm, .refl⟩
  | stmt id =>
    cases hs : unit.stmt? id with
    | none => simp [kids, children?, r.stmt?_rewrite imports, hs] at hm
    | some s =>
      have hnew := r.stmt?_rewrite imports id
      rw [hs, Option.map_some] at hnew
      rw [kids_stmt hnew] at hm
      split at hm
      · rename_i hid
        subst hid
        rcases List.mem_cons.1 hm with rfl | hm
        · obtain ⟨e, he, hb⟩ := r.fromHead
          exact ⟨.expr e, r.head_mem (by simp [he]), hb⟩
        · obtain rfl := List.mem_singleton.1 hm
          exact ⟨_, r.body_mem, .refl⟩
      · rw [kids_stmt hs]
        cases s with
        | block statements =>
          obtain ⟨t, ht, rfl⟩ := List.mem_map.1 hm
          exact ⟨_, List.mem_map_of_mem (List.mem_of_mem_filter ht), .refl⟩
        | _ => exact ⟨m, hm, .refl⟩

/-- The trees of a unit are trees after the change. -/
theorem grounded_rewrite {n : Node} (h : unit.Grounded n) : (r.rewrite imports).Grounded n := by
  refine h.transfer ?_ (fun m => ?_) (r.kids_rewrite imports)
  · simp [CompilationUnit.size, rewrite, rewriteLoop]
  · cases m <;> simp [CompilationUnit.contains, rewrite, rewriteLoop]

/-- The changed unit is printed. -/
theorem reprint_rewrite (hu : unit.SingleUse) (hc : unit.Complete) :
    (r.rewrite imports).reprint = .ok (r.rewrite imports).print :=
  reprint_of_grounded fun root hroot =>
    r.grounded_rewrite imports (hu.grounded hc ⟨root, hroot, .refl⟩)

end Rewriting
end EnhancedFor
