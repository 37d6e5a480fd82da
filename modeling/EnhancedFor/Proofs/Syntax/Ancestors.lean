import EnhancedFor.Proofs.Syntax.Parents
import EnhancedFor.Proofs.Syntax.Scopes

/-!
The way up from a node. In a complete unit without repeated nodes the links undo the step from a
node to its parts: the way up from a node of the trees goes through exactly the nodes that it is
below, up to its root, and from any node at all it ends. Main statement: parents, the test for lying
within a node and the statement around a node are what the trees say.
-/

namespace EnhancedFor
namespace CompilationUnit

theorem Grounded.below_antisymm {unit : CompilationUnit} {a b : Node} (h : unit.Grounded a)
    (hab : unit.Below a b) (hba : unit.Below b a) : a = b := by
  rcases Relation.ReflTransGen.cases_head hab with heq | ⟨kid, hk, hb⟩
  · exact heq
  · exact (h.not_below hk (hb.trans hba)).elim

/-- The statement is the node or above it, and so near that all other such statements are above
it. -/
def NearestStmt (unit : CompilationUnit) (stmt : StmtId) (node : Node) : Prop :=
  unit.Below (.stmt stmt) node ∧
    ∀ other, unit.Below (.stmt other) node → unit.Below (.stmt other) (.stmt stmt)

/-- Statements above an expression are those above the node that it is a part of. -/
theorem SingleUse.nearestStmt_expr_iff {unit : CompilationUnit} (hu : unit.SingleUse)
    {parent : Node} {id : ExprId} {stmt : StmtId} (hk : .expr id ∈ unit.kids parent) :
    unit.NearestStmt stmt (.expr id) ↔ unit.NearestStmt stmt parent := by
  have habove (s : StmtId) : unit.Below (.stmt s) (.expr id) ↔ unit.Below (.stmt s) parent :=
    ⟨fun hb => hu.below_parent hb (by simp) hk, fun hb => hb.tail hk⟩
  simp only [NearestStmt, habove]

end CompilationUnit

namespace Parents

open Relation CompilationUnit

variable {unit : CompilationUnit} {node parent a : Node}

/-- The nodes on the way up, each the parent of the one before it; the last one has no parent. -/
inductive Climbs (parents : Parents) : Node → List Node → Prop where
  | top {node : Node} (h : parents.parent? node = none) : Climbs parents node [node]
  | up {node parent : Node} {path : List Node} (h : parents.parent? node = some parent)
    (hpath : Climbs parents parent path) : Climbs parents node (node :: path)

section

variable (hu : unit.SingleUse) (hc : unit.Complete)

include hu hc

theorem path_of_none (h : (ofUnit unit).parent? node = none) :
    (ofUnit unit).path node = [node] := by
  rw [path_eq hu hc, h]

theorem path_of_some (h : (ofUnit unit).parent? node = some parent) :
    (ofUnit unit).path node = node :: (ofUnit unit).path parent := by
  rw [path_eq hu hc, h]

theorem parent?_of_root (h : node ∈ unit.roots) : (ofUnit unit).parent? node = none := by
  rw [Option.eq_none_iff_forall_ne_some]
  intro parent hp
  exact hu.not_mem_roots ((parent?_eq_some_iff hu hc).1 hp).2 h

theorem parent?_of_not_rooted (h : ¬ unit.Rooted node) : (ofUnit unit).parent? node = none := by
  rw [Option.eq_none_iff_forall_ne_some]
  intro parent hp
  obtain ⟨hr, hk⟩ := (parent?_eq_some_iff hu hc).1 hp
  exact h (hr.kid hk)

/-- Induction from the roots down along the links. -/
@[elab_as_elim]
theorem rec_down {motive : (node : Node) → unit.Rooted node → Prop}
    (root : ∀ node (hr : node ∈ unit.roots), motive node ⟨node, hr, .refl⟩)
    (kid : ∀ node kid (h : unit.Rooted node) (hk : kid ∈ unit.kids node),
      (ofUnit unit).parent? kid = some node → motive node h → motive kid (h.kid hk))
    (h : unit.Rooted node) : motive node h := by
  obtain ⟨top, hr, hb⟩ := h
  induction hb with
  | refl => exact root top hr
  | @tail p n hp hk ih =>
    have hrooted : unit.Rooted p := ⟨top, hr, hp⟩
    exact kid p n hrooted hk ((parent?_eq_some_iff hu hc).2 ⟨hrooted, hk⟩) ih

/-- The bound on the way up never cuts it short, whatever the node. -/
theorem climbs_path (node : Node) : (ofUnit unit).Climbs node ((ofUnit unit).path node) := by
  by_cases h : unit.Rooted node
  · induction node, h using rec_down hu hc with
    | root node hr =>
      have htop := parent?_of_root hu hc hr
      rw [path_of_none hu hc htop]
      exact .top htop
    | kid node kid _ hk hp ih =>
      rw [path_of_some hu hc hp]
      exact .up hp ih
  · have htop := parent?_of_not_rooted hu hc h
    rw [path_of_none hu hc htop]
    exact .top htop

theorem mem_path_iff (h : unit.Rooted node) : a ∈ (ofUnit unit).path node ↔ unit.Below a node := by
  induction node, h using rec_down hu hc with
  | root node hr =>
    rw [path_of_none hu hc (parent?_of_root hu hc hr), List.mem_singleton]
    constructor
    · rintro rfl
      exact .refl
    · exact hu.eq_of_below_root hr
  | kid node kid _ hk hp ih =>
    rw [path_of_some hu hc hp, List.mem_cons, ih]
    constructor
    · rintro (rfl | hb)
      · exact .refl
      · exact hb.tail hk
    · intro hb
      by_cases heq : a = kid
      · exact .inl heq
      · exact .inr (hu.below_parent hb heq hk)

theorem parent?_eq_none_iff (h : unit.Rooted node) :
    (ofUnit unit).parent? node = none ↔ node ∈ unit.roots := by
  constructor
  · intro hnone
    obtain ⟨root, hr, hb⟩ := h
    rcases ReflTransGen.cases_tail hb with rfl | ⟨p, hp, hk⟩
    · exact hr
    · cases hnone.symm.trans ((parent?_eq_some_iff hu hc).2 ⟨⟨root, hr, hp⟩, hk⟩)
  · exact parent?_of_root hu hc

theorem enclosingStmt?_eq_some_iff (h : unit.Rooted node) {stmt : StmtId} :
    (ofUnit unit).enclosingStmt? node = some stmt ↔ unit.NearestStmt stmt node := by
  have hself {id : StmtId} (hr : unit.Rooted (.stmt id)) :
      (ofUnit unit).enclosingStmt? (.stmt id) = some stmt ↔ unit.NearestStmt stmt (.stmt id) := by
    rw [enclosingStmt?_stmt hu hc, Option.some.injEq]
    constructor
    · rintro rfl
      exact ⟨.refl, fun _ hb => hb⟩
    · rintro ⟨hb, hall⟩
      exact Node.stmt.inj ((hu.grounded hc hr).below_antisymm (hall id .refl) hb)
  induction node, h using rec_down hu hc with
  | root node hr =>
    cases node with
    | stmt id => exact hself ⟨_, hr, .refl⟩
    | expr id =>
      rw [enclosingStmt?_expr hu hc, parent?_of_root hu hc hr]
      constructor
      · intro hnone
        cases hnone
      · rintro ⟨hb, -⟩
        cases hu.eq_of_below_root hr hb
  | kid node kid hr hk hp ih =>
    cases kid with
    | stmt id => exact hself (hr.kid hk)
    | expr id =>
      rw [enclosingStmt?_expr hu hc, hp, hu.nearestStmt_expr_iff hk]
      exact ih

theorem enclosingStmt?_eq_none_iff (h : unit.Rooted node) :
    (ofUnit unit).enclosingStmt? node = none ↔ ∀ stmt, ¬ unit.Below (.stmt stmt) node := by
  rw [enclosingStmt?, List.findSome?_eq_none_iff]
  constructor
  · intro hnone stmt hb
    cases hnone _ ((mem_path_iff hu hc h).2 hb)
  · intro hnone n hn
    cases n with
    | expr id => rfl
    | stmt id => exact (hnone id ((mem_path_iff hu hc h).1 hn)).elim

/-- For every unit that uses no node twice and has all nodes of its trees: the parent of a node of
the trees is the one node that has it among its parts, and only roots have none; a node lies within
the nodes that it is below, itself among them; the statement around it is the nearest one, and there
is none if it is below no statement. The way up ends for every node, in the trees or not. -/
theorem ofUnit_inverts_kids :
    (∀ node, unit.Rooted node →
      (∀ parent, (ofUnit unit).parent? node = some parent ↔ node ∈ unit.kids parent) ∧
      ((ofUnit unit).parent? node = none ↔ node ∈ unit.roots) ∧
      (∀ a, (ofUnit unit).isWithin node a = true ↔ unit.Below a node) ∧
      (∀ stmt, (ofUnit unit).enclosingStmt? node = some stmt ↔ unit.NearestStmt stmt node) ∧
      ((ofUnit unit).enclosingStmt? node = none ↔ ∀ stmt, ¬ unit.Below (.stmt stmt) node)) ∧
    ∀ node, (ofUnit unit).Climbs node ((ofUnit unit).path node) := by
  refine ⟨fun node hr => ⟨fun parent => ?_, parent?_eq_none_iff hu hc hr, fun a => ?_,
    fun stmt => enclosingStmt?_eq_some_iff hu hc hr, enclosingStmt?_eq_none_iff hu hc hr⟩,
    climbs_path hu hc⟩
  · rw [parent?_eq_some_iff hu hc]
    exact ⟨fun h => h.2, fun hk => ⟨hu.rooted_parent hr hk, hk⟩⟩
  · rw [isWithin, List.contains_iff_mem]
    exact mem_path_iff hu hc hr

end

end Parents

namespace Braceless

theorem complete_print : unit.print.Complete := singleUse_print.complete_iff.1 rfl

theorem rooted_call : unit.print.Rooted (.expr ⟨3⟩) :=
  ⟨.stmt ⟨8⟩, by decide, below_body.tail (by decide)⟩

/-- The call stands in a statement of its own, which is below both loops without braces and not in
the last loop; a node that the unit lacks has nothing above it. -/
theorem call_enclosed : unit.print.SingleUse ∧ unit.print.Complete ∧
    (Parents.ofUnit unit.print).parent? (.expr ⟨3⟩) = some (.stmt ⟨1⟩) ∧
    (Parents.ofUnit unit.print).isWithin (.expr ⟨3⟩) (.stmt ⟨4⟩) = true ∧
    ¬ unit.print.Below (.stmt ⟨7⟩) (.expr ⟨3⟩) ∧ unit.print.NearestStmt ⟨1⟩ (.expr ⟨3⟩) ∧
    (Parents.ofUnit unit.print).Climbs (.expr ⟨9⟩) [.expr ⟨9⟩] := by
  obtain ⟨hrooted, hclimbs⟩ := Parents.ofUnit_inverts_kids singleUse_print complete_print
  obtain ⟨hparent, -, hwithin, hnearest, -⟩ := hrooted _ rooted_call
  have hapart : (Parents.ofUnit unit.print).isWithin (.expr ⟨3⟩) (.stmt ⟨7⟩) = false := by decide
  refine ⟨singleUse_print, complete_print, (hparent _).2 (by decide),
    (hwithin _).2 (below_loop.tail (by decide)), fun hb => ?_, (hnearest _).1 (by decide), ?_⟩
  · cases hapart.symm.trans ((hwithin _).2 hb)
  · exact hclimbs (.expr ⟨9⟩)

end Braceless
end EnhancedFor
