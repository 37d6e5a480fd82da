import EnhancedFor.Syntax.Unit

/-!
Walking a tree of nodes in pre-order. The visitor sees each node with a state and decides whether
the walk goes below it.
-/

namespace EnhancedFor

inductive Descend where
  | children
  | skip
  deriving DecidableEq, Repr

namespace CompilationUnit

/-- Nodes of the tree below a node, itself included, to a nesting of `depth`. -/
def weightWithin (unit : CompilationUnit) : Nat → Node → Nat
  | 0, _ => 0
  | depth + 1, node =>
    ((unit.children? node).getD []).foldr (fun child n => weightWithin unit depth child + n) 1

/-- The number of nodes a walk can visit. -/
def weight (unit : CompilationUnit) (node : Node) : Nat := unit.weightWithin unit.depth node

/-- Visits the nodes of the stack, top first, for at most `steps` visits. -/
def walkStack (unit : CompilationUnit) (visit : Node → σ → σ × Descend) :
    Nat → List Node → σ → Except Fault σ
  | 0, _, state => .ok state
  | _, [], state => .ok state
  | steps + 1, node :: stack, state =>
    match visit node state with
    | (state, .skip) => walkStack unit visit steps stack state
    | (state, .children) =>
      match unit.children? node with
      | some kids => walkStack unit visit steps (kids ++ stack) state
      | none => .error .unknownNode

def walk (unit : CompilationUnit) (root : Node) (visit : Node → σ → σ × Descend) (state : σ) :
    Except Fault σ :=
  unit.walkStack visit (unit.weight root) [root] state

/-- The nodes that a walk from `root` visits, in order, if it goes below the nodes that `descend`
holds for. -/
def visited (unit : CompilationUnit) (root : Node) (descend : Node → Bool) :
    Except Fault (List Node) :=
  (unit.walk root (fun node out =>
    (node :: out, if descend node then .children else .skip)) []).map List.reverse

/-- The same for a root whose whole tree is known, as it is for the roots of a unit. -/
def nodesBelow (unit : CompilationUnit) (root : Node) (descend : Node → Bool) : List Node :=
  (unit.visited root descend).toOption.getD []

/-- All nodes of the tree at `root`. -/
def subtree (unit : CompilationUnit) (root : Node) : List Node :=
  unit.nodesBelow root fun _ => true

/-- The unit itself if it has all nodes below its roots. -/
def complete (unit : CompilationUnit) : Except Fault CompilationUnit := do
  let _ ← unit.roots.mapM fun root => unit.visited root fun _ => true
  return unit

/-- All nodes of the trees at the roots of the unit. -/
def allNodes (unit : CompilationUnit) : List Node := unit.roots.flatMap unit.subtree

end CompilationUnit
end EnhancedFor
