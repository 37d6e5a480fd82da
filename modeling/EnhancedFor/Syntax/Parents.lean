import EnhancedFor.Syntax.Walk

/-!
Links from nodes to the nodes they are parts of, for all code of a unit.
-/

namespace EnhancedFor

/-- Pairs of a child and its parent, the latest first. -/
structure Parents where
  links : List (Node × Node)

namespace Parents

def ofUnit (unit : CompilationUnit) : Parents :=
  ⟨(unit.allNodes.flatMap fun node =>
    ((unit.children? node).getD []).map fun kid => (kid, node)).reverse⟩

def parent? (parents : Parents) (node : Node) : Option Node := parents.links.lookup node

/-- A node and the nodes above it, for at most `steps` of them. -/
def pathWithin (parents : Parents) : Nat → Node → List Node
  | 0, _ => []
  | steps + 1, node =>
    node :: match parents.parent? node with
      | some up => pathWithin parents steps up
      | none => []

/-- A node and all nodes above it, the nearest first. No path is longer than the links and one. -/
def path (parents : Parents) (node : Node) : List Node :=
  parents.pathWithin (parents.links.length + 1) node

/-- The nearest statement on the path; a statement is its own. -/
def enclosingStmt? (parents : Parents) (node : Node) : Option StmtId :=
  (parents.path node).findSome? fun
    | .stmt id => some id
    | .expr _ => none

/-- A node lies within itself and within the nodes above it. -/
def isWithin (parents : Parents) (node ancestor : Node) : Bool :=
  (parents.path node).contains ancestor

end Parents
end EnhancedFor
