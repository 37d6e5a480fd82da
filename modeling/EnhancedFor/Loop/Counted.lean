import EnhancedFor.Syntax.Walk

/-!
The counted loops of a unit.
-/

namespace EnhancedFor
namespace CompilationUnit

def isCountedLoop (unit : CompilationUnit) (id : StmtId) : Bool :=
  match unit.stmt? id with
  | some (.forLoop ..) => true
  | _ => false

/-- All counted loops in the order of the text. -/
def countedLoops (unit : CompilationUnit) : List StmtId :=
  unit.allNodes.filterMap fun
    | .stmt id => if unit.isCountedLoop id then some id else none
    | .expr _ => none

end CompilationUnit
end EnhancedFor
