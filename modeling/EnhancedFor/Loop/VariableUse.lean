import EnhancedFor.Loop.Iterator

/-!
How a node uses a variable: it may declare it, write it or refer to it.
-/

namespace EnhancedFor

namespace Declaration

def declares (d : Declaration) (var : VarId) : Bool :=
  d.fragments.any fun f => f.binding == some var

/-- Declares the variable with an initialiser. -/
def initializes (d : Declaration) (var : VarId) : Bool :=
  d.fragments.any fun f => f.binding == some var && f.init.isSome

end Declaration

namespace CompilationUnit

/-- The declaration in a local variable statement or a declaring expression. -/
def declarationAt? (unit : CompilationUnit) : Node → Option Declaration
  | .stmt id => match unit.stmt? id with
    | some (.declare decl) => some decl
    | _ => none
  | .expr id => match unit.expr? id with
    | some (.declare decl) => some decl
    | _ => none

def declaresAt (unit : CompilationUnit) (var : VarId) (node : Node) : Bool :=
  (unit.declarationAt? node).any fun d => d.declares var

/-- The parameter of a loop over an iterable is declared by the loop. -/
def bindsAt (unit : CompilationUnit) (var : VarId) (node : Node) : Bool :=
  unit.declaresAt var node ||
    match node with
    | .stmt id => match unit.stmt? id with
      | some (.forEach param _ _) => param.binding == some var
      | _ => false
    | .expr _ => false

/-- An assignment, an increment or decrement, or a declaration with an initialiser. Parentheses and
casts around the target do not matter. -/
def writesAt (unit : CompilationUnit) (var : VarId) (node : Node) : Bool :=
  ((unit.declarationAt? node).any fun d => d.initializes var) ||
    match node with
    | .stmt _ => false
    | .expr id => match unit.expr? id with
      | some (.assign _ target _) => unit.varOf? (unit.strip target) == some var
      | some (.unary op operand) => op.isUpdate && unit.varOf? (unit.strip operand) == some var
      | _ => false

def refersAt (unit : CompilationUnit) (var : VarId) : Node → Bool
  | .expr id => unit.varOf? id == some var
  | .stmt _ => false

/-- A field of the variable has an initialiser. -/
def fieldInitialized (unit : CompilationUnit) (var : VarId) : Bool :=
  unit.fieldFragments.any fun f => f.binding == some var && f.init.isSome

end CompilationUnit
end EnhancedFor
