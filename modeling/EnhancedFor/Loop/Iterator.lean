import EnhancedFor.Types.Supertype
import EnhancedFor.Syntax.Walk

/-!
Iterators in loops: which types drive a loop, and which calls advance or test an iterator variable.
-/

namespace EnhancedFor

namespace TypeStore

/-- Iterators and enumerations, also through supertypes. -/
def isIteratorLike (store : TypeStore) (type : TypeId) : Bool :=
  (store.superType? type "java.util.Iterator").isSome ||
    (store.superType? type "java.util.Enumeration").isSome

/-- The `Iterable` above a type. -/
def iterableAbove? (store : TypeStore) (type : TypeId) : Option TypeId :=
  store.superType? type "java.lang.Iterable"

end TypeStore

namespace CompilationUnit

def advanceMethods : List String := ["next", "nextElement"]

def testMethods : List String := ["hasNext", "hasMoreElements"]

/-- Removes parentheses and casts around an expression, at most `depth` of them. -/
def stripWithin (unit : CompilationUnit) : Nat → ExprId → ExprId
  | 0, id => id
  | depth + 1, id =>
    match unit.expr? id with
    | some (.paren inner) => stripWithin unit depth inner
    | some (.cast _ inner) => stripWithin unit depth inner
    | _ => id

def strip (unit : CompilationUnit) (id : ExprId) : ExprId := unit.stripWithin unit.depth id

/-- The variable that an expression refers to by name or field access. -/
def varOf? (unit : CompilationUnit) (id : ExprId) : Option VarId := (unit.expr? id).bind Expr.var?

/-- A call without arguments, on the iterator, of a method with one of the names. The name is that
of the method itself, not the written one. -/
def isCallOn (unit : CompilationUnit) (store : TypeStore) (iterator : VarId) (names : List String)
    (id : ExprId) : Bool :=
  match unit.expr? id with
  | some (.call (some receiver) _ args (some method)) =>
    args.isEmpty && ((store.method? method).any fun m => names.contains m.name) &&
      unit.varOf? receiver == some iterator
  | _ => false

def isAdvance (unit : CompilationUnit) (store : TypeStore) (iterator : VarId) (id : ExprId) :
    Bool :=
  unit.isCallOn store iterator advanceMethods id

/-- The method that has to be looked up to tell what a node calls: that of a call without
arguments. -/
def calledAt (unit : CompilationUnit) : Node → List Binding
  | .stmt _ => []
  | .expr id => match unit.expr? id with
    | some (.call (some _) _ [] (some method)) => [.method method]
    | _ => []

/-- The advance calls on the iterator in a body, in the order of the text. -/
def advanceCalls (unit : CompilationUnit) (store : TypeStore) (iterator : VarId) (body : StmtId) :
    List ExprId :=
  (unit.subtree (.stmt body)).filterMap fun
    | .expr id => if unit.isAdvance store iterator id then some id else none
    | .stmt _ => none

end CompilationUnit
end EnhancedFor
