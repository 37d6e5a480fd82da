import EnhancedFor.Loop.Counted
import EnhancedFor.Loop.Imports
import EnhancedFor.Loop.Names

/-!
The plan of a conversion: what happens to which node, without any text.
-/

namespace EnhancedFor

/-- How the iterable comes into the new header: calls are moved, other expressions copied. -/
inductive Transplant where
  | move (expr : ExprId)
  | copy (expr : ExprId)
  deriving DecidableEq, Repr

def Transplant.expr : Transplant → ExprId
  | .move e => e
  | .copy e => e

/-- The head `for (<typeText> <name> : <iterable>)` of the new loop. -/
structure Header where
  elementType : TypeId
  typeText : String
  name : String
  iterable : Transplant
  deriving DecidableEq, Repr

inductive PlanStep where
  | replaceLoop (loop : StmtId) (header : Header) (body : StmtId)
  | removeStatement (stmt : StmtId)
  | replaceWithName (expr : ExprId) (name : String)
  deriving DecidableEq, Repr

/-- A place where the name of the loop variable stands after the conversion. -/
inductive LinkedPosition where
  | headerName
  | replacement (expr : ExprId)
  | reference (expr : ExprId)
  deriving DecidableEq, Repr

structure Plan where
  steps : List PlanStep
  proposals : List String
  positions : List LinkedPosition
  imports : ImportChanges
  deriving DecidableEq, Repr

namespace Plan

def empty : Plan := ⟨[], [], [], .empty⟩

def header? (plan : Plan) : Option Header :=
  plan.steps.findSome? fun
    | .replaceLoop _ header _ => some header
    | _ => none

def removedStatements (plan : Plan) : List StmtId :=
  plan.steps.filterMap fun
    | .removeStatement stmt => some stmt
    | _ => none

def replacedCalls (plan : Plan) : List ExprId :=
  plan.steps.filterMap fun
    | .replaceWithName expr _ => some expr
    | _ => none

end Plan

namespace Classification

/-- The statement of the body block that an occurrence stands in, if it stands there directly. -/
def occurrenceStmt? (unit : CompilationUnit) (parents : Parents) (body : StmtId) (o : Occurrence) :
    Option StmtId :=
  let stmt := match o with
    | .declaration stmt _ => some stmt
    | .assignment id _ => parents.enclosingStmt? (.expr id)
  match unit.stmt? body with
  | some (.block statements) => stmt.filter statements.contains
  | _ => none

/-- The outer declaration of the element, then the statements that give it an element. -/
def removedStatements (c : Classification) (unit : CompilationUnit) (body : StmtId) : List StmtId :=
  let parents := Parents.ofUnit unit
  ((c.element.bind (·.outerDeclaration)).toList ++
    c.occurrences.filterMap (occurrenceStmt? unit parents body)).eraseDups

/-- Whether the parts of a node of the body stay as they are. -/
def keepsParts (c : Classification) (removed : List StmtId) : Node → Bool
  | .stmt id => !removed.contains id
  | .expr id => !c.advanceCalls.contains id

/-- The expressions of the body that stay, down to the advance calls, which are the last seen. -/
def remainingExprs (c : Classification) (unit : CompilationUnit) (body : StmtId) : List ExprId :=
  (unit.nodesBelow (.stmt body) (c.keepsParts (c.removedStatements unit body))).filterMap fun
    | .expr id => some id
    | .stmt _ => none

/-- The advance calls that stay: the name of the loop variable takes their place. -/
def replacedCalls (c : Classification) (unit : CompilationUnit) (body : StmtId) : List ExprId :=
  (c.remainingExprs unit body).filter c.advanceCalls.contains

/-- A simple name bound to the element. -/
def isElementName (c : Classification) (unit : CompilationUnit) (id : ExprId) : Bool :=
  match unit.expr? id with
  | some (.name _ (some var)) => (c.element.map (·.var)) == some var
  | _ => false

/-- The names of the element that stay. -/
def references (c : Classification) (unit : CompilationUnit) (body : StmtId) : List ExprId :=
  ((c.remainingExprs unit body).filter (!c.advanceCalls.contains ·)).filter (c.isElementName unit)

/-- The element type is written by its simple name unless some name in it means another type in the
unit. -/
def usesQualifiedType (c : Classification) (unit : CompilationUnit) (store : TypeStore) : Bool :=
  (store.mentionedNames c.elementType).any unit.isShadowed

def header (c : Classification) (unit : CompilationUnit) (store : TypeStore) (name : String) :
    Except Fault Header := do
  let type ← store.type c.elementType
  store.require (store.mentionLookups c.elementType)
  let typeText := if c.usesQualifiedType unit store then type.qualifiedName else type.name
  let iterable := match unit.expr? c.iterableExpr with
    | some (.call ..) => .move c.iterableExpr
    | _ => .copy c.iterableExpr
  return ⟨c.elementType, typeText, name, iterable⟩

def fallbackName : String := "element"

/-- The loop, the statements and the calls go; the body and the iterable stay. -/
def nodeChanges (c : Classification) (unit : CompilationUnit) (store : TypeStore) (body : StmtId) :
    NodeChanges :=
  { added := if c.usesQualifiedType unit store then [] else store.mentionedNames c.elementType
    removed := (c.removedStatements unit body).map .stmt ++
      .stmt c.loop :: (c.replacedCalls unit body).map .expr
    retained := [.stmt body, .expr c.iterableExpr] }

/-- Plans the conversion of a loop with the given body. -/
def planBody (c : Classification) (unit : CompilationUnit) (names : Name.Candidates) (body : StmtId)
    (header : Header) (imports : ImportChanges) : Plan :=
  let removed := c.removedStatements unit body
  let replaced := c.replacedCalls unit body
  { steps := .replaceLoop c.loop header body ::
      removed.map .removeStatement ++ replaced.map (.replaceWithName · header.name)
    proposals := names.toList
    positions := .headerName :: replaced.map .replacement ++
      (c.references unit body).map .reference
    imports }

/-- A loop that is no counted one has nothing to plan; for others all code of the unit matters. -/
def plan (c : Classification) (unit : CompilationUnit) (store : TypeStore)
    (names : Name.Candidates) : Except Fault Plan :=
  match unit.stmt? c.loop with
  | none => .error .unknownNode
  | some (.forLoop _ _ _ body) => do
    let header ← c.header unit store (names.first?.getD fallbackName)
    let imports ← (c.nodeChanges unit store body).importChanges unit store .empty
    return c.planBody unit names body header imports
  | some _ => .ok .empty

end Classification
end EnhancedFor
