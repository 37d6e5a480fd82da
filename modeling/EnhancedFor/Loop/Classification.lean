import EnhancedFor.Java.Level
import EnhancedFor.Loop.VariableUse

/-!
Whether a counted loop is driven by an iterator over an iterable, and what of it a conversion needs
to know: the iterator, the iterable, the advance calls and the variable that takes each element.
Beside each step stands what it looks up in the type store; what the store lacks is a fault.
-/

namespace EnhancedFor

/-- What the loop goes over. -/
inductive IterableSource where
  | variable (var : VarId)
  | method (method : MethodId)
  deriving DecidableEq, Repr

/-- The variable that takes the elements. One that lives outside the loop body may have a
declaration of its own that a conversion drops. -/
structure Element where
  var : VarId
  declaredInLoop : Bool
  outerDeclaration : Option StmtId
  deriving DecidableEq, Repr

/-- A place in the body where the element variable takes an element. -/
inductive Occurrence where
  | declaration (stmt : StmtId) (var : VarId)
  | assignment (assignment target : ExprId)
  deriving DecidableEq, Repr

/-- The occurrence is the assignment at the node. -/
def Occurrence.isAssignment (node : Node) : Occurrence → Bool
  | .assignment id _ => node == .expr id
  | .declaration .. => false

structure Classification where
  loop : StmtId
  iterator : VarId
  iterable : IterableSource
  iterableExpr : ExprId
  element : Option Element
  occurrences : List Occurrence
  advanceCalls : List ExprId
  elementType : TypeId
  deriving DecidableEq, Repr

/-- Why a loop cannot be converted. -/
inductive Rejection where
  | notACountedLoop
  | levelTooLow
  | noIterator
  | noIterable
  | elementAssignedElsewhere
  | elementUsedOutsideLoop
  | unsupportedCondition
  | iteratorUsedInBody
  | multipleAdvanceCalls
  deriving DecidableEq, Repr

def Rejection.label : Rejection → String
  | .notACountedLoop => "NotAForLoop"
  | .levelTooLow => "SourceLevelTooLow"
  | .noIterator => "NoIterator"
  | .noIterable => "NoIterable"
  | .elementAssignedElsewhere => "ElementAssignedElsewhere"
  | .elementUsedOutsideLoop => "ElementUsedOutsideLoop"
  | .unsupportedCondition => "UnsupportedCondition"
  | .iteratorUsedInBody => "IteratorUsedInBody"
  | .multipleAdvanceCalls => "MultipleAdvanceCalls"

structure ClassifyOptions where
  strict : Bool
  level : Java.Level
  deriving DecidableEq, Repr

namespace CompilationUnit

/-- The variables that the initialisers of a loop declare. -/
def headerFragments (unit : CompilationUnit) (inits : List ExprId) : List Fragment :=
  inits.flatMap fun e =>
    match unit.expr? e with
    | some (.declare decl) => decl.fragments
    | _ => []

/-- The last iterator that the initialisers declare. -/
def iteratorIn? (unit : CompilationUnit) (store : TypeStore) (inits : List ExprId) : Option VarId :=
  (((unit.headerFragments inits).filterMap (·.binding)).filter fun v =>
    ((store.var? v).bind (·.type)).any store.isIteratorLike).getLast?

/-- The variable and its type are looked up. -/
def iteratorLookups (store : TypeStore) (f : Fragment) : List Binding :=
  f.binding.toList.flatMap fun v => .var v :: ((store.var? v).bind (·.type)).toList.map .type

/-- The static type of a call, else the type that its method returns. -/
def resultType? (unit : CompilationUnit) (store : TypeStore) (id : ExprId) (method : MethodId) :
    Option TypeId :=
  (unit.exprType? id).or ((store.method? method).bind (·.returnType))

/-- The receiver of a call that makes an iterator from an iterable, and what the receiver is bound
to. -/
def iterableAt? (unit : CompilationUnit) (store : TypeStore) :
    Node → Option (ExprId × Option IterableSource)
  | .stmt _ => none
  | .expr id =>
    match unit.expr? id with
    | some (.call (some receiver) _ _ (some method)) =>
      let result := unit.resultType? store id method
      let goesOver := (unit.exprType? receiver).any fun t => (store.iterableAbove? t).isSome
      if result.any store.isIteratorLike && goesOver then
        some (receiver, match unit.expr? receiver with
          | some (.name _ binding) => binding.map .variable
          | some (.field _ _ binding) => binding.map .variable
          | some (.call _ _ _ binding) => binding.map .method
          | _ => none)
      else none
    | _ => none

/-- The method of a call and its result are looked up, then the type of the receiver if the result
is an iterator. -/
def iterableLookups (unit : CompilationUnit) (store : TypeStore) : Node → List Binding
  | .stmt _ => []
  | .expr id => match unit.expr? id with
    | some (.call (some receiver) _ _ (some method)) =>
      let result := unit.resultType? store id method
      .method method :: result.toList.map .type ++
        if result.any store.isIteratorLike then (unit.exprType? receiver).toList.map .type else []
    | _ => []

/-- What is looked up to find iterator and iterable. -/
def headerLookups (unit : CompilationUnit) (store : TypeStore) (inits : List ExprId) :
    List Binding :=
  (unit.headerFragments inits).flatMap fun f =>
    iteratorLookups store f ++ (f.init.toList.flatMap fun e =>
      (unit.subtree (.expr e)).flatMap (unit.iterableLookups store))

/-- The last such call in the initialisers. -/
def iterableIn? (unit : CompilationUnit) (store : TypeStore) (inits : List ExprId) :
    Option (ExprId × Option IterableSource) :=
  ((((unit.headerFragments inits).filterMap (·.init)).flatMap fun e =>
    unit.subtree (.expr e)).filterMap (unit.iterableAt? store)).getLast?

/-- The type argument of the iterator, else that of the iterable above the type of the iterable
expression, else `Object`. A generic type used without arguments says nothing about its elements. -/
def elementType (unit : CompilationUnit) (store : TypeStore) (iterator : VarId)
    (iterableExpr : ExprId) : TypeId :=
  let ofIterator := ((store.var? iterator).bind (·.type)).bind store.firstTypeArgument?
  let ofIterable := do
    let type ← unit.exprType? iterableExpr
    let binding ← store.type? type
    if binding.typeParameters.isEmpty then
      store.firstTypeArgument? (← store.iterableAbove? type)
    else none
  (ofIterator.or ofIterable).getD TypeStore.object

/-- The literal `null` or an advance call, in any parentheses and casts. -/
def feedsElement (unit : CompilationUnit) (store : TypeStore) (iterator : VarId) (value : ExprId) :
    Bool :=
  let value := unit.strip value
  (unit.expr? value).any Expr.isNullLiteral || unit.isAdvance store iterator value

/-- The places where a node lets a variable of the element type take an element. -/
def occurrencesAt (unit : CompilationUnit) (store : TypeStore) (iterator : VarId) (type : TypeId) :
    Node → List Occurrence
  | .stmt id =>
    match unit.stmt? id with
    | some (.declare decl) => decl.fragments.filterMap fun f => do
        let var ← f.binding
        let init ← f.init
        if unit.feedsElement store iterator init && (store.var? var).bind (·.type) == some type then
          some (.declaration id var)
        else none
    | _ => []
  | .expr id =>
    match unit.expr? id with
    | some (.assign .set target value) =>
      if unit.feedsElement store iterator value && unit.exprType? target == some type &&
          (unit.varOf? target).isSome then
        [.assignment id target]
      else []
    | _ => []

/-- The variables that a node declares with `null` or an advance call are looked up. -/
def elementLookups (unit : CompilationUnit) (store : TypeStore) (iterator : VarId) :
    Node → List Binding
  | .stmt id => match unit.stmt? id with
    | some (.declare decl) =>
      (decl.fragments.filter fun f => f.init.any (unit.feedsElement store iterator)).flatMap
        (·.bindings)
    | _ => []
  | .expr _ => []

/-- The search for such places goes below a node that is none itself and no counted loop. -/
def searched (unit : CompilationUnit) (store : TypeStore) (iterator : VarId) (type : TypeId)
    (node : Node) : Bool :=
  (unit.occurrencesAt store iterator type node).isEmpty && match node with
    | .stmt id => match unit.stmt? id with
      | some (.forLoop ..) => false
      | _ => true
    | .expr _ => true

/-- All such places of a body. -/
def occurrences (unit : CompilationUnit) (store : TypeStore) (iterator : VarId) (type : TypeId)
    (body : StmtId) : List Occurrence :=
  (unit.nodesBelow (.stmt body) (unit.searched store iterator type)).flatMap
    (unit.occurrencesAt store iterator type)

/-- What is looked up in the search for such places and for advance calls. -/
def bodyLookups (unit : CompilationUnit) (store : TypeStore) (iterator : VarId) (type : TypeId)
    (body : StmtId) : List Binding :=
  (unit.nodesBelow (.stmt body) (unit.searched store iterator type)).flatMap
      (unit.elementLookups store iterator) ++
    (unit.subtree (.stmt body)).flatMap unit.calledAt

/-- The variable that an occurrence gives an element to. -/
def occurrenceVar? (unit : CompilationUnit) : Occurrence → Option VarId
  | .declaration _ var => some var
  | .assignment _ target => unit.varOf? target

/-- Nodes of the unit outside the body. -/
def nodesOutside (unit : CompilationUnit) (body : StmtId) : List Node :=
  (unit.roots.flatMap fun root => unit.nodesBelow root (· != .stmt body)).filter (· != .stmt body)

/-- Nodes of the body outside the given assignments. -/
def nodesInside (unit : CompilationUnit) (body : StmtId) (occurrences : List Occurrence) :
    List Node :=
  let recognized (node : Node) : Bool := occurrences.any (·.isAssignment node)
  (unit.nodesBelow (.stmt body) (!recognized ·)).filter (!recognized ·)

/-- Why a variable that the body does not declare cannot be the element: it takes values other than
in the recognised assignments, or is read outside the body. -/
def outerUse? (unit : CompilationUnit) (body : StmtId) (var : VarId)
    (occurrences : List Occurrence) : Option Rejection :=
  let outside := unit.nodesOutside body
  if unit.fieldInitialized var || outside.any (unit.writesAt var) ||
      (unit.nodesInside body occurrences).any (unit.writesAt var) then
    some .elementAssignedElsewhere
  else if outside.any (unit.refersAt var) then some .elementUsedOutsideLoop
  else none

/-- The declaration to drop for an element that the body does not declare. It is a field or a local
with a declaration of its own. -/
def outerDeclaration (unit : CompilationUnit) (store : TypeStore) (body : StmtId) (var : VarId)
    (occurrences : List Occurrence) : Except Rejection (Option StmtId) :=
  match unit.outerUse? body var occurrences with
  | some r => .error r
  | none =>
    match store.var? var with
    | some ⟨_, _, .field⟩ => .ok none
    | some ⟨_, _, .localVar⟩ =>
      match (unit.nodesOutside body).filter (unit.declaresAt var) with
      | [.stmt id] =>
        if (unit.declarationAt? (.stmt id)).any fun d => d.fragments.length == 1 then .ok (some id)
        else .error .elementUsedOutsideLoop
      | _ => .error .elementUsedOutsideLoop
    | _ => .error .elementUsedOutsideLoop

/-- The last variable that takes an element in the body, if the body does not declare it. -/
def outerElement? (unit : CompilationUnit) (body : StmtId) (occurrences : List Occurrence) :
    Option VarId :=
  (occurrences.getLast?.bind unit.occurrenceVar?).filter fun var =>
    !(unit.subtree (.stmt body)).any (unit.bindsAt var)

/-- The kind of a variable that lives outside the loop is looked up. -/
def outerLookups (unit : CompilationUnit) (body : StmtId) (occurrences : List Occurrence) :
    List Binding :=
  ((unit.outerElement? body occurrences).filter fun var =>
    (unit.outerUse? body var occurrences).isNone).toList.map .var

/-- The last variable that takes an element in the body. -/
def findElement (unit : CompilationUnit) (store : TypeStore) (body : StmtId)
    (occurrences : List Occurrence) : Except Rejection (Option Element) :=
  match occurrences.getLast?.bind unit.occurrenceVar? with
  | none => .ok none
  | some var =>
    if (unit.subtree (.stmt body)).any (unit.bindsAt var) then .ok (some ⟨var, true, none⟩)
    else (unit.outerDeclaration store body var occurrences).map fun d => some ⟨var, false, d⟩

/-- The iterator occurs in the body other than as the receiver of an advance call. -/
def iteratorEscapes (unit : CompilationUnit) (iterator : VarId) (body : StmtId)
    (advanceCalls : List ExprId) : Bool :=
  let receivers := advanceCalls.filterMap fun id =>
    match unit.expr? id with
    | some (.call receiver _ _ _) => receiver
    | _ => none
  let isReceiver (node : Node) : Bool := receivers.any fun r => node == .expr r
  ((unit.nodesBelow (.stmt body) (!isReceiver ·)).filter (!isReceiver ·)).any
    (unit.refersAt iterator)

/-- What strict conversion asks beyond the rest: the iterator alone drives the loop, is advanced at
most once in the text of the body and is used for nothing else. -/
def strictRejection? (unit : CompilationUnit) (store : TypeStore) (iterator : VarId)
    (condition : Option ExprId) (updates : List ExprId) (body : StmtId)
    (advanceCalls : List ExprId) : Option Rejection :=
  if !(updates.isEmpty &&
      condition.any fun c => unit.isCallOn store iterator testMethods (unit.strip c)) then
    some .unsupportedCondition
  else if advanceCalls.length > 1 then some .multipleAdvanceCalls
  else if unit.iteratorEscapes iterator body advanceCalls then some .iteratorUsedInBody
  else none

/-- Classifies a counted loop given its parts. -/
def classifyParts (unit : CompilationUnit) (store : TypeStore) (strict : Bool) (loop : StmtId)
    (inits : List ExprId) (condition : Option ExprId) (updates : List ExprId) (body : StmtId) :
    Except Rejection Classification := do
  let some iterator := unit.iteratorIn? store inits | throw .noIterator
  let some (iterableExpr, some iterable) := unit.iterableIn? store inits | throw .noIterable
  let elementType := unit.elementType store iterator iterableExpr
  let occurrences := unit.occurrences store iterator elementType body
  let advanceCalls := unit.advanceCalls store iterator body
  let element ← unit.findElement store body occurrences
  if strict then
    if let some r := unit.strictRejection? store iterator condition updates body advanceCalls then
      throw r
  return { loop, iterator, iterable, iterableExpr, element, occurrences, advanceCalls, elementType }

/-- What the classification of a loop looks up, step by step up to the one that rejects it. -/
def classifyLookups (unit : CompilationUnit) (store : TypeStore) (strict : Bool)
    (inits : List ExprId) (condition : Option ExprId) (updates : List ExprId) (body : StmtId) :
    List Binding :=
  unit.headerLookups store inits ++
    match unit.iteratorIn? store inits, unit.iterableIn? store inits with
    | some iterator, some (iterableExpr, some _) =>
      let type := unit.elementType store iterator iterableExpr
      let occurrences := unit.occurrences store iterator type body
      let rejected := (unit.findElement store body occurrences).toOption.isNone
      unit.bodyLookups store iterator type body ++ unit.outerLookups body occurrences ++
        if strict && updates.isEmpty && !rejected then
          condition.toList.flatMap fun c => unit.calledAt (.expr (unit.strip c))
        else []
    | _, _ => []

/-- Whether a loop over an iterable gives its elements to a variable that its body does not declare,
so that the code around it matters. -/
def looksOutside (unit : CompilationUnit) (store : TypeStore) (inits : List ExprId)
    (body : StmtId) : Bool :=
  match unit.iteratorIn? store inits, unit.iterableIn? store inits with
  | some iterator, some (iterableExpr, some _) =>
    let type := unit.elementType store iterator iterableExpr
    (unit.outerElement? body (unit.occurrences store iterator type body)).isSome
  | _, _ => false

/-- The language level is looked at before the loop. -/
def classify (unit : CompilationUnit) (store : TypeStore) (options : ClassifyOptions)
    (loop : StmtId) : Except Fault (Except Rejection Classification) :=
  if !options.level.supports .enhancedFor then .ok (.error .levelTooLow)
  else
    match unit.stmt? loop with
    | none => .error .unknownNode
    | some (.forLoop inits condition updates body) => do
      store.require
        (unit.classifyLookups store options.strict inits condition updates body)
      if unit.looksOutside store inits body then let _ ← unit.complete
      return unit.classifyParts store options.strict loop inits condition updates body
    | some _ => .ok (.error .notACountedLoop)

end CompilationUnit
end EnhancedFor
