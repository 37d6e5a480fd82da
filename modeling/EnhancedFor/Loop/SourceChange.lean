import EnhancedFor.Text.Inverse
import EnhancedFor.Loop.ImportEdit
import EnhancedFor.Loop.Plan

/-!
A plan as edits of the unit's text, with the places of the loop variable in the edited text.
-/

namespace EnhancedFor

inductive PlanError where
  | missingLoopReplacement
  | unknownNode (node : Node)
  | notALoop (stmt : StmtId)
  | missingSpan (node : Node)
  | moveOutsideLoop (expr : ExprId)
  | edit (error : EditError)
  | fault (fault : Fault)
  deriving DecidableEq, Repr

def PlanError.label : PlanError → String
  | .missingLoopReplacement => "MissingLoopReplacement"
  | .unknownNode _ => "UnknownNode"
  | .notALoop _ => "NotALoop"
  | .missingSpan _ => "MissingSourceRange"
  | .moveOutsideLoop _ => "MoveOutsideLoop"
  | .edit error => error.label
  | .fault _ => "panic"

def PlanError.message? : PlanError → Option String
  | .missingLoopReplacement => some "plan does not replace a loop"
  | .unknownNode node => some ("node " ++ node.describe ++ " does not belong to the unit")
  | .notALoop stmt => some ("statement " ++ stmt.describe ++ " is not a counted for loop")
  | .missingSpan node => some ("node " ++ node.describe ++ " has no source range")
  | .moveOutsideLoop expr =>
    some ("moved expression " ++ expr.describe ++ " is not part of the replaced loop header")
  | .edit error => some error.message
  | .fault f => f.message?

/-- Edits of one file, sorted and apart, with proposed names and the spans that hold the name. -/
structure SourceChange where
  file : String
  edits : List Edit
  proposals : List String
  linked : List Span
  deriving DecidableEq, Repr

def SourceChange.apply (change : SourceChange) (text : String) : Except EditError String :=
  Edit.apply text change.edits

/-- A name of `length` bytes at `offset` in the replacement of an edit. -/
structure PlacedName where
  edit : Edit
  offset : Nat
  length : Nat
  deriving DecidableEq, Repr

namespace CompilationUnit

/-- The span of a node of the unit, if the node has one in the text. -/
def requireSpan (unit : CompilationUnit) (node : Node) : Except PlanError Span :=
  if !unit.contains node then .error (.unknownNode node)
  else
    let span := unit.nodeSpan node
    if span.isEmpty || span.stop > Text.byteLength unit.text then .error (.missingSpan node)
    else .ok span

/-- The byte offset of the last closing parenthesis. -/
def lastParen? (cs : Chars) : Option Nat :=
  let tail := cs.reverse.takeWhile (· != ')')
  if tail.length == cs.length then none
  else some (cs.byteLength - Chars.byteLength tail - 1)

/-- Replaces the head of the loop up to its closing parenthesis. -/
def headerEdit (unit : CompilationUnit) (loop : StmtId) (header : Header) (body : StmtId) :
    Except PlanError PlacedName := do
  let loopSpan ← unit.requireSpan (.stmt loop)
  if !unit.isCountedLoop loop then throw (.notALoop loop)
  let bodySpan ← unit.requireSpan (.stmt body)
  if !loopSpan.encloses bodySpan then throw (.missingSpan (.stmt loop))
  let some close := lastParen? (unit.slice ⟨loopSpan.start, bodySpan.start⟩).toList
    | throw (.missingSpan (.stmt loop))
  let head : Span := ⟨loopSpan.start, loopSpan.start + close + 1⟩
  let iterable := header.iterable.expr
  let iterableSpan ← unit.requireSpan (.expr iterable)
  if header.iterable == .move iterable && !head.encloses iterableSpan then
    throw (.moveOutsideLoop iterable)
  let before := "for (" ++ header.typeText ++ " "
  let text := before ++ header.name ++ " : " ++ unit.slice iterableSpan ++ ")"
  return ⟨⟨head, text⟩, Text.byteLength before, Text.byteLength header.name⟩

/-- Blanks and tabs indent a line. -/
def isIndent (c : Char) : Bool := c == ' ' || c == '\t'

/-- The span of a statement with its indentation and the line break before it. -/
def lineSpan (unit : CompilationUnit) (span : Span) : Except Fault Span :=
  match Chars.splitAt? unit.text.toList span.start with
  | none => .error .badSlice
  | some (before, _) =>
    let line := before.reverse.dropWhile isIndent
    let start := Chars.byteLength line
    Span.ordered (if line.head? == some '\n' then start - 1 else start) span.stop

/-- The edit of one step; the place of a name is of use only for steps that write one. -/
def stepEdit (unit : CompilationUnit) : PlanStep → Except PlanError PlacedName
  | .replaceLoop loop header body => unit.headerEdit loop header body
  | .removeStatement stmt => do
    let span ← unit.requireSpan (.stmt stmt)
    match unit.lineSpan span with
    | .ok line => return ⟨Edit.delete line, 0, 0⟩
    | .error fault => throw (.fault fault)
  | .replaceWithName expr name => do
    let span ← unit.requireSpan (.expr expr)
    return ⟨⟨span, name⟩, 0, Text.byteLength name⟩

end CompilationUnit

namespace Edit

/-- By how much all the edits together lengthen a text. -/
def totalGrowth (edits : List Edit) : Int := edits.foldr (fun e n => e.growth + n) 0

/-- Where a name in an edit stands after all edits: moved by those that sort before it. -/
def nameSpanAfter (edits : List Edit) (placed : PlacedName) : Span :=
  let before := edits.filter fun e => e.span.compare placed.edit.span == .lt
  let start := placed.edit.span.start + placed.offset
  (Span.mk start (start + placed.length)).shift (totalGrowth before)

/-- Where untouched text stands after all edits: moved by those that end before it. -/
def spanAfter (edits : List Edit) (span : Span) : Span :=
  span.shift (totalGrowth (edits.filter fun e => decide (e.span.stop ≤ span.start)))

end Edit

namespace Plan

/-- The edited place of a linked position; a name that no step writes has none. -/
def linkedSpan? (unit : CompilationUnit) (placed : List (PlanStep × PlacedName))
    (edits : List Edit) (position : LinkedPosition) : Except PlanError (Option Span) :=
  let last (p : PlanStep → Bool) : Option Span :=
    ((placed.filter fun (step, _) => p step).getLast?).map fun (_, name) =>
      Edit.nameSpanAfter edits name
  match position with
  | .headerName => .ok (last fun
      | .replaceLoop .. => true
      | _ => false)
  | .replacement expr => .ok (last fun
      | .replaceWithName e _ => e == expr
      | _ => false)
  | .reference expr => (unit.requireSpan (.expr expr)).map fun span =>
      some (Edit.spanAfter edits span)

/-- The edits of all steps, then those of the imports. -/
def toSourceChange (plan : Plan) (unit : CompilationUnit) : Except PlanError SourceChange := do
  let names ← plan.steps.mapM unit.stepEdit
  if plan.header?.isNone then throw .missingLoopReplacement
  let imports ← match unit.importEdits plan.imports with
    | .ok edits => pure edits
    | .error fault => throw (.fault fault)
  let edits := names.map (·.edit) ++ imports
  let normal ← match Edit.normalize unit.text edits with
    | .ok normal => pure normal
    | .error error => throw (.edit error)
  let linked ← plan.positions.mapM (linkedSpan? unit (plan.steps.zip names) edits)
  return ⟨unit.file, normal, plan.proposals, linked.filterMap id⟩

end Plan
end EnhancedFor
