import EnhancedFor.Text.Bytes
import EnhancedFor.Syntax.Node

/-!
Compilation units: declarations, the tables of expressions and statements, a text, and the spans of
all parts in that text. Text and spans are kept apart from the structure, so a unit may be paired
with any text.
-/

namespace EnhancedFor

/-- Where a declaration with fragments stands. -/
inductive DeclPlace where
  | expr (id : ExprId)
  | stmt (id : StmtId)
  | field (type field : Nat)
  deriving DecidableEq, Repr

inductive ParamPlace where
  | forEach (id : StmtId)
  | method (type method param : Nat)
  deriving DecidableEq, Repr

/-- The parts of a unit that have a span. -/
inductive Mark where
  | package
  | importLine (i : Nat)
  | typeDecl (i : Nat)
  | field (type field : Nat)
  | method (type method : Nat)
  | returnType (type method : Nat)
  | expr (id : ExprId)
  | exprName (id : ExprId)
  | exprType (id : ExprId)
  | stmt (id : StmtId)
  | declType (place : DeclPlace)
  | fragment (place : DeclPlace) (i : Nat)
  | fragmentName (place : DeclPlace) (i : Nat)
  | param (place : ParamPlace)
  | paramType (place : ParamPlace)
  | paramName (place : ParamPlace)
  deriving DecidableEq, Repr

structure Import where
  path : String
  isStatic : Bool
  isOnDemand : Bool
  deriving DecidableEq, Repr

namespace Import

/-- A trailing `.*` asks for every type of a package. -/
def ofText (text : String) : Import :=
  match text.toList.reverse with
  | '*' :: '.' :: back => ⟨String.ofList back.reverse, false, true⟩
  | _ => ⟨text, false, false⟩

/-- The last segment of the path of an import of one type. -/
def simpleName? (i : Import) : Option String :=
  if i.isOnDemand then none else some (String.ofList (Java.splitLastDot i.path.toList).1)

end Import

structure Method where
  name : String
  returnType : Option TypeRef
  params : List Parameter
  body : Option StmtId
  deriving DecidableEq, Repr

def Method.bindings (m : Method) : List Binding :=
  m.returnType.toList.flatMap (·.bindings) ++ m.params.flatMap (·.bindings)

structure TypeDecl where
  name : String
  binding : Option TypeId
  fields : List Declaration
  methods : List Method
  deriving DecidableEq, Repr

/-- What the members are bound to. -/
def TypeDecl.bindings (t : TypeDecl) : List Binding :=
  t.fields.flatMap (·.bindings) ++ t.methods.flatMap (·.bindings)

/-- An expression with its static type. -/
structure ExprNode where
  expr : Expr
  type : Option TypeId
  deriving DecidableEq, Repr

structure CompilationUnit where
  file : String
  package : Option String
  imports : List Import
  types : List TypeDecl
  exprs : Array ExprNode
  stmts : Array Stmt
  text : String
  spans : Mark → Span

namespace CompilationUnit

def initial (file : String) : CompilationUnit :=
  ⟨file, none, [], [], #[], #[], "", fun _ => ⟨0, 0⟩⟩

def expr? (unit : CompilationUnit) (id : ExprId) : Option Expr :=
  unit.exprs[id.index]?.map (·.expr)

def stmt? (unit : CompilationUnit) (id : StmtId) : Option Stmt := unit.stmts[id.index]?

def exprType? (unit : CompilationUnit) (id : ExprId) : Option TypeId :=
  unit.exprs[id.index]?.bind (·.type)

def expr (unit : CompilationUnit) (id : ExprId) : Except Fault Expr :=
  (unit.expr? id).elim (.error .unknownNode) .ok

def stmt (unit : CompilationUnit) (id : StmtId) : Except Fault Stmt :=
  (unit.stmt? id).elim (.error .unknownNode) .ok

def exprSpan (unit : CompilationUnit) (id : ExprId) : Span := unit.spans (.expr id)

def stmtSpan (unit : CompilationUnit) (id : StmtId) : Span := unit.spans (.stmt id)

def contains (unit : CompilationUnit) : Node → Bool
  | .expr id => decide (id.index < unit.exprs.size)
  | .stmt id => decide (id.index < unit.stmts.size)

def nodeSpan (unit : CompilationUnit) : Node → Span
  | .expr id => unit.exprSpan id
  | .stmt id => unit.stmtSpan id

def setSpan (unit : CompilationUnit) (mark : Mark) (span : Span) : CompilationUnit :=
  { unit with spans := fun m => if m = mark then span else unit.spans m }

/-- The text in a span; nothing where the span does not cut the text on boundaries. -/
def slice (unit : CompilationUnit) (span : Span) : String :=
  ((Chars.slice? unit.text.toList span).map String.ofList).getD ""

/-- What the members and the nodes of the tables are bound to. -/
def bindings (unit : CompilationUnit) : List Binding :=
  unit.types.flatMap (·.bindings) ++ unit.exprs.toList.flatMap (·.expr.bindings) ++
    unit.stmts.toList.flatMap (·.bindings)

/-- Fields of all types, in order. -/
def fieldFragments (unit : CompilationUnit) : List Fragment :=
  unit.types.flatMap fun t => t.fields.flatMap (·.fragments)

/-- Methods of all types, in order, with the place of their type and their own. -/
def methods (unit : CompilationUnit) : List (Nat × Nat × Method) :=
  unit.types.zipIdx.flatMap fun (t, i) => t.methods.zipIdx.map fun (m, k) => (i, k, m)

def children? (unit : CompilationUnit) : Node → Option (List Node)
  | .expr id => (unit.expr? id).map fun e => e.children.map .expr
  | .stmt id => (unit.stmt? id).map (·.children)

/-- Direct parts of a node in source order. -/
def children (unit : CompilationUnit) (node : Node) : Except Fault (List Node) :=
  (unit.children? node).elim (.error .unknownNode) .ok

/-- Roots of all code: field initialisers, then method bodies. -/
def roots (unit : CompilationUnit) : List Node :=
  (unit.fieldFragments.filterMap (·.init)).map .expr ++
    (unit.methods.filterMap fun (_, _, m) => m.body).map .stmt

/-- The number of nodes in the tables. -/
def size (unit : CompilationUnit) : Nat := unit.exprs.size + unit.stmts.size

/-- A path of different nodes, each a part of the one before, is no longer than this; its last node
need not be one of the unit. -/
def depth (unit : CompilationUnit) : Nat := unit.size + 1

/-- The place of a node among all nodes: expressions come before statements. -/
def rank (unit : CompilationUnit) : Node → Nat
  | .expr id => id.index + 1
  | .stmt id => unit.exprs.size + id.index + 1

/-- Expressions refer to earlier expressions, statements to earlier statements and to expressions of
the unit. -/
def Backward (unit : CompilationUnit) : Prop :=
  ∀ node kids, unit.children? node = some kids →
    ∀ kid ∈ kids, unit.contains kid = true ∧ unit.rank kid < unit.rank node

@[simp] theorem spans_setSpan_self (unit : CompilationUnit) (mark : Mark) (span : Span) :
    (unit.setSpan mark span).spans mark = span := by
  simp [setSpan]

@[simp] theorem spans_setSpan_of_ne {unit : CompilationUnit} {mark other : Mark} (span : Span)
    (h : other ≠ mark) : (unit.setSpan mark span).spans other = unit.spans other := by
  simp [setSpan, h]

end CompilationUnit
end EnhancedFor
