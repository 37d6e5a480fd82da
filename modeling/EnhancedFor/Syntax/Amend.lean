import EnhancedFor.Syntax.ArenaPrinter
import EnhancedFor.Syntax.Walk

/-!
Changes to a finished unit: bindings, bodies, spans. Only a new print changes its text. A change to
a part that the unit does not have is a fault.
-/

namespace EnhancedFor
namespace CompilationUnit

def noSpan : Span := ⟨0, 0⟩

def unboundFragments (decl : Declaration) : Declaration :=
  { decl with fragments := decl.fragments.map fun f => { f with binding := none } }

/-- The list with the item at a position changed. -/
def amendAt (items : List α) (i : Nat) (f : α → Except Fault α) : Except Fault (List α) :=
  match items[i]? with
  | some a => return items.set i (← f a)
  | none => .error .unknownNode

def amendType (unit : CompilationUnit) (t : Nat) (f : TypeDecl → Except Fault TypeDecl) :
    Except Fault CompilationUnit := do
  return { unit with types := ← amendAt unit.types t f }

def amendMethod (unit : CompilationUnit) (t i : Nat) (f : Method → Method) :
    Except Fault CompilationUnit :=
  unit.amendType t fun d => do
    return { d with methods := ← amendAt d.methods i fun m => .ok (f m) }

def amendExpr (unit : CompilationUnit) (id : ExprId) (f : Expr → Expr) :
    Except Fault CompilationUnit := do
  let e ← unit.expr id
  let amend (n : ExprNode) : ExprNode := { n with expr := f e }
  return { unit with exprs := unit.exprs.modify id.index amend }

def withText (unit : CompilationUnit) (text : String) : CompilationUnit := { unit with text }

def makeImportStatic (unit : CompilationUnit) (i : Nat) : Except Fault CompilationUnit := do
  let imports ← amendAt unit.imports i fun imp => .ok { imp with isStatic := true }
  return { unit with imports }

def setReturnType (unit : CompilationUnit) (t i : Nat) (ref : TypeRef) :
    Except Fault CompilationUnit := do
  let unit ← unit.amendMethod t i fun m => { m with returnType := some ref }
  return unit.setSpan (.returnType t i) noSpan

def dropBody (unit : CompilationUnit) (t i : Nat) : Except Fault CompilationUnit :=
  unit.amendMethod t i fun m => { m with body := none }

/-- Adds a fragment without spans to the declaration of a field. -/
def addFieldFragment (unit : CompilationUnit) (t i : Nat) (f : Fragment) :
    Except Fault CompilationUnit :=
  unit.amendType t fun d => do
    let add (decl : Declaration) := { decl with fragments := decl.fragments ++ [f] }
    return { d with fields := ← amendAt d.fields i fun decl => .ok (add decl) }

/-- Takes an expression away; its static type stays. -/
def makeMissing (unit : CompilationUnit) (id : ExprId) : Except Fault CompilationUnit := do
  return (← unit.amendExpr id fun _ => .missing).setSpan (.expr id) noSpan

/-- Forgets what an expression, or the fragments it declares, is bound to. -/
def unbindExpr (unit : CompilationUnit) (id : ExprId) : Except Fault CompilationUnit :=
  unit.amendExpr id fun
    | .name name _ => .name name none
    | .field receiver name _ => .field receiver name none
    | .call receiver name args _ => .call receiver name args none
    | .declare decl => .declare (unboundFragments decl)
    | e => e

def bindCall (unit : CompilationUnit) (id : ExprId) (method : MethodId) :
    Except Fault CompilationUnit :=
  unit.amendExpr id fun
    | .call receiver name args _ => .call receiver name args (some method)
    | e => e

/-- Forgets what the fragments or the parameter of a statement are bound to. -/
def unbindStmt (unit : CompilationUnit) (id : StmtId) : Except Fault CompilationUnit := do
  let unbound : Stmt := match ← unit.stmt id with
    | .declare decl => .declare (unboundFragments decl)
    | .forEach param iterable body => .forEach { param with binding := none } iterable body
    | s => s
  return { unit with stmts := unit.stmts.modify id.index fun _ => unbound }

def moveNode (unit : CompilationUnit) (node : Node) (span : Span) :
    Except Fault CompilationUnit :=
  if !unit.contains node then .error .unknownNode
  else .ok <| match node with
    | .expr id => unit.setSpan (.expr id) span
    | .stmt id => unit.setSpan (.stmt id) span

def moveImport (unit : CompilationUnit) (i : Nat) (span : Span) : Except Fault CompilationUnit :=
  if i < unit.imports.length then .ok (unit.setSpan (.importLine i) span)
  else .error .unknownNode

end CompilationUnit
end EnhancedFor
