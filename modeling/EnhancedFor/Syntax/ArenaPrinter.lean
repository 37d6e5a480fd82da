import EnhancedFor.Syntax.Arena

/-!
Printing of a unit in place. A part is taken out of the arena, the parts below it are printed, which
changes the arena, and then it is put back with its new spans.
-/

namespace EnhancedFor

structure Printer where
  arena : Arena
  out : String

abbrev PrintM := StateT Printer (Except Fault)

/-- Printing of a part that was taken out and is not yet back in the arena. -/
abbrev CellM (σ α : Type) := StateT (Ranged σ α) PrintM

namespace Printer

def pos : PrintM Nat := do
  return Text.byteLength (← get).out

def push (s : String) : PrintM Unit := modify fun p => { p with out := p.out ++ s }

/-- Four blanks a level. -/
def indent (level : Nat) : PrintM Unit := push (String.ofList (List.replicate (4 * level) ' '))

def amend (f : Arena → Arena) : PrintM Unit := modify fun p => { p with arena := f p.arena }

def exprCell (id : ExprId) : PrintM (Ranged ExprSlot ExprNode) := do
  match (← get).arena.exprs[id.index]? with
  | some cell => return cell
  | none => throw .unknownNode

def stmtCell (id : StmtId) : PrintM (Ranged StmtSlot Stmt) := do
  match (← get).arena.stmts[id.index]? with
  | some cell => return cell
  | none => throw .unknownNode

section Cells

variable {σ α β : Type}

/-- The cell after an action on it. -/
def updated (action : CellM σ α Unit) (cell : Ranged σ α) : PrintM (Ranged σ α) := do
  let (_, cell) ← action.run cell
  return cell

/-- Notes the span of what is printed. -/
def ranged [DecidableEq σ] (slot : σ) (inner : CellM σ α Unit) : CellM σ α Unit := do
  let start ← pos
  inner
  let stop ← pos
  modify fun cell => cell.setSpan slot ⟨start, stop⟩

def separated (separator : String) (print : β → CellM σ α Unit) : List β → CellM σ α Unit
  | [] => pure ()
  | [x] => print x
  | x :: xs => do
    print x
    push separator
    separated separator print xs

/-- A part that may be missing, with the text that leads to it. -/
def optional (first : String) (print : β → CellM σ α Unit) : Option β → CellM σ α Unit
  | some x => do
    push first
    print x
  | none => pure ()

/-- One after the other, in place. -/
def each (print : Nat → CellM σ α Unit) :
    Nat → List (Ranged σ α) → PrintM (List (Ranged σ α))
  | _, [] => return []
  | i, cell :: cells => do
    let cell ← updated (print i) cell
    let cells ← each print (i + 1) cells
    return cell :: cells

variable [DecidableEq σ]

def printTypeRef (slot : σ) (ref : TypeRef) : CellM σ α Unit := ranged slot (push ref.text)

def printParam (slot : ParamSlot → σ) (param : Parameter) : CellM σ α Unit :=
  ranged (slot .whole) do
    printTypeRef (slot .type) param.type
    push " "
    ranged (slot .name) (push param.name)

def printDecl (expr : ExprId → PrintM Unit) (slot : DeclSlot → σ) (decl : Declaration) :
    CellM σ α Unit := do
  let fragment (f : Fragment) (i : Nat) : CellM σ α Unit :=
    ranged (slot (.fragment i)) do
      ranged (slot (.fragmentName i)) (push f.name)
      optional " = " (fun e => expr e) f.init
  printTypeRef (slot .type) decl.type
  push " "
  separated ", " (fun (f, i) => fragment f i) decl.fragments.zipIdx

/-- The receiver of a call, up to the dot. -/
def printReceiver (expr : ExprId → PrintM Unit) : Option ExprId → CellM σ α Unit
  | some receiver => do
    expr receiver
    push "."
  | none => pure ()

end Cells

/-- An expression, given how to print its operands. -/
def printExprForm (expr : ExprId → PrintM Unit) : Expr → CellM ExprSlot ExprNode Unit
  | .name name _ => push name
  | .field receiver name _ => do
    expr receiver
    push "."
    ranged .name (push name)
  | .call receiver name args _ => do
    printReceiver expr receiver
    ranged .name (push name)
    push "("
    separated ", " (fun e => expr e) args
    push ")"
  | .create type args => do
    push "new "
    printTypeRef .type type
    push "("
    separated ", " (fun e => expr e) args
    push ")"
  | .assign op target value => do
    expr target
    push (" " ++ op.text ++ " ")
    expr value
  | .declare decl => printDecl expr .decl decl
  | .literal .string text => push ("\"" ++ text ++ "\"")
  | .literal _ text => push text
  | .cast type inner => do
    push "("
    printTypeRef .type type
    push ") "
    expr inner
  | .paren inner => do
    push "("
    expr inner
    push ")"
  | .binary op left right => do
    expr left
    push (" " ++ op.text ++ " ")
    expr right
  | .unary op operand => do
    push op.before
    expr operand
    push op.after
  | .self => push "this"
  | .missing => pure ()

/-- An action on a copy of an expression, which is written back at the end. -/
def onExprCopy (id : ExprId) (action : ExprNode → CellM ExprSlot ExprNode Unit) : PrintM Unit := do
  let cell ← exprCell id
  let cell ← updated (action cell.form) cell
  amend fun arena => { arena with exprs := arena.exprs.setIfInBounds id.index cell }

/-- An expression to a nesting of `depth`. -/
def printExprWithin : Nat → ExprId → PrintM Unit
  | 0, _ => throw .unboundedNode
  | depth + 1, id =>
    onExprCopy id fun node => ranged .whole (printExprForm (printExprWithin depth) node.expr)

/-- A line of its own, one level below `level`. -/
def printLine (stmt : Nat → StmtId → PrintM Unit) (level : Nat) (id : StmtId) :
    CellM StmtSlot Stmt Unit := do
  push "\n"
  indent (level + 1)
  stmt (level + 1) id

/-- A body that is no block stands on a line of its own. -/
def printBody (stmt : Nat → StmtId → PrintM Unit) (level : Nat) (id : StmtId) :
    CellM StmtSlot Stmt Unit := do
  if (← stmtCell id).form.isBlock then
    stmt level id
  else
    printLine stmt level id

/-- The updates of a counted loop, set off by a blank if there are any. -/
def printUpdates (expr : ExprId → PrintM Unit) (updates : List ExprId) : CellM StmtSlot Stmt Unit :=
  if updates.isEmpty then pure ()
  else do
    push " "
    separated ", " (fun e => expr e) updates

/-- A statement, given how to print its parts. -/
def printStmtForm (expr : ExprId → PrintM Unit) (stmt : Nat → StmtId → PrintM Unit)
    (level : Nat) : Stmt → CellM StmtSlot Stmt Unit
  | .block statements => do
    push "\x7b"
    statements.forM (printLine stmt level)
    push "\n"
    indent level
    push "\x7d"
  | .declare decl => do
    printDecl expr .decl decl
    push ";"
  | .eval e => do
    expr e
    push ";"
  | .branch condition thenBranch elseBranch => do
    push "if ("
    expr condition
    push ") "
    printBody stmt level thenBranch
    optional " else " (printBody stmt level) elseBranch
  | .whileLoop condition body => do
    push "while ("
    expr condition
    push ") "
    printBody stmt level body
  | .forLoop inits condition updates body => do
    push "for ("
    separated ", " (fun e => expr e) inits
    push ";"
    optional " " (fun e => expr e) condition
    push ";"
    printUpdates expr updates
    push ") "
    printBody stmt level body
  | .forEach param iterable body => do
    push "for ("
    printParam .param param
    push " : "
    expr iterable
    push ") "
    printBody stmt level body
  | .ret value => do
    push "return"
    optional " " (fun e => expr e) value
    push ";"
  | .empty => push ";"

/-- An action on a copy of a statement, which is written back at the end. -/
def onStmtCopy (id : StmtId) (action : Stmt → CellM StmtSlot Stmt Unit) : PrintM Unit := do
  let cell ← stmtCell id
  let cell ← updated (action cell.form) cell
  amend fun arena => { arena with stmts := arena.stmts.setIfInBounds id.index cell }

/-- A statement at an indentation level, to a nesting of `depth`. -/
def printStmtWithin : Nat → Nat → StmtId → PrintM Unit
  | 0, _, _ => throw .unboundedNode
  | depth + 1, level, id =>
    onStmtCopy id fun stmt => ranged .whole
      (printStmtForm (printExprWithin depth) (printStmtWithin depth) level stmt)

/-- The package line is gone from the arena while it is printed. -/
def printPackageLine (cell : Ranged Unit String) : PrintM Unit := do
  amend fun arena => { arena with package := none }
  let cell ← updated (ranged () (push ("package " ++ cell.form ++ ";"))) cell
  push "\n\n"
  amend fun arena => { arena with package := some cell }

def printPackage : PrintM Unit := do
  match (← get).arena.package with
  | some cell => printPackageLine cell
  | none => pure ()

def printImport : CellM Unit Import Unit := do
  let imp := (← get).form
  ranged () do
    push "import "
    push (if imp.isStatic then "static " else "")
    push imp.path
    push (if imp.isOnDemand then ".*" else "")
    push ";"
  push "\n"

def printImports : PrintM Unit := do
  let cells := (← get).arena.imports
  amend fun arena => { arena with imports := [] }
  let cells ← each (fun _ => printImport) 0 cells
  push (if cells.isEmpty then "" else "\n")
  amend fun arena => { arena with imports := cells }

def printField (expr : ExprId → PrintM Unit) (i : Nat) (decl : Declaration) :
    CellM TypeSlot TypeDecl Unit := do
  indent 1
  ranged (.field i) do
    printDecl expr (.decl i) decl
    push ";"
  push "\n"

def printResult (i : Nat) : Option TypeRef → CellM TypeSlot TypeDecl Unit
  | some ref => printTypeRef (.result i) ref
  | none => push "void"

/-- The end of a method from the closing parenthesis of its parameters on. -/
def printMethodBody (stmt : Nat → StmtId → PrintM Unit) :
    Option StmtId → CellM TypeSlot TypeDecl Unit
  | some body => do
    push ")"
    push " "
    stmt 1 body
  | none => do
    push ")"
    push ";"

def printMethod (stmt : Nat → StmtId → PrintM Unit) (i : Nat) (m : Method) :
    CellM TypeSlot TypeDecl Unit := do
  indent 1
  ranged (.method i) do
    printResult i m.returnType
    push (" " ++ m.name ++ "(")
    separated ", " (fun (p, k) => printParam (.param i k) p) m.params.zipIdx
    printMethodBody stmt m.body
  push "\n"

/-- Methods are set off by an empty line from what stands before them in the type. -/
def printType (depth t : Nat) : CellM TypeSlot TypeDecl Unit := do
  let decl := (← get).form
  push (if t == 0 then "" else "\n")
  ranged .whole do
    push ("class " ++ decl.name ++ " \x7b\n")
    decl.fields.zipIdx.forM fun (f, i) => printField (printExprWithin depth) i f
    decl.methods.zipIdx.forM fun (m, i) => do
      push (if i == 0 && decl.fields.isEmpty then "" else "\n")
      printMethod (printStmtWithin depth) i m
    push "\x7d"
  push "\n"

def printTypes : PrintM Unit := do
  let depth := (← get).arena.depth
  let cells := (← get).arena.types
  amend fun arena => { arena with types := [] }
  let cells ← each (printType depth) 0 cells
  amend fun arena => { arena with types := cells }

def printUnit : PrintM Unit := do
  printPackage
  printImports
  printTypes

end Printer

/-- The arena with its text and the spans of all parts that are printed. -/
def Arena.print (arena : Arena) : Except Fault Arena := do
  let (_, printer) ← Printer.printUnit.run ⟨arena, ""⟩
  return { printer.arena with text := printer.out }

/-- Prints the unit again. -/
def CompilationUnit.reprint (unit : CompilationUnit) : Except Fault CompilationUnit := do
  return (← unit.arena.print).toUnit unit.spans

end EnhancedFor
