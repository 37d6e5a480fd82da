import EnhancedFor.Syntax.Unit

/-!
A unit as it is while it is printed: every line, type and node holds the spans of its own parts. It
can be read off a unit, and a unit off it.
-/

namespace EnhancedFor

/-- Something with the spans of its parts. -/
structure Ranged (σ α : Type) where
  form : α
  spans : σ → Span

def Ranged.setSpan [DecidableEq σ] (cell : Ranged σ α) (slot : σ) (span : Span) : Ranged σ α :=
  { cell with spans := fun s => if s = slot then span else cell.spans s }

inductive DeclSlot where
  | type
  | fragment (i : Nat)
  | fragmentName (i : Nat)
  deriving DecidableEq, Repr

def DeclSlot.mark (place : DeclPlace) : DeclSlot → Mark
  | .type => .declType place
  | .fragment i => .fragment place i
  | .fragmentName i => .fragmentName place i

inductive ParamSlot where
  | whole
  | type
  | name
  deriving DecidableEq, Repr

def ParamSlot.mark (place : ParamPlace) : ParamSlot → Mark
  | .whole => .param place
  | .type => .paramType place
  | .name => .paramName place

/-- What has a span in an expression: the whole of it, its name, its type or its declaration. -/
inductive ExprSlot where
  | whole
  | name
  | type
  | decl (slot : DeclSlot)
  deriving DecidableEq, Repr

def ExprSlot.mark (id : ExprId) : ExprSlot → Mark
  | .whole => .expr id
  | .name => .exprName id
  | .type => .exprType id
  | .decl slot => slot.mark (.expr id)

inductive StmtSlot where
  | whole
  | decl (slot : DeclSlot)
  | param (slot : ParamSlot)
  deriving DecidableEq, Repr

def StmtSlot.mark (id : StmtId) : StmtSlot → Mark
  | .whole => .stmt id
  | .decl slot => slot.mark (.stmt id)
  | .param slot => slot.mark (.forEach id)

/-- What has a span in a type and its members, apart from the nodes of the code. -/
inductive TypeSlot where
  | whole
  | field (i : Nat)
  | decl (i : Nat) (slot : DeclSlot)
  | method (i : Nat)
  | result (i : Nat)
  | param (i k : Nat) (slot : ParamSlot)
  deriving DecidableEq, Repr

def TypeSlot.mark (t : Nat) : TypeSlot → Mark
  | .whole => .typeDecl t
  | .field i => .field t i
  | .decl i slot => slot.mark (.field t i)
  | .method i => .method t i
  | .result i => .returnType t i
  | .param i k slot => slot.mark (.method t i k)

structure Arena where
  file : String
  package : Option (Ranged Unit String)
  imports : List (Ranged Unit Import)
  types : List (Ranged TypeSlot TypeDecl)
  exprs : Array (Ranged ExprSlot ExprNode)
  stmts : Array (Ranged StmtSlot Stmt)
  text : String

namespace Arena

/-- No path of different nodes is longer. -/
def depth (arena : Arena) : Nat := arena.exprs.size + arena.stmts.size + 1

def exprSpan? (arena : Arena) (id : ExprId) (slot : ExprSlot) : Option Span :=
  arena.exprs[id.index]?.map (·.spans slot)

def stmtSpan? (arena : Arena) (id : StmtId) (slot : StmtSlot) : Option Span :=
  arena.stmts[id.index]?.map (·.spans slot)

def typeSpan? (arena : Arena) (t : Nat) (slot : TypeSlot) : Option Span :=
  arena.types[t]?.map (·.spans slot)

def declSpan? (arena : Arena) (place : DeclPlace) (slot : DeclSlot) : Option Span :=
  match place with
  | .expr id => arena.exprSpan? id (.decl slot)
  | .stmt id => arena.stmtSpan? id (.decl slot)
  | .field t i => arena.typeSpan? t (.decl i slot)

def paramSpan? (arena : Arena) (place : ParamPlace) (slot : ParamSlot) : Option Span :=
  match place with
  | .forEach id => arena.stmtSpan? id (.param slot)
  | .method t i k => arena.typeSpan? t (.param i k slot)

/-- The span of a part of a line, a type or a node that is there. -/
def span? (arena : Arena) : Mark → Option Span
  | .package => arena.package.map (·.spans ())
  | .importLine i => arena.imports[i]?.map (·.spans ())
  | .typeDecl t => arena.typeSpan? t .whole
  | .field t i => arena.typeSpan? t (.field i)
  | .method t i => arena.typeSpan? t (.method i)
  | .returnType t i => arena.typeSpan? t (.result i)
  | .expr id => arena.exprSpan? id .whole
  | .exprName id => arena.exprSpan? id .name
  | .exprType id => arena.exprSpan? id .type
  | .stmt id => arena.stmtSpan? id .whole
  | .declType place => arena.declSpan? place .type
  | .fragment place i => arena.declSpan? place (.fragment i)
  | .fragmentName place i => arena.declSpan? place (.fragmentName i)
  | .param place => arena.paramSpan? place .whole
  | .paramType place => arena.paramSpan? place .type
  | .paramName place => arena.paramSpan? place .name

/-- The unit of an arena; `rest` has the spans of marks that nothing in it stands for. -/
def toUnit (arena : Arena) (rest : Mark → Span) : CompilationUnit where
  file := arena.file
  package := arena.package.map (·.form)
  imports := arena.imports.map (·.form)
  types := arena.types.map (·.form)
  exprs := arena.exprs.map (·.form)
  stmts := arena.stmts.map (·.form)
  text := arena.text
  spans mark := (arena.span? mark).getD (rest mark)

end Arena

namespace CompilationUnit

def exprCells (unit : CompilationUnit) (spans : Mark → Span) :
    Array (Ranged ExprSlot ExprNode) :=
  unit.exprs.mapIdx fun i node => ⟨node, fun slot => spans (slot.mark ⟨i⟩)⟩

def stmtCells (unit : CompilationUnit) (spans : Mark → Span) : Array (Ranged StmtSlot Stmt) :=
  unit.stmts.mapIdx fun i stmt => ⟨stmt, fun slot => spans (slot.mark ⟨i⟩)⟩

def packageCell (unit : CompilationUnit) (spans : Mark → Span) : Option (Ranged Unit String) :=
  unit.package.map fun name => ⟨name, fun _ => spans .package⟩

def importCells (unit : CompilationUnit) (spans : Mark → Span) : List (Ranged Unit Import) :=
  unit.imports.zipIdx.map fun (imp, i) => ⟨imp, fun _ => spans (.importLine i)⟩

def typeCells (unit : CompilationUnit) (spans : Mark → Span) :
    List (Ranged TypeSlot TypeDecl) :=
  unit.types.zipIdx.map fun (decl, t) => ⟨decl, fun slot => spans (slot.mark t)⟩

/-- The unit with its spans in its parts. -/
def arena (unit : CompilationUnit) : Arena where
  file := unit.file
  package := unit.packageCell unit.spans
  imports := unit.importCells unit.spans
  types := unit.typeCells unit.spans
  exprs := unit.exprCells unit.spans
  stmts := unit.stmtCells unit.spans
  text := unit.text

end CompilationUnit
end EnhancedFor
