import EnhancedFor.Syntax.Layout

/-!
The layout of a compilation unit. Printing a unit takes the text and the spans of its layout; parts
that are not laid out keep their spans.
-/

namespace EnhancedFor
namespace CompilationUnit

open Layout (mark join concat indent)

def typeRefLayout (place : Mark) (ref : TypeRef) : Layout := mark place ref.text

def paramLayout (place : ParamPlace) (param : Parameter) : Layout :=
  mark (.param place)
    (typeRefLayout (.paramType place) param.type ++ " " ++
      mark (.paramName place) param.name)

/-- A part that may be missing, with the text that leads to it. -/
def optionalLayout (first : String) (layout : α → Layout) : Option α → Layout
  | some part => first ++ layout part
  | none => .empty

/-- A declaration, given how to lay out its initialisers. -/
def declLayout (exprLayout : ExprId → Layout) (place : DeclPlace) (decl : Declaration) :
    Layout :=
  let fragment (f : Fragment) (i : Nat) : Layout :=
    mark (.fragment place i)
      (mark (.fragmentName place i) f.name ++ optionalLayout " = " exprLayout f.init)
  typeRefLayout (.declType place) decl.type ++ " " ++
    join ", " (decl.fragments.zipIdx.map fun (f, i) => fragment f i)

/-- The receiver of a call, up to the dot. -/
def receiverLayout (sub : ExprId → Layout) : Option ExprId → Layout
  | some receiver => sub receiver ++ "."
  | none => .empty

/-- The text of an expression around the layouts of its operands. -/
def exprShape (sub : ExprId → Layout) (id : ExprId) : Expr → Layout
  | .name name _ => name
  | .field receiver name _ => sub receiver ++ "." ++ mark (.exprName id) name
  | .call receiver name args _ =>
    receiverLayout sub receiver ++ mark (.exprName id) name ++ "(" ++ join ", " (args.map sub) ++
      ")"
  | .create type args =>
    "new " ++ typeRefLayout (.exprType id) type ++ "(" ++ join ", " (args.map sub) ++ ")"
  | .assign op target value => sub target ++ (" " ++ op.text ++ " ") ++ sub value
  | .declare decl => declLayout sub (.expr id) decl
  | .literal .string text => "\"" ++ text ++ "\""
  | .literal _ text => text
  | .cast type inner => "(" ++ typeRefLayout (.exprType id) type ++ ") " ++ sub inner
  | .paren inner => "(" ++ sub inner ++ ")"
  | .binary op left right => sub left ++ (" " ++ op.text ++ " ") ++ sub right
  | .unary op operand => op.before ++ sub operand ++ op.after
  | .self => "this"
  | .missing => .empty

/-- An expression to a nesting of `depth`. -/
def exprLayoutWithin (unit : CompilationUnit) : Nat → ExprId → Layout
  | 0, _ => .empty
  | depth + 1, id =>
    match unit.expr? id with
    | none => .empty
    | some e => mark (.expr id) (exprShape (exprLayoutWithin unit depth) id e)

def exprLayout (unit : CompilationUnit) (id : ExprId) : Layout :=
  exprLayoutWithin unit unit.depth id

/-- A line of its own at an indentation level. -/
def lineLayout (level : Nat) (inner : Layout) : Layout := "\n" ++ indent level ++ inner

/-- The head of a counted loop up to its closing parenthesis. -/
def countedHead (expr : ExprId → Layout) (inits : List ExprId) (condition : Option ExprId)
    (updates : List ExprId) : Layout :=
  "for (" ++ join ", " (inits.map expr) ++ ";" ++ optionalLayout " " expr condition ++ ";" ++
    (if updates.isEmpty then .empty else " " ++ join ", " (updates.map expr))

/-- The text of a statement around the layouts of its parts: expressions, the lines of a block and
the bodies of other statements. -/
def stmtShape (expr : ExprId → Layout) (line body : StmtId → Layout) (level : Nat) (id : StmtId) :
    Stmt → Layout
  | .block statements =>
    "\x7b" ++ concat (statements.map line) ++ lineLayout level "\x7d"
  | .declare decl => declLayout expr (.stmt id) decl ++ ";"
  | .eval e => expr e ++ ";"
  | .branch condition thenBranch elseBranch =>
    "if (" ++ expr condition ++ ") " ++ body thenBranch ++ optionalLayout " else " body elseBranch
  | .whileLoop condition b => "while (" ++ expr condition ++ ") " ++ body b
  | .forLoop inits condition updates b => countedHead expr inits condition updates ++ ") " ++ body b
  | .forEach param iterable b =>
    "for (" ++ paramLayout (.forEach id) param ++ " : " ++ expr iterable ++ ") " ++ body b
  | .ret value => "return" ++ optionalLayout " " expr value ++ ";"
  | .empty => ";"

/-- A statement at an indentation level, to a nesting of `depth`. A body that is no block stands on
a line of its own, one level deeper. -/
def stmtLayoutWithin (unit : CompilationUnit) : Nat → Nat → StmtId → Layout
  | 0, _, _ => .empty
  | depth + 1, level, id =>
    let line (s : StmtId) : Layout :=
      lineLayout (level + 1) (stmtLayoutWithin unit depth (level + 1) s)
    let body (s : StmtId) : Layout :=
      if (unit.stmt? s).any Stmt.isBlock then stmtLayoutWithin unit depth level s else line s
    match unit.stmt? id with
    | none => .empty
    | some s => mark (.stmt id) (stmtShape unit.exprLayout line body level id s)

def stmtLayout (unit : CompilationUnit) (level : Nat) (id : StmtId) : Layout :=
  stmtLayoutWithin unit unit.depth level id

def importShape (imp : Import) : Layout :=
  "import " ++ (if imp.isStatic then "static " else "") ++ imp.path ++
    (if imp.isOnDemand then ".*" else "") ++ ";"

def importLayout (i : Nat) (imp : Import) : Layout := mark (.importLine i) (importShape imp) ++ "\n"

def packageLayout : Option String → Layout
  | some name => mark .package ("package " ++ name ++ ";") ++ "\n\n"
  | none => .empty

def headerLayout (unit : CompilationUnit) : Layout :=
  packageLayout unit.package ++
  concat (unit.imports.zipIdx.map fun (imp, i) => importLayout i imp) ++
  (if unit.imports.isEmpty then "" else "\n")

def fieldLayout (unit : CompilationUnit) (t i : Nat) (decl : Declaration) : Layout :=
  indent 1 ++ mark (.field t i) (declLayout unit.exprLayout (.field t i) decl ++ ";") ++ "\n"

/-- The end of a method from the closing parenthesis of its parameters on. -/
def bodyLayout (unit : CompilationUnit) (body : Option StmtId) : Layout :=
  ")" ++ match body with
    | some id => " " ++ unit.stmtLayout 1 id
    | none => ";"

def resultLayout (t i : Nat) : Option TypeRef → Layout
  | some ref => typeRefLayout (.returnType t i) ref
  | none => "void"

def methodLayout (unit : CompilationUnit) (t i : Nat) (m : Method) : Layout :=
  let params := m.params.zipIdx.map fun (p, k) => paramLayout (.method t i k) p
  indent 1 ++ mark (.method t i)
    (resultLayout t i m.returnType ++ (" " ++ m.name ++ "(") ++ join ", " params ++
      unit.bodyLayout m.body) ++ "\n"

/-- Methods are set off by an empty line from what stands before them in the type. -/
def typeLayout (unit : CompilationUnit) (t : Nat) (decl : TypeDecl) : Layout :=
  mark (.typeDecl t)
    (("class " ++ decl.name ++ " \x7b\n") ++
      concat (decl.fields.zipIdx.map fun (f, i) => fieldLayout unit t i f) ++
      concat (decl.methods.zipIdx.map fun (m, i) =>
        (if i == 0 && decl.fields.isEmpty then "" else "\n") ++ methodLayout unit t i m) ++
      "\x7d") ++ "\n"

def typesLayout (unit : CompilationUnit) : Layout :=
  concat (unit.types.zipIdx.map fun (decl, t) =>
    (if t == 0 then "" else "\n") ++ typeLayout unit t decl)

def layout (unit : CompilationUnit) : Layout := headerLayout unit ++ typesLayout unit

/-- Gives the unit the text and the spans of its layout. -/
def print (unit : CompilationUnit) : CompilationUnit :=
  let marks := unit.layout.marks
  { unit with text := unit.layout.toText, spans := fun m => (marks.lookup m).getD (unit.spans m) }

end CompilationUnit
end EnhancedFor
