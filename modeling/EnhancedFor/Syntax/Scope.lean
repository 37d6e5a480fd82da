import EnhancedFor.Syntax.Walk

/-!
Names of variables around an offset of a printed unit: those visible before it, and those declared
after it in the innermost block.
-/

namespace EnhancedFor

/-- What a name proposal has to know about its surroundings. -/
structure Scopes where
  before : Nat → List String
  after : Nat → List String

namespace Scopes

/-- The same names at every offset. -/
def fixed (before after : List String) : Scopes := ⟨fun _ => before, fun _ => after⟩

end Scopes

namespace CompilationUnit

/-- The body of the first method around the offset that has one. -/
def enclosingBody? (unit : CompilationUnit) (offset : Nat) : Option StmtId :=
  (unit.methods.filter fun (t, i, _) => (unit.spans (.method t i)).touches offset).findSome?
    fun (_, _, m) => m.body

/-- The names that the initialisers of a counted loop declare. -/
def initNames (unit : CompilationUnit) (inits : List ExprId) : List String :=
  inits.flatMap fun e =>
    match unit.expr? e with
    | some (.declare decl) => decl.names
    | _ => []

/-- The statements of a block that end at or before the offset, and the next one if it starts at or
before it. -/
def splitBlock (unit : CompilationUnit) (offset : Nat) (statements : List StmtId) :
    List StmtId × Option StmtId :=
  let isPast (s : StmtId) : Bool := decide ((unit.stmtSpan s).stop ≤ offset)
  (statements.takeWhile isPast,
    (statements.dropWhile isPast).head?.filter fun s => decide ((unit.stmtSpan s).start ≤ offset))

def declaredNames (unit : CompilationUnit) (id : StmtId) : List String :=
  match unit.stmt? id with
  | some (.declare decl) => decl.names
  | _ => []

/-- Names that a statement around the offset makes visible there, to a nesting of `depth`. -/
def visibleWithin (unit : CompilationUnit) (offset : Nat) : Nat → StmtId → List String
  | 0, _ => []
  | depth + 1, id =>
    let sub := visibleWithin unit offset depth
    let inChild (child : StmtId) : List String :=
      if (unit.stmtSpan child).contains offset then sub child else []
    match unit.stmt? id with
    | some (.block statements) =>
      let (past, current) := splitBlock unit offset statements
      past.flatMap (declaredNames unit) ++ (current.map sub).getD []
    | some (.forLoop inits _ _ body) =>
      (if (unit.stmtSpan id).start < offset then initNames unit inits else []) ++ inChild body
    | some (.forEach param _ body) =>
      if (unit.stmtSpan body).contains offset then param.name :: sub body else []
    | some (.branch _ thenBranch elseBranch) =>
      inChild thenBranch ++ (elseBranch.map inChild).getD []
    | some (.whileLoop _ body) => inChild body
    | _ => []

/-- Fields of the type around the offset, parameters of its method, then locals. -/
def declarationsBefore (unit : CompilationUnit) (offset : Nat) : List String :=
  let owner := unit.types.zipIdx.find? fun (_, t) => (unit.spans (.typeDecl t)).touches offset
  let members := match owner with
    | none => []
    | some (decl, t) =>
      let method := decl.methods.zipIdx.find? fun (_, i) =>
        (unit.spans (.method t i)).touches offset
      decl.fields.flatMap (·.names) ++
        ((method.map fun (m, _) => m.params.map (·.name)).getD [])
  let locals := match unit.enclosingBody? offset with
    | none => []
    | some body => unit.visibleWithin offset unit.depth body
  members ++ locals

/-- The last block, in pre-order, with the offset strictly inside it and inside all statements
around it. -/
def innermostBlock? (unit : CompilationUnit) (body : StmtId) (offset : Nat) : Option StmtId :=
  let span := unit.stmtSpan body
  let surrounds (node : Node) : Bool := match node with
    | .stmt id =>
      let span := unit.stmtSpan id
      decide (span.start < offset) && decide (offset < span.stop)
    | .expr _ => false
  if span.start < offset && offset ≤ span.stop then
    ((unit.nodesBelow (.stmt body) surrounds).filterMap fun
      | .stmt id =>
        if surrounds (.stmt id) && (unit.stmt? id).any Stmt.isBlock then some id else none
      | .expr _ => none).getLast?
  else none

/-- The names that a node itself declares. -/
def namesDeclaredAt (unit : CompilationUnit) : Node → List String
  | .stmt id => match unit.stmt? id with
    | some (.declare decl) => decl.names
    | some (.forEach param _ _) => [param.name]
    | _ => []
  | .expr id => match unit.expr? id with
    | some (.declare decl) => decl.names
    | _ => []

/-- Names declared at any depth in the statements of the innermost block that start at or after the
offset. -/
def declarationsAfter (unit : CompilationUnit) (offset : Nat) : List String :=
  match (unit.enclosingBody? offset).bind fun body => unit.innermostBlock? body offset with
  | none => []
  | some block =>
    match unit.stmt? block with
    | some (.block statements) =>
      let later := statements.filter fun s => decide (offset ≤ (unit.stmtSpan s).start)
      (later.flatMap fun s => unit.subtree (.stmt s)).flatMap unit.namesDeclaredAt
    | _ => []

/-- The scopes that the text of a unit shows. -/
def scopes (unit : CompilationUnit) : Scopes := ⟨unit.declarationsBefore, unit.declarationsAfter⟩

end CompilationUnit
end EnhancedFor
