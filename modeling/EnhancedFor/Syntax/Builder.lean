import EnhancedFor.Syntax.Printer

/-!
Building a unit node by node from the bindings of a type store. A part that is bound to what the
store lacks cannot be added.
-/

namespace EnhancedFor

namespace TypeStore

def variableName (store : TypeStore) (id : VarId) : String :=
  ((store.var? id).map (·.name)).getD ""

def variableType? (store : TypeStore) (id : VarId) : Option TypeId := (store.var? id).bind (·.type)

/-- A type written by its simple name. -/
def typeRef (store : TypeStore) (id : TypeId) : TypeRef :=
  ⟨((store.type? id).map (·.name)).getD "", some id⟩

/-- The type of a variable; one without a type is declared as `Object`. -/
def variableTypeRef (store : TypeStore) : Option VarId → TypeRef
  | some id => match store.variableType? id with
    | some type => store.typeRef type
    | none => ⟨"Object", none⟩
  | none => ⟨"Object", none⟩

def parameter (store : TypeStore) (id : VarId) : Parameter :=
  ⟨store.variableTypeRef (some id), store.variableName id, some id⟩

def fragment (store : TypeStore) (id : VarId) (init : Option ExprId) : Fragment :=
  ⟨store.variableName id, some id, init⟩

/-- Variables declared together have the type of the first. -/
def declaration (store : TypeStore) (vars : List (VarId × Option ExprId)) : Declaration :=
  ⟨store.variableTypeRef (vars.head?.map (·.1)), vars.map fun (id, init) => store.fragment id init⟩

end TypeStore

namespace ExprNode

def name (store : TypeStore) (id : VarId) : ExprNode :=
  ⟨.name (store.variableName id) (some id), store.variableType? id⟩

def unresolvedName (text : String) : ExprNode := ⟨.name text none, none⟩

def field (store : TypeStore) (receiver : ExprId) (id : VarId) : ExprNode :=
  ⟨.field receiver (store.variableName id) (some id), store.variableType? id⟩

def self (type : Option TypeId) : ExprNode := ⟨.self, type⟩

/-- A call has the given type, else the one its method returns. -/
def call (store : TypeStore) (receiver : Option ExprId) (method : MethodId) (args : List ExprId)
    (type : Option TypeId) : ExprNode :=
  let m := store.method? method
  ⟨.call receiver ((m.map (·.name)).getD "") args (some method), type.or (m.bind (·.returnType))⟩

def unresolvedCall (receiver : Option ExprId) (name : String) (args : List ExprId) : ExprNode :=
  ⟨.call receiver name args none, none⟩

def create (store : TypeStore) (type : TypeId) (args : List ExprId) : ExprNode :=
  ⟨.create (store.typeRef type) args, some type⟩

def assign (unit : CompilationUnit) (op : AssignOp) (target value : ExprId) : ExprNode :=
  ⟨.assign op target value, unit.exprType? target⟩

def declare (store : TypeStore) (vars : List (VarId × Option ExprId)) : ExprNode :=
  ⟨.declare (store.declaration vars), none⟩

def literal (kind : LiteralKind) (text : String) (type : Option TypeId) : ExprNode :=
  ⟨.literal kind text, type⟩

def cast (store : TypeStore) (type : TypeId) (inner : ExprId) : ExprNode :=
  ⟨.cast (store.typeRef type) inner, some type⟩

def paren (unit : CompilationUnit) (inner : ExprId) : ExprNode :=
  ⟨.paren inner, unit.exprType? inner⟩

def binary (op : BinaryOp) (left right : ExprId) (type : Option TypeId) : ExprNode :=
  ⟨.binary op left right, type⟩

def unary (unit : CompilationUnit) (op : UnaryOp) (operand : ExprId) : ExprNode :=
  ⟨.unary op operand, unit.exprType? operand⟩

end ExprNode

namespace CompilationUnit

def addExpr (unit : CompilationUnit) (store : TypeStore) (node : ExprNode) :
    Except Fault CompilationUnit := do
  store.require node.expr.bindings
  return { unit with exprs := unit.exprs.push node }

def addStmt (unit : CompilationUnit) (store : TypeStore) (stmt : Stmt) :
    Except Fault CompilationUnit := do
  store.require stmt.bindings
  return { unit with stmts := unit.stmts.push stmt }

def addImport (unit : CompilationUnit) (text : String) : CompilationUnit :=
  { unit with imports := unit.imports ++ [Import.ofText text] }

def addType (unit : CompilationUnit) (name : String) (binding : Option TypeId) : CompilationUnit :=
  { unit with types := unit.types ++ [⟨name, binding, [], []⟩] }

/-- Changes the last type; a unit without types gets a class `Main` first. -/
def updateLastType (unit : CompilationUnit) (f : TypeDecl → TypeDecl) : CompilationUnit :=
  let unit := if unit.types.isEmpty then unit.addType "Main" none else unit
  { unit with types := unit.types.modify (unit.types.length - 1) f }

def addField (unit : CompilationUnit) (store : TypeStore) (id : VarId) (init : Option ExprId) :
    Except Fault CompilationUnit := do
  let field := store.declaration [(id, init)]
  store.require field.bindings
  return updateLastType unit fun t => { t with fields := t.fields ++ [field] }

/-- Adds a method without a result. -/
def addMethod (unit : CompilationUnit) (store : TypeStore) (name : String) (params : List VarId)
    (body : StmtId) : Except Fault CompilationUnit := do
  let method : Method := ⟨name, none, params.map store.parameter, some body⟩
  store.require method.bindings
  return updateLastType unit fun t => { t with methods := t.methods ++ [method] }

end CompilationUnit
end EnhancedFor
