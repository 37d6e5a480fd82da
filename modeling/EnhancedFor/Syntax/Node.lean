import EnhancedFor.Types.Store

/-!
Expressions, statements and declarations of a compilation unit. Expressions and statements stand in
tables and refer to each other by their place, so one node may occur in several others.
-/

namespace EnhancedFor

structure ExprId where
  index : Nat
  deriving DecidableEq, Repr, Inhabited

structure StmtId where
  index : Nat
  deriving DecidableEq, Repr, Inhabited

inductive Node where
  | stmt (id : StmtId)
  | expr (id : ExprId)
  deriving DecidableEq, Repr

def ExprId.describe (id : ExprId) : String := "ExprId(" ++ toString id.index ++ ")"

def StmtId.describe (id : StmtId) : String := "StmtId(" ++ toString id.index ++ ")"

/-- The text of a node in messages. -/
def Node.describe : Node → String
  | .stmt id => "Stmt(" ++ id.describe ++ ")"
  | .expr id => "Expr(" ++ id.describe ++ ")"

/-- A written type and the type it means, if that is known. -/
structure TypeRef where
  text : String
  type : Option TypeId
  deriving DecidableEq, Repr

def TypeRef.bindings (ref : TypeRef) : List Binding := ref.type.toList.map .type

structure Fragment where
  name : String
  binding : Option VarId
  init : Option ExprId
  deriving DecidableEq, Repr

def Fragment.bindings (f : Fragment) : List Binding := f.binding.toList.map .var

structure Declaration where
  type : TypeRef
  fragments : List Fragment
  deriving DecidableEq, Repr

def Declaration.names (d : Declaration) : List String := d.fragments.map (·.name)

def Declaration.inits (d : Declaration) : List ExprId := d.fragments.filterMap (·.init)

def Declaration.bindings (d : Declaration) : List Binding :=
  d.type.bindings ++ d.fragments.flatMap (·.bindings)

structure Parameter where
  type : TypeRef
  name : String
  binding : Option VarId
  deriving DecidableEq, Repr

def Parameter.bindings (p : Parameter) : List Binding :=
  p.type.bindings ++ p.binding.toList.map .var

inductive LiteralKind where
  | null
  | bool
  | int
  | string
  deriving DecidableEq, Repr

inductive AssignOp where
  | set
  | add
  | sub
  deriving DecidableEq, Repr

def AssignOp.text : AssignOp → String
  | .set => "="
  | .add => "+="
  | .sub => "-="

inductive BinaryOp where
  | add
  | sub
  | lt
  | eq
  | ne
  | and
  | or
  deriving DecidableEq, Repr

def BinaryOp.text : BinaryOp → String
  | .add => "+"
  | .sub => "-"
  | .lt => "<"
  | .eq => "=="
  | .ne => "!="
  | .and => "&&"
  | .or => "||"

inductive UnaryOp where
  | not
  | neg
  | preIncrement
  | preDecrement
  | postIncrement
  | postDecrement
  deriving DecidableEq, Repr

namespace UnaryOp

def isUpdate : UnaryOp → Bool
  | .not | .neg => false
  | _ => true

/-- What is written before the operand. -/
def before : UnaryOp → String
  | .not => "!"
  | .neg => "-"
  | .preIncrement => "++"
  | .preDecrement => "--"
  | _ => ""

/-- What is written after the operand. -/
def after : UnaryOp → String
  | .postIncrement => "++"
  | .postDecrement => "--"
  | _ => ""

end UnaryOp

inductive Expr where
  | name (name : String) (binding : Option VarId)
  | field (receiver : ExprId) (name : String) (binding : Option VarId)
  | call (receiver : Option ExprId) (name : String) (args : List ExprId)
      (binding : Option MethodId)
  | create (type : TypeRef) (args : List ExprId)
  | assign (op : AssignOp) (target value : ExprId)
  | declare (decl : Declaration)
  | literal (kind : LiteralKind) (text : String)
  | cast (type : TypeRef) (inner : ExprId)
  | paren (inner : ExprId)
  | binary (op : BinaryOp) (left right : ExprId)
  | unary (op : UnaryOp) (operand : ExprId)
  | self
  | missing
  deriving DecidableEq, Repr

namespace Expr

def label : Expr → String
  | .name .. => "Name"
  | .field .. => "FieldAccess"
  | .call .. => "MethodCall"
  | .create .. => "New"
  | .assign .. => "Assignment"
  | .declare _ => "VarDecl"
  | .literal .. => "Literal"
  | .cast .. => "Cast"
  | .paren _ => "Paren"
  | .binary .. => "Binary"
  | .unary .. => "Unary"
  | .self => "This"
  | .missing => "Missing"

def isNullLiteral : Expr → Bool
  | .literal .null _ => true
  | _ => false

/-- The variable that a simple name or a field access refers to. -/
def var? : Expr → Option VarId
  | .name _ binding => binding
  | .field _ _ binding => binding
  | _ => none

/-- Operands from left to right. -/
def children : Expr → List ExprId
  | .field receiver _ _ => [receiver]
  | .call receiver _ args _ => receiver.toList ++ args
  | .create _ args => args
  | .assign _ target value => [target, value]
  | .binary _ left right => [left, right]
  | .declare decl => decl.inits
  | .cast _ inner => [inner]
  | .paren inner => [inner]
  | .unary _ operand => [operand]
  | .name .. | .literal .. | .self | .missing => []

/-- What an expression is bound to, apart from its operands. -/
def bindings : Expr → List Binding
  | .name _ binding => binding.toList.map .var
  | .field _ _ binding => binding.toList.map .var
  | .call _ _ _ binding => binding.toList.map .method
  | .create type _ => type.bindings
  | .cast type _ => type.bindings
  | .declare decl => decl.bindings
  | _ => []

end Expr

inductive Stmt where
  | block (statements : List StmtId)
  | declare (decl : Declaration)
  | eval (expr : ExprId)
  | branch (condition : ExprId) (thenBranch : StmtId) (elseBranch : Option StmtId)
  | whileLoop (condition : ExprId) (body : StmtId)
  | forLoop (inits : List ExprId) (condition : Option ExprId) (updates : List ExprId)
      (body : StmtId)
  | forEach (param : Parameter) (iterable : ExprId) (body : StmtId)
  | ret (value : Option ExprId)
  | empty
  deriving DecidableEq, Repr

namespace Stmt

def label : Stmt → String
  | .block _ => "Block"
  | .declare _ => "LocalVar"
  | .eval _ => "Expr"
  | .branch .. => "If"
  | .whileLoop .. => "While"
  | .forLoop .. => "For"
  | .forEach .. => "EnhancedFor"
  | .ret _ => "Return"
  | .empty => "Empty"

def isBlock : Stmt → Bool
  | .block _ => true
  | _ => false

/-- Parts of a statement in source order. -/
def children : Stmt → List Node
  | .block statements => statements.map .stmt
  | .declare decl => decl.inits.map .expr
  | .eval expr => [.expr expr]
  | .branch condition thenBranch elseBranch =>
    .expr condition :: .stmt thenBranch :: elseBranch.toList.map .stmt
  | .whileLoop condition body => [.expr condition, .stmt body]
  | .forLoop inits condition updates body =>
    (inits ++ condition.toList ++ updates).map .expr ++ [.stmt body]
  | .forEach _ iterable body => [.expr iterable, .stmt body]
  | .ret value => value.toList.map .expr
  | .empty => []

/-- What a statement is bound to, apart from its parts. -/
def bindings : Stmt → List Binding
  | .declare decl => decl.bindings
  | .forEach param _ _ => param.bindings
  | _ => []

end Stmt
end EnhancedFor
