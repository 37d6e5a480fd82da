import EnhancedFor.Java.QualifiedName
import EnhancedFor.Text.Span

/-!
Tables of resolved types, methods and variables. A type is named by its place in the table, and a
parameterised type or an array is entered only once, so equal types have equal ids.
-/

namespace EnhancedFor

structure TypeId where
  index : Nat
  deriving DecidableEq, Repr, Inhabited

structure MethodId where
  index : Nat
  deriving DecidableEq, Repr, Inhabited

structure VarId where
  index : Nat
  deriving DecidableEq, Repr, Inhabited

inductive TypeKind where
  | classType
  | interfaceType
  | array
  | primitive
  | typeVariable
  deriving DecidableEq, Repr

def TypeKind.label : TypeKind → String
  | .classType => "Class"
  | .interfaceType => "Interface"
  | .array => "Array"
  | .primitive => "Primitive"
  | .typeVariable => "TypeVariable"

/-- Names of a parameterised type include its arguments. `erasure` is the declaration it is made
from. -/
structure TypeBinding where
  kind : TypeKind
  qualifiedName : String
  name : String
  erasure : Option TypeId := none
  typeParameters : List TypeId := []
  typeArguments : List TypeId := []
  superclass : Option TypeId := none
  interfaces : List TypeId := []
  component : Option TypeId := none
  deriving DecidableEq, Repr

namespace TypeBinding

def declared (kind : TypeKind) (qualifiedName : String) : TypeBinding :=
  { kind, qualifiedName, name := Java.simpleName qualifiedName }

def isParameterized (b : TypeBinding) : Bool := !b.typeArguments.isEmpty

def isArray (b : TypeBinding) : Bool := b.kind == .array

def isPrimitive (b : TypeBinding) : Bool := b.kind == .primitive

def isTypeVariable (b : TypeBinding) : Bool := b.kind == .typeVariable

def rawQualifiedName (b : TypeBinding) : String := Java.rawName b.qualifiedName

def nameStartsWith (b : TypeBinding) (start : String) : Bool :=
  start.toList.isPrefixOf b.qualifiedName.toList

/-- The superclass, then the interfaces in order. -/
def supertypes (b : TypeBinding) : List TypeId := b.superclass.toList ++ b.interfaces

/-- Classes, interfaces and primitives can be found by name; parameterised ones cannot. -/
def isNamed (b : TypeBinding) : Bool :=
  b.erasure.isNone && (b.kind == .classType || b.kind == .interfaceType || b.kind == .primitive)

end TypeBinding

structure MethodBinding where
  name : String
  declaringType : TypeId
  returnType : Option TypeId
  deriving DecidableEq, Repr

inductive VariableKind where
  | localVar
  | parameter
  | field
  deriving DecidableEq, Repr

def VariableKind.label : VariableKind → String
  | .localVar => "Local"
  | .parameter => "Parameter"
  | .field => "Field"

structure VariableBinding where
  name : String
  type : Option TypeId
  kind : VariableKind
  deriving DecidableEq, Repr

/-- What a part of a program can be bound to. -/
inductive Binding where
  | type (id : TypeId)
  | method (id : MethodId)
  | var (id : VarId)
  deriving DecidableEq, Repr

structure TypeStore where
  types : Array TypeBinding
  methods : Array MethodBinding
  vars : Array VariableBinding
  deriving DecidableEq, Repr

namespace TypeStore

def objectName : String := "java.lang.Object"

/-- The first type of every store. -/
def object : TypeId := ⟨0⟩

/-- The store that knows only `java.lang.Object`. -/
def initial : TypeStore := ⟨#[.declared .classType objectName], #[], #[]⟩

instance : Inhabited TypeStore := ⟨initial⟩

def type? (store : TypeStore) (id : TypeId) : Option TypeBinding := store.types[id.index]?

def method? (store : TypeStore) (id : MethodId) : Option MethodBinding := store.methods[id.index]?

def var? (store : TypeStore) (id : VarId) : Option VariableBinding :=
  store.vars[id.index]?

def size (store : TypeStore) : Nat := store.types.size

/-- The entry of a type; an id of another store is a fault. -/
def type (store : TypeStore) (id : TypeId) : Except Fault TypeBinding :=
  (store.type? id).elim (.error .unknownBinding) .ok

def var (store : TypeStore) (id : VarId) : Except Fault VariableBinding :=
  (store.var? id).elim (.error .unknownBinding) .ok

/-- The store has an entry for the binding. -/
def knows (store : TypeStore) : Binding → Bool
  | .type id => (store.type? id).isSome
  | .method id => (store.method? id).isSome
  | .var id => (store.var? id).isSome

/-- Looks up bindings; one that the store lacks is a fault. -/
def require (store : TypeStore) (bindings : List Binding) : Except Fault Unit :=
  if bindings.all store.knows then .ok () else .error .unknownBinding

/-- Enters a type at the end of the table. -/
def add (store : TypeStore) (b : TypeBinding) : TypeStore × TypeId :=
  ({ store with types := store.types.push b }, ⟨store.size⟩)

/-- Changes one entry of the type table. -/
def update (store : TypeStore) (id : TypeId) (f : TypeBinding → TypeBinding) : TypeStore :=
  { store with types := store.types.modify id.index f }

def lastNamed? (name : String) : List (TypeBinding × Nat) → Option TypeId
  | [] => none
  | (b, i) :: rest => (lastNamed? name rest).or
      (if b.isNamed && b.qualifiedName == name then some ⟨i⟩ else none)

/-- The latest declaration of a qualified name. -/
def lookup? (store : TypeStore) (name : String) : Option TypeId :=
  lastNamed? name store.types.toList.zipIdx

def addParameters (store : TypeStore) (owner : TypeId) (names : List String) : TypeStore :=
  let first := store.size
  let params := names.map fun n =>
    { TypeBinding.declared .typeVariable n with superclass := some object }
  let ids := (List.range names.length).map fun i => TypeId.mk (first + i)
  { store with types := store.types ++ params.toArray }.update owner
    fun b => { b with typeParameters := ids }

/-- A class extends `java.lang.Object` until told otherwise; `java.lang.Object` itself is declared
already. -/
def declareClass (store : TypeStore) (name : String) (params : List String) : TypeStore × TypeId :=
  if name == objectName then (store, object)
  else
    let (store, id) :=
      store.add { TypeBinding.declared .classType name with superclass := some object }
    (store.addParameters id params, id)

def declareInterface (store : TypeStore) (name : String) (params : List String) :
    TypeStore × TypeId :=
  let (store, id) := store.add (.declared .interfaceType name)
  (store.addParameters id params, id)

/-- A name that is declared already keeps its type, whatever its kind. -/
def declarePrimitive (store : TypeStore) (name : String) : TypeStore × TypeId :=
  match store.lookup? name with
  | some id => (store, id)
  | none => store.add (.declared .primitive name)

def typeParameters (store : TypeStore) (id : TypeId) : List TypeId :=
  ((store.type? id).map (·.typeParameters)).getD []

def setSuperclass (store : TypeStore) (id superclass : TypeId) : TypeStore :=
  store.update id fun b => { b with superclass := some superclass }

def addInterface (store : TypeStore) (id face : TypeId) : TypeStore :=
  store.update id fun b => { b with interfaces := b.interfaces ++ [face] }

/-- The place of the array type of a component. -/
def findArray? (store : TypeStore) (component : TypeId) : Option TypeId :=
  (store.types.toList.findIdx? fun b => b.component == some component).map TypeId.mk

def arrayOf (store : TypeStore) (component : TypeId) : TypeStore × TypeId :=
  match store.findArray? component, store.type? component with
  | some id, _ => (store, id)
  | none, some c => store.add
      { kind := .array, qualifiedName := c.qualifiedName ++ "[]", name := c.name ++ "[]",
        superclass := some object, component := some component }
  | none, none => (store, component)

def addMethod (store : TypeStore) (declaringType : TypeId) (name : String)
    (returnType : Option TypeId) : TypeStore × MethodId :=
  ({ store with methods := store.methods.push ⟨name, declaringType, returnType⟩ },
    ⟨store.methods.size⟩)

def addVariable (store : TypeStore) (name : String) (type : Option TypeId) (kind : VariableKind) :
    TypeStore × VarId :=
  ({ store with vars := store.vars.push ⟨name, type, kind⟩ }, ⟨store.vars.size⟩)

def firstTypeArgument? (store : TypeStore) (id : TypeId) : Option TypeId := do
  (← store.type? id).typeArguments.head?

@[simp] theorem type?_add_size (store : TypeStore) (b : TypeBinding) :
    (store.add b).1.type? (store.add b).2 = some b := by
  simp [add, type?, size]

theorem type?_add_of_lt {store : TypeStore} {id : TypeId} (b : TypeBinding)
    (h : id.index < store.size) : (store.add b).1.type? id = store.type? id := by
  have hne : id.index ≠ store.types.size := Nat.ne_of_lt h
  simp [add, type?, Array.getElem?_push, hne]

end TypeStore
end EnhancedFor
