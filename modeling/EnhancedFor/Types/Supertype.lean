import EnhancedFor.Types.Store

/-!
Search among the supertypes of a type by the start of the qualified name, and the declarations that
a type mentions.
-/

namespace EnhancedFor
namespace TypeStore

/-- The type itself, then its superclass, then its interfaces, each searched in depth before the
next. Arrays and primitives match nothing and have no supertypes. -/
def superTypeWithin (store : TypeStore) (name : String) : Nat → TypeId → Option TypeId
  | 0, _ => none
  | depth + 1, id => do
    let b ← store.type? id
    if b.isArray || b.isPrimitive then none
    else if b.nameStartsWith name then some id
    else b.supertypes.findSome? (superTypeWithin store name depth)

/-- A chain of supertypes without repetition is no longer than the table. -/
def superType? (store : TypeStore) (id : TypeId) (name : String) : Option TypeId :=
  superTypeWithin store name (store.size + 1) id

/-- Declarations in a type from left to right, with repetitions, down to so many levels of arguments
and components. -/
def occurring (store : TypeStore) : Nat → TypeId → List TypeId
  | 0, _ => []
  | depth + 1, id =>
    match store.type? id with
    | none => []
    | some b =>
      match b.kind with
      | .primitive | .typeVariable => []
      | .array => b.component.toList.flatMap (occurring store depth)
      | .classType | .interfaceType =>
        b.erasure.getD id :: b.typeArguments.flatMap (occurring store depth)

/-- The declarations that a source reference to the type mentions, each once. A chain of arguments
and components without repetition is no longer than the table. -/
def mentioned (store : TypeStore) (id : TypeId) : List TypeId :=
  (occurring store store.size id).eraseDups

/-- What the search for them looks up: the types on its way, and the declarations that it finds. -/
def mentionLookupsWithin (store : TypeStore) : Nat → TypeId → List Binding
  | 0, _ => []
  | depth + 1, id => .type id :: match store.type? id with
    | none => []
    | some b =>
      match b.kind with
      | .primitive | .typeVariable => []
      | .array => b.component.toList.flatMap (mentionLookupsWithin store depth)
      | .classType | .interfaceType =>
        .type (b.erasure.getD id) :: b.typeArguments.flatMap (mentionLookupsWithin store depth)

def mentionLookups (store : TypeStore) (id : TypeId) : List Binding :=
  mentionLookupsWithin store (store.size + 1) id

/-- Their raw qualified names. -/
def mentionedNames (store : TypeStore) (id : TypeId) : List String :=
  (store.mentioned id).filterMap fun decl => (store.type? decl).map (·.rawQualifiedName)

end TypeStore
end EnhancedFor
