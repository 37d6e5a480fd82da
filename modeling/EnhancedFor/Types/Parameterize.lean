import EnhancedFor.Text.Span
import EnhancedFor.Types.Store

/-!
Parameterised types. Making `G<A>` enters it once, then replaces the type parameters of `G` by the
arguments in the superclass and interfaces that `G` has at that time, which may make further types.
-/

namespace EnhancedFor
namespace TypeStore

/-- The place of `generic<args>`. -/
def findParameterized? (store : TypeStore) (generic : TypeId) (args : List TypeId) :
    Option TypeId :=
  (store.types.toList.findIdx? fun b =>
    b.erasure == some generic && b.typeArguments == args).map TypeId.mk

/-- The entry for `generic<args>` before its supertypes are known. -/
def parameterizedBinding (store : TypeStore) (generic : TypeId) (decl : TypeBinding)
    (args : List TypeId) : TypeBinding :=
  let bindings := args.filterMap store.type?
  let list (names : List String) : String := "<" ++ ",".intercalate names ++ ">"
  { kind := decl.kind
    qualifiedName := decl.qualifiedName ++ list (bindings.map (·.qualifiedName))
    name := decl.name ++ list (bindings.map (·.name))
    erasure := some generic
    typeArguments := args }

/-- Runs a step over a list from left to right, handing the store along. -/
def mapWith (step : TypeStore → TypeId → Option (TypeStore × TypeId)) :
    TypeStore → List TypeId → Option (TypeStore × List TypeId)
  | store, [] => some (store, [])
  | store, id :: ids => do
    let (store, id) ← step store id
    let (store, ids) ← mapWith step store ids
    pure (store, id :: ids)

mutual

/-- Makes `generic<args>` in at most `depth` nested steps. The new type is entered before its
supertypes are made, so that a type that mentions itself is found again. -/
def parameterizeWithin (depth : Nat) (store : TypeStore) (generic : TypeId) (args : List TypeId) :
    Option (TypeStore × TypeId) :=
  match depth with
  | 0 => none
  | depth + 1 => do
    let decl ← store.type? generic
    match store.findParameterized? generic args with
    | some id => some (store, id)
    | none =>
      let (store, id) := store.add (store.parameterizedBinding generic decl args)
      let replaced := decl.typeParameters.zip args
      let (store, superclass) ← mapWith (substituteWithin depth replaced) store
        decl.superclass.toList
      let (store, interfaces) ← mapWith (substituteWithin depth replaced) store decl.interfaces
      some (store.update id fun b =>
        { b with superclass := superclass.head?, interfaces }, id)

/-- Replaces type parameters in a type and in its arguments. Array components stay as they are. -/
def substituteWithin (depth : Nat) (replaced : List (TypeId × TypeId)) (store : TypeStore)
    (id : TypeId) : Option (TypeStore × TypeId) :=
  match depth with
  | 0 => none
  | depth + 1 =>
    match replaced.lookup id with
    | some arg => some (store, arg)
    | none => do
      let b ← store.type? id
      match b.erasure, b.isParameterized with
      | some generic, true => do
        let (store, args) ← mapWith (substituteWithin depth replaced) store b.typeArguments
        parameterizeWithin depth store generic args
      | _, _ => some (store, id)

end

/-- Nested steps allowed in one parameterisation. Supertypes that lead back to known types stay far
below it. -/
def depthLimit (store : TypeStore) : Nat := 65536 + 4 * (store.size + 1) * (store.size + 1)

/-- The declaration that a type is made from; a declaration is its own. -/
def declarationOf (store : TypeStore) (id : TypeId) : TypeId :=
  ((store.type? id).bind (·.erasure)).getD id

/-- Makes `generic<args>` from the declaration behind `generic`; without arguments it is that
declaration itself. -/
def parameterize (store : TypeStore) (generic : TypeId) (args : List TypeId) :
    Except Fault (TypeStore × TypeId) :=
  if args.isEmpty then .ok (store, store.declarationOf generic)
  else
    match parameterizeWithin store.depthLimit store (store.declarationOf generic) args with
    | some r => .ok r
    | none => .error .unboundedType

def typeParameterAt (store : TypeStore) (id : TypeId) (i : Nat) : Except Fault TypeId :=
  (store.typeParameters id)[i]?.elim (.error .unknownNode) .ok

end TypeStore
end EnhancedFor
