import EnhancedFor.Types.Parameterize

/-!
A store with the part of the Java library that loops over collections meet.
-/

namespace EnhancedFor

structure Collections where
  store : TypeStore
  string : TypeId
  integer : TypeId
  boolean : TypeId
  int : TypeId
  iterable : TypeId
  iterator : TypeId
  listIterator : TypeId
  enumeration : TypeId
  collection : TypeId
  list : TypeId
  abstractCollection : TypeId
  abstractList : TypeId
  arrayList : TypeId
  vector : TypeId
  iterableIterator : MethodId
  hasNext : MethodId
  next : MethodId
  remove : MethodId
  hasMoreElements : MethodId
  nextElement : MethodId
  vectorElements : MethodId
  listSize : MethodId

namespace Collections

/-- Building steps over a store. -/
abbrev Build := StateT TypeStore (Except Fault)

private def classOf (name : String) (params : List String) : Build TypeId :=
  fun store => pure (store.declareClass name params).swap

private def interfaceOf (name : String) (params : List String) : Build TypeId :=
  fun store => pure (store.declareInterface name params).swap

private def primitiveOf (name : String) : Build TypeId :=
  fun store => pure (store.declarePrimitive name).swap

/-- The type `generic<E>` for the first type parameter `E` of `owner`. -/
private def overParameterOf (owner generic : TypeId) : Build TypeId :=
  fun store => (·.swap) <$> store.parameterize generic ((store.typeParameters owner).take 1)

private def methodOf (owner : TypeId) (name : String) (result : Option TypeId) : Build MethodId :=
  fun store => pure (store.addMethod owner name result).swap

private def implement (owner generic : TypeId) : Build Unit := do
  let face ← overParameterOf owner generic
  modify fun store => store.addInterface owner face

private def extend (owner generic : TypeId) : Build Unit := do
  let superclass ← overParameterOf owner generic
  modify fun store => store.setSuperclass owner superclass

private def build : Build Collections := do
  let string ← classOf "java.lang.String" []
  let integer ← classOf "java.lang.Integer" []
  let boolean ← primitiveOf "boolean"
  let int ← primitiveOf "int"
  let iterator ← interfaceOf "java.util.Iterator" ["E"]
  let listIterator ← interfaceOf "java.util.ListIterator" ["E"]
  implement listIterator iterator
  let enumeration ← interfaceOf "java.util.Enumeration" ["E"]
  let iterable ← interfaceOf "java.lang.Iterable" ["T"]
  let iteratorOfT ← overParameterOf iterable iterator
  let iterableIterator ← methodOf iterable "iterator" (some iteratorOfT)
  let collection ← interfaceOf "java.util.Collection" ["E"]
  implement collection iterable
  let list ← interfaceOf "java.util.List" ["E"]
  implement list collection
  let listSize ← methodOf list "size" (some int)
  let abstractCollection ← classOf "java.util.AbstractCollection" ["E"]
  implement abstractCollection collection
  let abstractList ← classOf "java.util.AbstractList" ["E"]
  extend abstractList abstractCollection
  implement abstractList list
  let arrayList ← classOf "java.util.ArrayList" ["E"]
  extend arrayList abstractList
  implement arrayList list
  let vector ← classOf "java.util.Vector" ["E"]
  extend vector abstractList
  let enumerationOfE ← overParameterOf vector enumeration
  let vectorElements ← methodOf vector "elements" (some enumerationOfE)
  let hasNext ← methodOf iterator "hasNext" (some boolean)
  let next ← methodOf iterator "next" none
  let remove ← methodOf iterator "remove" none
  let hasMoreElements ← methodOf enumeration "hasMoreElements" (some boolean)
  let nextElement ← methodOf enumeration "nextElement" none
  return { store := ← get, string, integer, boolean, int, iterable, iterator, listIterator,
           enumeration, collection, list, abstractCollection, abstractList, arrayList, vector,
           iterableIterator, hasNext, next, remove, hasMoreElements, nextElement, vectorElements,
           listSize }

/-- The collection types and their methods, in a store of their own. -/
def standard : Except Fault Collections := (build.run TypeStore.initial).map (·.1)

end Collections
end EnhancedFor
