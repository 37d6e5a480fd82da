import EnhancedFor.Types.Supertype
import EnhancedFor.Syntax.Parents

/-!
Import lines to add and to remove when some nodes of a unit go and some types are newly mentioned.
-/

namespace EnhancedFor

/-- An import at its place in the text. -/
structure ImportLine where
  line : Import
  span : Span
  deriving DecidableEq, Repr

structure ImportChanges where
  added : List String
  removed : List ImportLine
  deriving DecidableEq, Repr

namespace ImportChanges

def empty : ImportChanges := ⟨[], []⟩

def isEmpty (c : ImportChanges) : Bool := c.added.isEmpty && c.removed.isEmpty

def add (c : ImportChanges) (name : String) : ImportChanges :=
  if c.added.contains name then c else { c with added := c.added ++ [name] }

def remove (c : ImportChanges) (line : ImportLine) : ImportChanges :=
  if c.removed.contains line then c else { c with removed := c.removed ++ [line] }

end ImportChanges

/-- What a conversion does to the nodes of a unit: some go, some of those below them stay, and some
types are mentioned that were not. -/
structure NodeChanges where
  added : List String
  removed : List Node
  retained : List Node
  deriving Repr

namespace CompilationUnit

def importLines (unit : CompilationUnit) : List ImportLine :=
  unit.imports.zipIdx.map fun (line, i) => ⟨line, unit.spans (.importLine i)⟩

def importLine (unit : CompilationUnit) (i : Nat) : Except Fault ImportLine :=
  unit.importLines[i]?.elim (.error .unknownNode) .ok

/-- The simple name of the qualified one means another type in the unit, by an import of that one
type or by a type of the unit itself. -/
def isShadowed (unit : CompilationUnit) (qualifiedName : String) : Bool :=
  let simple := Java.simpleName qualifiedName
  let imported := unit.imports.any fun i =>
    !i.isStatic && i.simpleName? == some simple && i.path != qualifiedName
  let declared := unit.types.any fun t =>
    let name := match unit.package with
      | some package => package ++ "." ++ t.name
      | none => t.name
    t.name == simple && name != qualifiedName
  imported || declared

/-- The type that a node writes out. -/
def typeRefAt? (unit : CompilationUnit) : Node → Option TypeRef
  | .stmt id => match unit.stmt? id with
    | some (.declare decl) => some decl.type
    | some (.forEach param _ _) => some param.type
    | _ => none
  | .expr id => match unit.expr? id with
    | some (.declare decl) => some decl.type
    | some (.cast type _) => some type
    | some (.create type _) => some type
    | _ => none

/-- Types that the declarations of fields and methods write out. -/
def memberTypeRefs (unit : CompilationUnit) : List TypeRef :=
  unit.types.flatMap fun t =>
    t.fields.map (·.type) ++
      t.methods.flatMap fun m => m.returnType.toList ++ m.params.map (·.type)

/-- An account of the imports looks up the types that the unit writes out and what these are made
of. -/
def importLookups (unit : CompilationUnit) (store : TypeStore) : List Binding :=
  (unit.memberTypeRefs ++ unit.allNodes.filterMap unit.typeRefAt?).flatMap fun ref =>
    ref.type.toList.flatMap store.mentionLookups

end CompilationUnit

namespace TypeRef

/-- Raw qualified names of the declarations that a written type mentions. -/
def mentions (ref : TypeRef) (store : TypeStore) : List String :=
  ref.type.elim [] store.mentionedNames

end TypeRef

namespace NodeChanges

/-- The nearest marked node on the way up decides; a node without any stays. -/
def removes (changes : NodeChanges) (parents : Parents) (node : Node) : Bool :=
  ((parents.path node).findSome? fun n =>
    if changes.retained.contains n then some false
    else if changes.removed.contains n then some true
    else none).getD false

/-- An import of one type goes when removed nodes mention the type and nothing that stays or is new
does. -/
def deadImports (changes : NodeChanges) (unit : CompilationUnit) (store : TypeStore) :
    List ImportLine :=
  let parents := Parents.ofUnit unit
  let (gone, kept) := unit.allNodes.partition (changes.removes parents)
  let mentionedAt (nodes : List Node) : List String :=
    (nodes.filterMap unit.typeRefAt?).flatMap (·.mentions store)
  let live := unit.memberTypeRefs.flatMap (·.mentions store) ++ mentionedAt kept
  let touched := mentionedAt gone
  unit.importLines.filter fun i =>
    !i.line.isStatic && !i.line.isOnDemand && touched.contains i.line.path &&
      !live.contains i.line.path && !changes.added.contains i.line.path

/-- New types that need an import: not those of the default package, of `java.lang`, of the unit's
own package or imported already. -/
def neededImports (changes : NodeChanges) (unit : CompilationUnit) : List String :=
  changes.added.eraseDups.filter fun name =>
    let package := Java.packageName? name
    let implicit := package.isNone || package == some "java.lang" || package == unit.package
    let imported := unit.imports.any fun i =>
      !i.isStatic && if i.isOnDemand then some i.path == package else i.path == name
    !implicit && !imported

/-- Enters the changes to the import list after those that are there, given all that the unit
mentions. -/
def applyTo (changes : NodeChanges) (unit : CompilationUnit) (store : TypeStore)
    (imports : ImportChanges) : ImportChanges :=
  let imports := (changes.deadImports unit store).foldl ImportChanges.remove imports
  (changes.neededImports unit).foldl ImportChanges.add imports

/-- The same for any unit: all code is gone through, and all that written types mention is looked
up. -/
def importChanges (changes : NodeChanges) (unit : CompilationUnit) (store : TypeStore)
    (imports : ImportChanges) : Except Fault ImportChanges := do
  let unit ← unit.complete
  store.require (unit.importLookups store)
  return changes.applyTo unit store imports

end NodeChanges
end EnhancedFor
