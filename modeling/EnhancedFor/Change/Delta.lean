import EnhancedFor.Java.QualifiedName

/-!
Reports of changes to the workspace, as trees of Java elements and of files, and which of them make
a pending change unsafe.
-/

namespace EnhancedFor

inductive ElementKind where
  | model
  | project
  | packageRoot
  | package
  | compilationUnit (isWorkingCopy : Bool)
  | classFile
  | other
  deriving DecidableEq, Repr

inductive DeltaKind where
  | added
  | removed
  | changed
  deriving DecidableEq, Repr

/-- What about an element or a file changed. -/
structure DeltaFlags where
  children : Bool
  content : Bool
  primaryWorkingCopy : Bool
  deriving DecidableEq, Repr

namespace DeltaFlags

def none : DeltaFlags := ⟨false, false, false⟩

def onlyChildren : DeltaFlags := ⟨true, false, false⟩

def union (a b : DeltaFlags) : DeltaFlags :=
  ⟨a.children || b.children, a.content || b.content, a.primaryWorkingCopy || b.primaryWorkingCopy⟩

end DeltaFlags

inductive ElementDelta where
  | mk (element : ElementKind) (kind : DeltaKind) (flags : DeltaFlags)
      (children : List ElementDelta)
  deriving Repr

mutual

/-- A container only passes on changes of its children; compiled classes never matter; of source,
only changes in a working copy are harmless. -/
def ElementDelta.isHarmless : ElementDelta → Bool
  | .mk element kind flags children =>
    match element with
    | .model | .project | .packageRoot | .package =>
      kind == .changed && flags == .onlyChildren && allHarmless children
    | .compilationUnit isWorkingCopy => flags.primaryWorkingCopy || isWorkingCopy
    | .classFile => true
    | .other => false

def allHarmless : List ElementDelta → Bool
  | [] => true
  | d :: ds => d.isHarmless && allHarmless ds

end

inductive ResourceKind where
  | root
  | project
  | folder
  | file
  deriving DecidableEq, Repr

inductive ResourceDelta where
  | mk (path : String) (resource : ResourceKind) (kind : DeltaKind) (flags : DeltaFlags)
      (stillExists : Bool) (children : List ResourceDelta)
  deriving Repr

/-- What follows the last dot is `java`. -/
def isJavaPath (path : String) : Bool :=
  let (last, before) := Java.splitLastDot path.toList
  before.isSome && last == "java".toList

mutual

/-- Somewhere in the tree the content of a Java file changed and the file is still there. -/
def ResourceDelta.touchesSource : ResourceDelta → Bool
  | .mk path resource kind flags stillExists children =>
    (resource == .file && kind == .changed && flags.content && stillExists && isJavaPath path) ||
      anyTouchesSource children

def anyTouchesSource : List ResourceDelta → Bool
  | [] => false
  | d :: ds => d.touchesSource || anyTouchesSource ds

end

end EnhancedFor
