import EnhancedFor.Text.Edit
import EnhancedFor.Loop.Imports

/-!
Edits of the import block: removed lines go with their line break, new ones are put where the order
of paths asks for them.
-/

namespace EnhancedFor
namespace CompilationUnit

/-- The text from an offset on. -/
def textFrom (unit : CompilationUnit) (offset : Nat) : Except Fault Chars :=
  match Chars.splitAt? unit.text.toList offset with
  | some (_, rest) => .ok rest
  | none => .error .badSlice

/-- The end of a line whose text ends with the span. -/
def lineEnd (unit : CompilationUnit) (span : Span) : Except Fault Nat := do
  let rest ← unit.textFrom span.stop
  return if rest.head? == some '\n' then span.stop + 1 else span.stop

def importText (name : String) : String := "import " ++ name ++ ";\n"

/-- Takes out a line; with the last one goes an empty line after it. -/
def lineDeletion (unit : CompilationUnit) (last : Bool) (line : ImportLine) :
    Except Fault Edit := do
  let stop ← unit.lineEnd line.span
  let blank ← unit.textFrom stop
  let dropsBlank := last && blank.head? == some '\n'
  return Edit.delete (← Span.ordered line.span.start (if dropsBlank then stop + 1 else stop))

/-- When no import stays and none comes, the empty line after the block goes too. -/
def removedImportEdits (unit : CompilationUnit) (changes : ImportChanges) :
    Except Fault (List Edit) :=
  let lines := unit.importLines
  let noneLeft := lines.all changes.removed.contains && changes.added.isEmpty
  let removed := lines.zipIdx.filter fun (line, _) => changes.removed.contains line
  removed.mapM fun (line, i) => unit.lineDeletion (noneLeft && i + 1 == lines.length) line

/-- The first block of imports, after the package line if there is one. -/
def newBlockEdit (unit : CompilationUnit) (added : List String) : Except Fault Edit := do
  let lines := String.join (added.map importText)
  match unit.package with
  | none => return Edit.insert 0 (lines ++ "\n")
  | some _ =>
    let stop := (unit.spans .package).stop
    let rest ← unit.textFrom stop
    if "\n\n".toList.isPrefixOf rest then return Edit.insert (stop + 2) (lines ++ "\n")
    else
      let inner := "\n".intercalate (added.map fun name => "import " ++ name ++ ";")
      return Edit.insert stop ("\n\n" ++ inner)

/-- Before the first import of a greater path, static imports aside, else after the last line. -/
def insertionOffset (unit : CompilationUnit) (name : String) : Except Fault Nat :=
  match unit.importLines.find? fun i => !i.line.isStatic && decide (name < i.line.path) with
  | some i => .ok i.span.start
  | none =>
    match unit.importLines.getLast? with
    | some i => unit.lineEnd i.span
    | none => .ok 0

/-- One insertion for each offset, in the order of offsets. -/
def gatherInserts (inserts : List (Nat × String)) : List Edit :=
  let offsets := (inserts.map (·.1)).eraseDups.mergeSort
  offsets.map fun offset =>
    Edit.insert offset (String.join ((inserts.filter (·.1 == offset)).map (·.2)))

def importEdits (unit : CompilationUnit) (changes : ImportChanges) : Except Fault (List Edit) := do
  let removed ← unit.removedImportEdits changes
  let added := changes.added.mergeSort fun a b => !decide (b < a)
  if added.isEmpty then return removed
  if unit.imports.isEmpty then return removed ++ [← unit.newBlockEdit added]
  let inserts ← added.mapM fun name => return (← unit.insertionOffset name, importText name)
  return removed ++ gatherInserts inserts

end CompilationUnit
end EnhancedFor
