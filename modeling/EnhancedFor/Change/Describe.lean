import EnhancedFor.Change.Basic
import EnhancedFor.Text.Quoted

/-!
Changes written out in full, on one line, for logs, and a host with changes that cannot be undone.
-/

namespace EnhancedFor

open Quoted (quote record listed)

def Edit.describe (e : Edit) : String :=
  record "TextEdit" [("range", e.span.describe), ("replacement", quote e.replacement)]

def StatusEntry.describe (e : StatusEntry) : String :=
  record "StatusEntry" [("severity", e.severity.describe), ("message", quote e.message)]

def Status.describe (s : Status) : String :=
  record "RefactoringStatus" [("entries", listed (s.entries.map StatusEntry.describe))]

def ListenerId.describe (id : ListenerId) : String := "ListenerId(" ++ toString id.index ++ ")"

variable {H : Type} [HostChange H]

mutual

def Change.describe : Change H → String
  | .text name file edits =>
    record "TextFileChange"
      [("name", quote name), ("file", "FileId(" ++ quote file ++ ")"),
        ("edits", listed (edits.map Edit.describe))]
  | .host change => HostChange.describe change
  | .group state children =>
    record "ValidationStateChange"
      [("name", quote state.name), ("children", listed (describeEach children)),
        ("listeners", toString state.listeners.length),
        ("in_change_count", toString state.inChangeCount), ("status", state.status.describe)]

def describeEach : List (Change H) → List String
  | [] => []
  | c :: cs => c.describe :: describeEach cs

end

/-- A change of a host that cannot be undone, changes no document and may fail. -/
structure Irreversible where
  name : String
  fails : Bool
  deriving DecidableEq, Repr

instance : HostChange Irreversible where
  name := Irreversible.name
  isUndoable _ := false
  describe change := record "NoUndo"
    [("name", quote change.name), ("fail", if change.fails then "true" else "false")]
  perform change docs :=
    ⟨docs, change, if change.fails then .error (.unknownFile change.name) else .ok none⟩

end EnhancedFor
