import EnhancedFor.Change.Status
import EnhancedFor.Text.Edit

/-!
Changes to documents: edits of one file, changes of the host's own, and groups of changes. A group
watches the workspace and becomes invalid when others change it.
-/

namespace EnhancedFor

/-- Texts by file name, in the order in which the files came. -/
structure Documents where
  texts : List (String × String)
  deriving DecidableEq, Repr

namespace Documents

def empty : Documents := ⟨[]⟩

def get? (docs : Documents) (file : String) : Option String := docs.texts.lookup file

def put (file text : String) : List (String × String) → List (String × String)
  | [] => [(file, text)]
  | (f, t) :: rest => if f == file then (file, text) :: rest else (f, t) :: put file text rest

/-- Puts a text in place of the one of its file, or after all others. -/
def insert (docs : Documents) (file text : String) : Documents := ⟨put file text docs.texts⟩

/-- The texts in the order of the file names. -/
def sorted (docs : Documents) : List String :=
  (docs.texts.mergeSort fun a b => !decide (b.1 < a.1)).map (·.2)

end Documents

inductive ChangeError where
  | unknownFile (file : String)
  | invalid (name message : String)
  | edit (error : EditError)
  deriving DecidableEq, Repr

def ChangeError.label : ChangeError → String
  | .unknownFile _ => "UnknownFile"
  | .invalid .. => "Invalid"
  | .edit error => error.label

def ChangeError.message : ChangeError → String
  | .unknownFile file => "unknown file `" ++ file ++ "`"
  | .invalid name message => "change `" ++ name ++ "` is no longer valid: " ++ message
  | .edit error => error.message

structure ListenerId where
  index : Nat
  deriving DecidableEq, Repr

/-- What a group knows about itself: who listens, how many changes are under way, and whether it is
still valid. -/
structure Validation where
  name : String
  listeners : List ListenerId
  nextListener : Nat
  inChangeCount : Nat
  status : Status
  deriving DecidableEq, Repr

def Validation.initial (name : String) : Validation := ⟨name, [], 0, 0, .clear⟩

/-- A change; `H` has those that the host brings along. -/
inductive Change (H : Type) where
  | text (name file : String) (edits : List Edit)
  | host (change : H)
  | group (state : Validation) (children : List (Change H))

/-- What performing a change of the host leaves: the documents, the change itself, and its undo or
an error. -/
structure HostOutcome (H : Type) where
  docs : Documents
  change : H
  result : Except ChangeError (Option (Change H))

/-- Changes that the host brings along. Nothing is known of what performing them does. -/
class HostChange (H : Type) where
  name : H → String
  isUndoable : H → Bool
  describe : H → String
  perform : H → Documents → HostOutcome H

/-- A host without changes of its own. -/
instance : HostChange Empty where
  name := Empty.elim
  isUndoable := Empty.elim
  describe := Empty.elim
  perform := Empty.elim

namespace Change

variable {H : Type} [HostChange H]

def name : Change H → String
  | .text name _ _ => name
  | .host change => HostChange.name change
  | .group state _ => state.name

def isUndoable : Change H → Bool
  | .host change => HostChange.isUndoable change
  | _ => true

end Change

/-- A group on its own. -/
structure ChangeGroup (H : Type) where
  state : Validation
  children : List (Change H)

namespace ChangeGroup

variable {H : Type}

def ofChildren (name : String) (children : List (Change H)) : ChangeGroup H :=
  ⟨.initial name, children⟩

def toChange (g : ChangeGroup H) : Change H := .group g.state g.children

def add (g : ChangeGroup H) (child : Change H) : ChangeGroup H :=
  { g with children := g.children ++ [child] }

end ChangeGroup
end EnhancedFor
