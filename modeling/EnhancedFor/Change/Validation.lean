import EnhancedFor.Change.Basic
import EnhancedFor.Change.Delta

/-!
How a group stays or becomes invalid. Reports of the workspace count only while someone listens, and
listeners are told at once unless changes are under way.
-/

namespace EnhancedFor

/-- A listener is told the status of a change. -/
structure Notice where
  listener : ListenerId
  change : String
  status : Status
  deriving DecidableEq, Repr

namespace Validation

def isObserving (v : Validation) : Bool := !v.listeners.isEmpty

/-- Listeners get numbers that are never used again. -/
def addListener (v : Validation) : Validation × ListenerId :=
  let id : ListenerId := ⟨v.nextListener⟩
  ({ v with listeners := v.listeners ++ [id], nextListener := v.nextListener + 1 }, id)

/-- Also tells whether the listener was there. -/
def removeListener (v : Validation) (id : ListenerId) : Validation × Bool :=
  ({ v with listeners := v.listeners.filter (· != id) }, v.listeners.contains id)

/-- Tells all listeners, in the order in which they came. -/
def notices (v : Validation) : List Notice := v.listeners.map fun id => ⟨id, v.name, v.status⟩

def workspaceChanged (v : Validation) : Validation × List Notice :=
  let v := { v with status := .ofFatal "Workspace has changed" }
  (v, if v.inChangeCount > 0 then [] else v.notices)

def elementChanged (v : Validation) (delta : ElementDelta) : Validation × List Notice :=
  if v.isObserving && !delta.isHarmless then v.workspaceChanged else (v, [])

def resourceChanged (v : Validation) (delta : ResourceDelta) : Validation × List Notice :=
  if v.isObserving && delta.touchesSource then v.workspaceChanged else (v, [])

def aboutToPerform (v : Validation) : Validation := { v with inChangeCount := v.inChangeCount + 1 }

/-- A change that worked and can be undone clears the status; any other is told to the listeners. -/
def changePerformed (v : Validation) (undoable failed : Bool) : Validation × List Notice :=
  let v := { v with inChangeCount := v.inChangeCount - 1 }
  if undoable && !failed then ({ v with status := .clear }, []) else (v, v.notices)

end Validation
end EnhancedFor
