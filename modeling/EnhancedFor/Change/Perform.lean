import EnhancedFor.Text.Inverse
import EnhancedFor.Change.Validation

/-!
Performing changes. Each change that can be undone gives the change that undoes it; a group performs
its children in order and is undone by their undos in reverse.
-/

namespace EnhancedFor

inductive Decision where
  | abort
  | proceed
  deriving DecidableEq, Repr

/-- Decides, with a state of its own, what a group does about a child that failed. -/
abbrev Handler (H σ : Type) := σ → Change H → ChangeError → σ × Decision

section

variable {H σ : Type}

def Handler.aborting : Handler H Unit := fun _ _ _ => ((), .abort)

/-- What performing a change leaves: the documents, the change itself, its undo or an error, and
what listeners were told. -/
structure Performed (H : Type) where
  docs : Documents
  change : Change H
  result : Except ChangeError (Option (Change H))
  notices : List Notice

/-- Edits one file. The undo has the inverse edits. -/
def performText (name file : String) (edits : List Edit) (docs : Documents) : Performed H :=
  let change := Change.text name file edits
  let failed (e : ChangeError) : Performed H := ⟨docs, change, .error e, []⟩
  match docs.get? file with
  | none => failed (.unknownFile file)
  | some text =>
    match Edit.normalize text edits with
    | .error e => failed (.edit e)
    | .ok normal =>
      match Edit.apply text normal with
      | .error e => failed (.edit e)
      | .ok updated =>
        ⟨docs.insert file updated, change,
          .ok (some (.text name file (Edit.inverse text normal))), []⟩

/-- What a group has done so far: its state, the children it performed, their undos, the latest
first, and the error it stopped at. -/
structure GroupRun (H σ : Type) where
  state : Validation
  handlerState : σ
  docs : Documents
  done : List (Change H)
  undos : List (Change H)
  error : Option ChangeError
  notices : List Notice

variable [HostChange H]

/-- Takes in what performing one child left. Whether it can be undone is asked afterwards. -/
def GroupRun.absorb (run : GroupRun H σ) (handler : Handler H σ) (p : Performed H) : GroupRun H σ :=
  let failed := match p.result with
    | .error _ => true
    | .ok _ => false
  let (state, told) := run.state.aboutToPerform.changePerformed p.change.isUndoable failed
  let run := { run with
    state, docs := p.docs, done := run.done ++ [p.change]
    notices := run.notices ++ p.notices ++ told }
  match p.result with
  | .ok (some undo) => { run with undos := undo :: run.undos }
  | .ok none => run
  | .error e =>
    match handler run.handlerState p.change e with
    | (s, .abort) => { run with handlerState := s, error := some e }
    | (s, .proceed) => { run with handlerState := s }

/-- Takes in the children with what performing each left, up to the one that it stops at. The rest
stay as they were. -/
def GroupRun.absorbAll (run : GroupRun H σ) (handler : Handler H σ) :
    List (Change H × Performed H) → GroupRun H σ
  | [] => run
  | (_, p) :: rest =>
    let run := run.absorb handler p
    if run.error.isSome then { run with done := run.done ++ rest.map (·.1) }
    else run.absorbAll handler rest

/-- The run of a group over its children, given what performing each in turn leaves. -/
def groupRun (state : Validation) (handler : Handler H σ) (s : σ) (docs : Documents)
    (children : List (Change H × Performed H)) : GroupRun H σ :=
  if state.status.isFatal then
    ⟨state, s, docs, children.map (·.1), [],
      some (.invalid state.name state.status.lastMessage), []⟩
  else (GroupRun.mk state s docs [] [] none []).absorbAll handler children

/-- The undo of a group, or the error it stopped at. -/
def GroupRun.result (run : GroupRun H σ) : Except ChangeError (ChangeGroup H) :=
  match run.error with
  | some e => .error e
  | none => .ok (.ofChildren run.state.name run.undos)

mutual

/-- Performs a change. A group stops at the first child that fails. -/
def Change.perform : Change H → Documents → Performed H
  | .text name file edits, docs => performText name file edits docs
  | .host change, docs =>
    let outcome := HostChange.perform change docs
    ⟨outcome.docs, .host outcome.change, outcome.result, []⟩
  | .group state children, docs =>
    let run := groupRun state Handler.aborting () docs (performEach children docs)
    ⟨run.docs, .group run.state run.done, run.result.map fun undo => some undo.toChange,
      run.notices⟩

/-- Performs changes one after the other, whether they fail or not. -/
def performEach : List (Change H) → Documents → List (Change H × Performed H)
  | [], _ => []
  | c :: cs, docs =>
    let p := c.perform docs
    (c, p) :: performEach cs p.docs

end

/-- Performs a group; a handler decides about children that fail. -/
def ChangeGroup.performWith (g : ChangeGroup H) (handler : Handler H σ) (s : σ) (docs : Documents) :
    GroupRun H σ :=
  groupRun g.state handler s docs (performEach g.children docs)

/-- The group after a run. -/
def GroupRun.group (run : GroupRun H σ) : ChangeGroup H := ⟨run.state, run.done⟩

end
end EnhancedFor
