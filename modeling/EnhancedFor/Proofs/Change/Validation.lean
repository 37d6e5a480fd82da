import Mathlib.Data.List.Induction
import EnhancedFor.Proofs.Change.Delta
import EnhancedFor.Proofs.Change.GroupUndo

/-!
Runs of a group: any operations on it, in any order. Main statement: after every run the status is
clear or the one fatal entry, it is fatal exactly if the workspace was reported changed to someone
who listened and no change that worked was made known since, and a group with a fatal status refuses
to be performed.
-/

namespace EnhancedFor

variable {H : Type}

/-- What can be done with a group, with all that is handed over. -/
inductive Operation (H : Type) : Type 1 where
  | add (child : Change H)
  | addListener
  | removeListener (id : ListenerId)
  | elementChanged (delta : ElementDelta)
  | resourceChanged (delta : ResourceDelta)
  | aboutToPerform
  | changePerformed (undoable failed : Bool)
  | performWith {σ : Type} (handler : Handler H σ) (s : σ) (docs : Documents)

namespace Operation

/-- A report that makes a pending change unsafe. -/
inductive Invalidates : Operation H → Prop where
  | element {delta : ElementDelta} (h : delta.Invalidates) : Invalidates (.elementChanged delta)
  | resource {delta : ResourceDelta} (h : delta.Invalidates) : Invalidates (.resourceChanged delta)

/-- A change that can be undone was made and worked. -/
abbrev settled : Operation H := .changePerformed true false

/-- Among the operations is one with the property, which may look at those before it, and the
closing operation does not come after it. -/
def Since (P : List (Operation H) → Operation H → Prop) (closing : Operation H)
    (ops : List (Operation H)) : Prop :=
  ∃ before op after, ops = before ++ op :: after ∧ P before op ∧ closing ∉ after

theorem since_concat {P : List (Operation H) → Operation H → Prop} {closing op : Operation H}
    {ops : List (Operation H)} :
    Since P closing (ops ++ [op]) ↔ P ops op ∨ (Since P closing ops ∧ op ≠ closing) := by
  constructor
  · rintro ⟨before, found, after, heq, hfound, hafter⟩
    rcases List.eq_nil_or_concat after with rfl | ⟨rest, last, rfl⟩
    · obtain ⟨rfl, hop⟩ := List.append_inj' heq rfl
      obtain rfl := List.singleton_inj.1 hop
      exact .inl hfound
    · have hsplit : ops ++ [op] = (before ++ found :: rest) ++ [last] := by simpa using heq
      obtain ⟨rfl, hop⟩ := List.append_inj' hsplit rfl
      obtain rfl := List.singleton_inj.1 hop
      simp only [List.concat_eq_append, List.mem_append, List.mem_singleton, not_or] at hafter
      exact .inr ⟨⟨before, found, rest, rfl, hfound, hafter.1⟩, Ne.symm hafter.2⟩
  · rintro (hfound | ⟨⟨before, found, after, rfl, hfound, hafter⟩, hne⟩)
    · exact ⟨ops, op, [], rfl, hfound, List.not_mem_nil⟩
    · refine ⟨before, found, after ++ [op], by simp, hfound, ?_⟩
      simpa [hafter] using Ne.symm hne

end Operation

variable [HostChange H]

namespace ChangeGroup

/-- The group after an operation, and what listeners are told by it. -/
def step (g : ChangeGroup H) : Operation H → ChangeGroup H × List Notice
  | .add child => (g.add child, [])
  | .addListener => ({ g with state := g.state.addListener.1 }, [])
  | .removeListener id => ({ g with state := (g.state.removeListener id).1 }, [])
  | .elementChanged delta =>
    ({ g with state := (g.state.elementChanged delta).1 }, (g.state.elementChanged delta).2)
  | .resourceChanged delta =>
    ({ g with state := (g.state.resourceChanged delta).1 }, (g.state.resourceChanged delta).2)
  | .aboutToPerform => ({ g with state := g.state.aboutToPerform }, [])
  | .changePerformed undoable failed =>
    ({ g with state := (g.state.changePerformed undoable failed).1 },
      (g.state.changePerformed undoable failed).2)
  | .performWith handler s docs =>
    ((g.performWith handler s docs).group, (g.performWith handler s docs).notices)

/-- The group after operations one after the other. -/
def run (g : ChangeGroup H) (ops : List (Operation H)) : ChangeGroup H :=
  ops.foldl (fun g op => (g.step op).1) g

theorem run_concat (g : ChangeGroup H) (ops : List (Operation H)) (op : Operation H) :
    g.run (ops ++ [op]) = ((g.run ops).step op).1 := by
  simp [run]

def Listening (g : ChangeGroup H) : Prop := g.state.listeners ≠ []

/-- In the run someone who listened was told that the workspace changed, and no change that worked
was made known after it. -/
def Disturbed (g : ChangeGroup H) (ops : List (Operation H)) : Prop :=
  ∃ before op after, ops = before ++ op :: after ∧ op.Invalidates ∧ (g.run before).Listening ∧
    Operation.settled ∉ after

theorem disturbed_iff {g : ChangeGroup H} {ops : List (Operation H)} : g.Disturbed ops ↔
    Operation.Since (fun before op => op.Invalidates ∧ (g.run before).Listening) .settled ops := by
  simp only [Disturbed, Operation.Since, and_assoc]

/-- The last operation disturbs the group, or leaves it disturbed. -/
theorem disturbed_concat {g : ChangeGroup H} {ops : List (Operation H)} {op : Operation H} :
    g.Disturbed (ops ++ [op]) ↔
      (op.Invalidates ∧ (g.run ops).Listening) ∨ (g.Disturbed ops ∧ op ≠ Operation.settled) := by
  rw [disturbed_iff, disturbed_iff, Operation.since_concat]

end ChangeGroup

namespace Validation

/-- The status of a group that the workspace changed under. -/
def outdated : Status := .ofFatal "Workspace has changed"

variable {v : Validation}

theorem isObserving_iff : v.isObserving = true ↔ v.listeners ≠ [] := by
  simp [isObserving]

theorem status_elementChanged_of_invalidates {delta : ElementDelta} (h : delta.Invalidates)
    (hl : v.listeners ≠ []) : (v.elementChanged delta).1.status = outdated := by
  have hharmful : delta.isHarmless = false := by
    apply Bool.eq_false_iff.2
    intro hharmless
    exact (delta.isHarmless_iff.1 hharmless) h
  simp [elementChanged, isObserving_iff.2 hl, hharmful, workspaceChanged, outdated]

theorem elementChanged_of_not {delta : ElementDelta}
    (h : ¬ (delta.Invalidates ∧ v.listeners ≠ [])) : (v.elementChanged delta).1 = v := by
  unfold elementChanged
  rw [if_neg]
  simp only [Bool.and_eq_true, Bool.not_eq_true', isObserving_iff]
  rintro ⟨hl, hharmful⟩
  apply h
  refine ⟨?_, hl⟩
  by_contra hsafe
  simp [delta.isHarmless_iff.2 hsafe] at hharmful

theorem status_resourceChanged_of_invalidates {delta : ResourceDelta} (h : delta.Invalidates)
    (hl : v.listeners ≠ []) : (v.resourceChanged delta).1.status = outdated := by
  simp [resourceChanged, isObserving_iff.2 hl, delta.touchesSource_iff.2 h, workspaceChanged,
    outdated]

theorem resourceChanged_of_not {delta : ResourceDelta}
    (h : ¬ (delta.Invalidates ∧ v.listeners ≠ [])) : (v.resourceChanged delta).1 = v := by
  unfold resourceChanged
  rw [if_neg]
  simp only [Bool.and_eq_true, isObserving_iff, delta.touchesSource_iff]
  rintro ⟨hl, hinvalid⟩
  exact h ⟨hinvalid, hl⟩

/-- Only a change that worked and can be undone touches the status, and clears it. -/
theorem status_changePerformed (v : Validation) (undoable failed : Bool) :
    (v.changePerformed undoable failed).1.status =
      if undoable && !failed then .clear else v.status := by
  unfold changePerformed
  split <;> rfl

end Validation

namespace GroupRun

variable {σ : Type} {handler : Handler H σ}

theorem status_absorb (run : GroupRun H σ) (p : Performed H) :
    (run.absorb handler p).state.status = run.state.status ∨
      (run.absorb handler p).state.status = .clear := by
  have hperformed (undoable failed : Bool) :
      (run.state.aboutToPerform.changePerformed undoable failed).1.status = run.state.status ∨
        (run.state.aboutToPerform.changePerformed undoable failed).1.status = .clear := by
    rw [Validation.status_changePerformed]
    split
    · exact .inr rfl
    · exact .inl rfl
  unfold absorb
  dsimp only
  split
  · exact hperformed _ _
  · exact hperformed _ _
  · split <;> exact hperformed _ _

/-- Children can only clear the status. -/
theorem status_absorbAll (handler : Handler H σ) (run : GroupRun H σ)
    (children : List (Change H × Performed H)) :
    (run.absorbAll handler children).state.status = run.state.status ∨
      (run.absorbAll handler children).state.status = .clear := by
  induction children generalizing run with
  | nil => exact .inl rfl
  | cons child children ih =>
    obtain ⟨c, p⟩ := child
    rw [absorbAll]
    split
    · exact run.status_absorb p
    · rcases ih (run.absorb handler p) with h | h
      · rw [h]
        exact run.status_absorb p
      · exact .inr h

end GroupRun

namespace ChangeGroup

variable {g : ChangeGroup H} {op : Operation H}

/-- A group with a fatal status does nothing when it is performed, and says why. -/
theorem performWith_of_fatal {σ : Type} (h : g.state.status.isFatal = true) (handler : Handler H σ)
    (s : σ) (docs : Documents) : g.performWith handler s docs =
      ⟨g.state, s, docs, g.children, [],
        some (.invalid g.state.name g.state.status.lastMessage), []⟩ := by
  unfold performWith groupRun
  rw [if_pos h, GroupRun.map_fst_performEach]

theorem status_performWith {σ : Type} (handler : Handler H σ) (s : σ) (docs : Documents) :
    (g.performWith handler s docs).state.status = g.state.status ∨
      (g.state.status.isFatal = false ∧ (g.performWith handler s docs).state.status = .clear) := by
  by_cases hfatal : g.state.status.isFatal = true
  · rw [performWith_of_fatal hfatal]
    exact .inl rfl
  · unfold performWith groupRun
    rw [if_neg hfatal]
    rcases GroupRun.status_absorbAll handler ⟨g.state, s, docs, [], [], none, []⟩
      (performEach g.children docs) with h | h
    · exact .inl h
    · exact .inr ⟨Bool.eq_false_iff.2 hfatal, h⟩

theorem status_step_of_invalidates (h : op.Invalidates) (hl : g.Listening) :
    (g.step op).1.state.status = Validation.outdated := by
  cases h with
  | element h => exact Validation.status_elementChanged_of_invalidates h hl
  | resource h => exact Validation.status_resourceChanged_of_invalidates h hl

/-- All other operations keep the status, but for the children of a valid group, which may clear
it. -/
theorem status_step_of_not (h : ¬ (op.Invalidates ∧ g.Listening)) (hne : op ≠ .settled) :
    (g.step op).1.state.status = g.state.status ∨
      (g.state.status.isFatal = false ∧ (g.step op).1.state.status = .clear) := by
  cases op with
  | add child => exact .inl rfl
  | addListener => exact .inl rfl
  | removeListener id => exact .inl rfl
  | aboutToPerform => exact .inl rfl
  | elementChanged delta =>
    left
    simp only [step]
    rw [Validation.elementChanged_of_not fun hd => h ⟨.element hd.1, hd.2⟩]
  | resourceChanged delta =>
    left
    simp only [step]
    rw [Validation.resourceChanged_of_not fun hd => h ⟨.resource hd.1, hd.2⟩]
  | changePerformed undoable failed =>
    left
    simp only [step, Validation.status_changePerformed]
    rw [if_neg]
    intro hsettled
    apply hne
    simp_all [Operation.settled]
  | performWith handler s docs => exact status_performWith handler s docs

theorem name_step (g : ChangeGroup H) (op : Operation H) :
    (g.step op).1.state.name = g.state.name := by
  cases op with
  | add child | addListener | removeListener id | aboutToPerform => rfl
  | elementChanged delta =>
    simp only [step, Validation.elementChanged]
    split <;> rfl
  | resourceChanged delta =>
    simp only [step, Validation.resourceChanged]
    split <;> rfl
  | changePerformed undoable failed =>
    simp only [step, Validation.changePerformed]
    split <;> rfl
  | performWith handler s docs =>
    simp only [step, GroupRun.group, performWith]
    rw [groupRun_state]

theorem name_run (g : ChangeGroup H) (ops : List (Operation H)) :
    (g.run ops).state.name = g.state.name := by
  induction ops using List.reverseRecOn with
  | nil => rfl
  | append_singleton ops op ih => rw [run_concat, name_step, ih]

/-- What the status of a group says of the run so far. -/
theorem status_run_eq (name : String) (children : List (Change H)) (ops : List (Operation H)) :
    (¬ (ofChildren name children).Disturbed ops ∧
      ((ofChildren name children).run ops).state.status = .clear) ∨
    ((ofChildren name children).Disturbed ops ∧
      ((ofChildren name children).run ops).state.status = Validation.outdated) := by
  induction ops using List.reverseRecOn with
  | nil =>
    left
    refine ⟨?_, rfl⟩
    rintro ⟨before, op, after, h, -⟩
    simp at h
  | append_singleton ops op ih =>
    rw [disturbed_concat, run_concat]
    by_cases hreport : op.Invalidates ∧ ((ofChildren name children).run ops).Listening
    · exact .inr ⟨.inl hreport, status_step_of_invalidates hreport.1 hreport.2⟩
    by_cases hsettled : op = .settled
    · subst hsettled
      refine .inl ⟨?_, rfl⟩
      rintro (h | h)
      · exact hreport h
      · exact h.2 rfl
    rcases ih with ⟨hcalm, hclear⟩ | ⟨hdisturbed, hstatus⟩
    · refine .inl ⟨?_, ?_⟩
      · rintro (h | h)
        · exact hreport h
        · exact hcalm h.1
      · rcases status_step_of_not hreport hsettled with h | h
        · rw [h, hclear]
        · exact h.2
    · refine .inr ⟨.inr ⟨hdisturbed, hsettled⟩, ?_⟩
      rcases status_step_of_not hreport hsettled with h | h
      · rw [h, hstatus]
      · simp [hstatus, Validation.outdated] at h

/-- After any operations on a new group: its status is clear or the one entry that the workspace has
changed, the latter exactly if the run disturbed the group; and then performing it, with any handler
and on any documents, is refused, and leaves the documents, the group and the handler as they
are. -/
theorem status_run (name : String) (children : List (Change H)) (ops : List (Operation H)) :
    (((ofChildren name children).run ops).state.status = .clear ∨
      ((ofChildren name children).run ops).state.status = ⟨[⟨.fatal, "Workspace has changed"⟩]⟩) ∧
    (((ofChildren name children).run ops).state.status.isFatal = true ↔
      (ofChildren name children).Disturbed ops) ∧
    (((ofChildren name children).run ops).state.status.isFatal = true →
      ∀ (σ : Type) (handler : Handler H σ) (s : σ) (docs : Documents),
        (((ofChildren name children).run ops).performWith handler s docs).result =
          .error (.invalid name "Workspace has changed") ∧
        (((ofChildren name children).run ops).performWith handler s docs).docs = docs ∧
        (((ofChildren name children).run ops).performWith handler s docs).group =
          (ofChildren name children).run ops ∧
        (((ofChildren name children).run ops).performWith handler s docs).handlerState = s) := by
  have hname : ((ofChildren name children).run ops).state.name = name := name_run _ _
  rcases status_run_eq name children ops with ⟨hcalm, hclear⟩ | ⟨hdisturbed, hstatus⟩
  · simp [hclear, hcalm]
  · refine ⟨.inr hstatus, ?_, ?_⟩
    · simp [hstatus, hdisturbed, Validation.outdated]
    · intro hfatal σ handler s docs
      rw [performWith_of_fatal hfatal, hname, hstatus]
      exact ⟨rfl, rfl, rfl, rfl⟩

end ChangeGroup

namespace Demo

/-- The source of a package changed, reported from the model down. -/
def sourceChanged : ElementDelta :=
  .mk .model .changed .onlyChildren [.mk .package .changed .onlyChildren
    [.mk .classFile .removed .none [],
      .mk (.compilationUnit false) .changed ⟨false, true, false⟩ []]]

theorem invalidates_sourceChanged : sourceChanged.Invalidates :=
  ⟨_, .child (by decide) (List.mem_singleton_self _)
    (.child (by decide) (List.mem_cons_of_mem _ (List.mem_singleton_self _)) .self), .source rfl⟩

/-- The report comes while a change is under way that then fails; the group is performed, and the
one listener goes. -/
def operations : List (Operation Empty) :=
  [.addListener, .aboutToPerform, .elementChanged sourceChanged, .changePerformed true true,
    .performWith proceeding () docs, .removeListener ⟨0⟩]

theorem disturbed_operations : group.Disturbed operations := by
  refine ⟨[.addListener, .aboutToPerform], _, _, rfl, .element invalidates_sourceChanged, ?_, ?_⟩
  · exact List.cons_ne_nil _ _
  · simp [Operation.settled]

/-- After the operations the group refuses to be performed, until a change that worked is made
known. -/
theorem outdated_group_refuses :
    (group.run operations).state.status.isFatal = true ∧
      ((group.run operations).performWith proceeding () docs).result =
        .error (.invalid "all" "Workspace has changed") ∧
      ((group.run operations).performWith proceeding () docs).docs = docs ∧
      (group.run (operations ++ [.settled])).state.status.isFatal = false := by
  obtain ⟨-, hfatal, hrefuses⟩ := ChangeGroup.status_run "all" children operations
  have hoperations := hfatal.2 disturbed_operations
  obtain ⟨hresult, hdocs, -⟩ := hrefuses hoperations Unit proceeding () docs
  refine ⟨hoperations, hresult, hdocs, ?_⟩
  obtain ⟨-, hcleared, -⟩ := ChangeGroup.status_run "all" children (operations ++ [.settled])
  apply Bool.eq_false_iff.2
  intro h
  rcases ChangeGroup.disturbed_concat.1 (hcleared.1 h) with ⟨hreport, -⟩ | ⟨-, hne⟩
  · cases hreport
  · exact hne rfl

end Demo
end EnhancedFor
