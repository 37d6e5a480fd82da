import EnhancedFor.Proofs.Change.TextUndo

/-!
Undoing groups of changes. A run of a group is described by the children that it passes and the one
that it stops at. Main statement: the undo of a group brings back the documents as they were, and
performing a group leaves the group itself as it was but for its status.
-/

namespace EnhancedFor

section

variable {H : Type}

namespace Change

/-- Induction from the children of a group to the group. -/
@[elab_as_elim]
theorem rec_children {motive : Change H → Prop}
    (text : ∀ name file edits, motive (.text name file edits))
    (host : ∀ change, motive (.host change))
    (group : ∀ state children, (∀ c ∈ children, motive c) → motive (.group state children))
    (c : Change H) : motive c :=
  @Change.rec H motive (fun cs => ∀ c ∈ cs, motive c) text host group
    (fun _ h => (List.not_mem_nil h).elim)
    (fun _ _ hc hcs => List.forall_mem_cons.2 ⟨hc, hcs⟩) c

def IsText (c : Change H) : Prop := ∃ name file edits, c = .text name file edits

/-- A tree of groups with text changes for leaves. -/
inductive Textual : Change H → Prop where
  | text {name file : String} {edits : List Edit} : Textual (.text name file edits)
  | group {state : Validation} {children : List (Change H)} (h : ∀ c ∈ children, Textual c) :
    Textual (.group state children)

end Change

section

variable {α : Type} (view : H → α)

mutual

/-- The change with a clear status in all of its groups, and with a view of the host's changes. -/
def Change.withoutStatus : Change H → Change α
  | .text name file edits => .text name file edits
  | .host change => .host (view change)
  | .group state children => .group { state with status := .clear } (withoutStatuses children)

def withoutStatuses : List (Change H) → List (Change α)
  | [] => []
  | c :: cs => c.withoutStatus :: withoutStatuses cs

end

theorem withoutStatuses_eq_map (cs : List (Change H)) :
    withoutStatuses view cs = cs.map (Change.withoutStatus view) := by
  induction cs with
  | nil => rfl
  | cons c cs ih => rw [withoutStatuses, ih, List.map_cons]

end

variable [HostChange H]

mutual

/-- Performing the change makes no text too long on the way. -/
def Change.Fits : Change H → Documents → Prop
  | .text name file edits, docs => (performText name file edits docs : Performed H).docs.Bounded
  | .host _, _ => True
  | .group _ children, docs => eachFits children docs

def eachFits : List (Change H) → Documents → Prop
  | [], _ => True
  | c :: cs, docs => c.Fits docs ∧ eachFits cs (c.perform docs).docs

end

/-- Children that a group goes through without stopping, from a state of the handler and documents
to others. A child that fails is passed over if the handler says so; those that work are listed with
their undos. -/
inductive Passes {σ : Type} (handler : Handler H σ) : σ → Documents → List (Change H) →
    List (Change H × Option (Change H)) → σ → Documents → Prop where
  | nil {s : σ} {docs : Documents} : Passes handler s docs [] [] s docs
  | worked {s t : σ} {docs edited : Documents} {c : Change H} {cs : List (Change H)}
    {undo : Option (Change H)} {done : List (Change H × Option (Change H))}
    (h : (c.perform docs).result = .ok undo)
    (tail : Passes handler s (c.perform docs).docs cs done t edited) :
    Passes handler s docs (c :: cs) ((c, undo) :: done) t edited
  | failed {s s' t : σ} {docs edited : Documents} {c : Change H} {cs : List (Change H)}
    {e : ChangeError} {done : List (Change H × Option (Change H))}
    (h : (c.perform docs).result = .error e)
    (hp : handler s (c.perform docs).change e = (s', .proceed))
    (tail : Passes handler s' (c.perform docs).docs cs done t edited) :
    Passes handler s docs (c :: cs) done t edited

/-- The documents after the changes in turn. -/
def performAll (cs : List (Change H)) (docs : Documents) : Documents :=
  cs.foldl (fun docs c => (c.perform docs).docs) docs

/-- Changes that work one after the other and lead from the first documents to the others. -/
inductive Unwinds : List (Change H) → Documents → Documents → Prop where
  | nil {docs : Documents} : Unwinds [] docs docs
  | cons {c : Change H} {cs : List (Change H)} {docs next last : Documents} (h : c.Turns docs next)
    (tail : Unwinds cs next last) : Unwinds (c :: cs) docs last

theorem Unwinds.concat {c : Change H} {cs : List (Change H)} {docs next last : Documents}
    (h : Unwinds cs docs next) (hc : c.Turns next last) : Unwinds (cs ++ [c]) docs last := by
  induction h with
  | nil => exact .cons hc .nil
  | cons h _ ih => exact .cons h (ih hc)

namespace Passes

variable {σ : Type} {handler : Handler H σ} {s t : σ} {docs edited : Documents}
  {cs : List (Change H)} {done : List (Change H × Option (Change H))}

theorem eq_performAll (h : Passes handler s docs cs done t edited)
    (hfailed : ∀ c ∈ cs, ∀ docs e, (c.perform docs).result = .error e →
      (c.perform docs).docs = docs) :
    edited = performAll (done.map (·.1)) docs := by
  induction h with
  | nil => rfl
  | worked _ _ ih => exact ih fun c hc => hfailed c (List.mem_cons_of_mem _ hc)
  | @failed _ _ _ docs _ c _ e _ hfail _ _ ih =>
    rw [ih fun c hc => hfailed c (List.mem_cons_of_mem _ hc),
      hfailed c List.mem_cons_self docs e hfail]

/-- If each child that works has an undo that takes it back, and no child that is passed over has
changed anything, then the undos in reverse take all back. -/
theorem unwinds (h : Passes handler s docs cs done t edited)
    (hworked : ∀ c ∈ cs, ∀ docs undo, c.Fits docs → (c.perform docs).result = .ok undo →
      ∃ u, undo = some u ∧ u.Turns (c.perform docs).docs docs)
    (hfailed : ∀ c ∈ cs, ∀ docs s s' e, (c.perform docs).result = .error e →
      handler s (c.perform docs).change e = (s', .proceed) → (c.perform docs).docs = docs)
    (hfits : eachFits cs docs) : Unwinds (done.filterMap (·.2)).reverse edited docs := by
  induction h with
  | nil => exact .nil
  | @worked s t docs edited c cs undo done hok _ ih =>
    obtain ⟨u, rfl, hu⟩ := hworked c List.mem_cons_self docs undo hfits.1 hok
    have htail := ih (fun c hc => hworked c (List.mem_cons_of_mem _ hc))
      (fun c hc => hfailed c (List.mem_cons_of_mem _ hc)) hfits.2
    simpa [List.filterMap_cons] using htail.concat hu
  | @failed s s' t docs edited c cs e done herror hp _ ih =>
    have hsame := hfailed c List.mem_cons_self docs s s' e herror hp
    have htail := ih (fun c hc => hworked c (List.mem_cons_of_mem _ hc))
      (fun c hc => hfailed c (List.mem_cons_of_mem _ hc)) hfits.2
    rwa [hsame] at htail

end Passes

/-- How a run over children ends, from a state of the handler and documents, with the undos there
were before: all children are passed, or the run stops at one that fails. -/
inductive Ends {σ : Type} (handler : Handler H σ) (s : σ) (docs : Documents)
    (cs undos : List (Change H)) (run : GroupRun H σ) : Prop where
  | passed {done : List (Change H × Option (Change H))} {t : σ}
    (hpass : Passes handler s docs cs done t run.docs) (herror : run.error = none)
    (hundos : run.undos = (done.filterMap (·.2)).reverse ++ undos) :
    Ends handler s docs cs undos run
  | stopped {before after : List (Change H)} {child : Change H}
    {done : List (Change H × Option (Change H))} {t : σ} {edited : Documents} {e : ChangeError}
    (hcs : cs = before ++ child :: after)
    (hpass : Passes handler s docs before done t edited)
    (hfail : (child.perform edited).result = .error e)
    (habort : (handler t (child.perform edited).change e).2 = .abort)
    (herror : run.error = some e) (hdocs : run.docs = (child.perform edited).docs) :
    Ends handler s docs cs undos run

namespace Ends

variable {σ : Type} {handler : Handler H σ} {s s' : σ} {docs : Documents} {c : Change H}
  {cs undos : List (Change H)} {run : GroupRun H σ}

theorem worked {undo : Option (Change H)} (h : (c.perform docs).result = .ok undo)
    (hend : Ends handler s (c.perform docs).docs cs (undo.toList ++ undos) run) :
    Ends handler s docs (c :: cs) undos run := by
  cases hend with
  | passed hpass herror hundos =>
    refine .passed (.worked h hpass) herror ?_
    cases undo <;> simpa using hundos
  | stopped hcs hpass hfail habort herror hdocs =>
    exact .stopped (congrArg (c :: ·) hcs) (.worked h hpass) hfail habort herror hdocs

theorem failed {e : ChangeError} (h : (c.perform docs).result = .error e)
    (hp : handler s (c.perform docs).change e = (s', .proceed))
    (hend : Ends handler s' (c.perform docs).docs cs undos run) :
    Ends handler s docs (c :: cs) undos run := by
  cases hend with
  | passed hpass herror hundos => exact .passed (.failed h hp hpass) herror hundos
  | stopped hcs hpass hfail habort herror hdocs =>
    exact .stopped (congrArg (c :: ·) hcs) (.failed h hp hpass) hfail habort herror hdocs

end Ends

namespace GroupRun

variable {σ : Type} {handler : Handler H σ} {c : Change H} {p : Performed H}

theorem absorb_docs (run : GroupRun H σ) : (run.absorb handler p).docs = p.docs := by
  unfold absorb
  dsimp only
  split
  · rfl
  · rfl
  · split <;> rfl

theorem absorb_done (run : GroupRun H σ) :
    (run.absorb handler p).done = run.done ++ [p.change] := by
  unfold absorb
  dsimp only
  split
  · rfl
  · rfl
  · split <;> rfl

/-- One more change under way and one less. -/
theorem changePerformed_aboutToPerform (v : Validation) (undoable failed : Bool) :
    ((v.aboutToPerform.changePerformed undoable failed).1 =
      { v with status := (v.aboutToPerform.changePerformed undoable failed).1.status }) := by
  unfold Validation.changePerformed Validation.aboutToPerform
  dsimp only
  split <;> simp

theorem absorb_state (run : GroupRun H σ) (handler : Handler H σ) (p : Performed H) :
    (run.absorb handler p).state =
    { run.state with status := (run.absorb handler p).state.status } := by
  unfold absorb
  dsimp only
  split
  · exact changePerformed_aboutToPerform _ _ _
  · exact changePerformed_aboutToPerform _ _ _
  · split <;> exact changePerformed_aboutToPerform _ _ _

theorem absorb_ok (run : GroupRun H σ) (handler : Handler H σ) {undo : Option (Change H)}
    (h : p.result = .ok undo) :
    (run.absorb handler p).error = run.error ∧
      (run.absorb handler p).handlerState = run.handlerState ∧
      (run.absorb handler p).undos = undo.toList ++ run.undos := by
  unfold absorb
  dsimp only
  rw [h]
  cases undo with
  | none => exact ⟨rfl, rfl, rfl⟩
  | some u => exact ⟨rfl, rfl, rfl⟩

theorem absorb_error (run : GroupRun H σ) {e : ChangeError}
    (h : p.result = .error e) {s : σ} {decision : Decision}
    (hs : handler run.handlerState p.change e = (s, decision)) :
    (run.absorb handler p).error = (if decision = .abort then some e else run.error) ∧
      (run.absorb handler p).handlerState = s ∧ (run.absorb handler p).undos = run.undos := by
  unfold absorb
  dsimp only
  rw [h]
  dsimp only
  rw [hs]
  cases decision with
  | abort => exact ⟨rfl, rfl, rfl⟩
  | proceed => exact ⟨rfl, rfl, rfl⟩

theorem map_fst_performEach (cs : List (Change H)) (docs : Documents) :
    (performEach cs docs).map (·.1) = cs := by
  induction cs generalizing docs with
  | nil => rfl
  | cons c cs ih => rw [performEach, List.map_cons, ih]

theorem absorbAll_ends (run : GroupRun H σ) (handler : Handler H σ) (h : run.error = none)
    (cs : List (Change H)) : Ends handler run.handlerState run.docs cs run.undos
      (run.absorbAll handler (performEach cs run.docs)) := by
  induction cs generalizing run with
  | nil => exact .passed .nil h rfl
  | cons c cs ih =>
    rw [performEach, absorbAll]
    have hdocs : (run.absorb handler (c.perform run.docs)).docs = (c.perform run.docs).docs :=
      run.absorb_docs
    cases hresult : (c.perform run.docs).result with
    | ok undo =>
      obtain ⟨herror, hstate, hundos⟩ := run.absorb_ok handler hresult
      rw [h] at herror
      have hend := ih _ herror
      rw [hstate, hdocs, hundos] at hend
      rw [herror]
      exact hend.worked hresult
    | error e =>
      rcases hdecision : handler run.handlerState (c.perform run.docs).change e with ⟨s, decision⟩
      obtain ⟨herror, hstate, hundos⟩ := run.absorb_error hresult hdecision
      cases decision with
      | abort =>
        rw [if_pos rfl] at herror
        rw [if_pos (Option.isSome_of_eq_some herror)]
        exact .stopped (List.nil_append _).symm .nil hresult (by rw [hdecision]) herror hdocs
      | proceed =>
        rw [if_neg (by decide), h] at herror
        have hend := ih _ herror
        rw [hstate, hdocs, hundos] at hend
        rw [herror]
        exact hend.failed hresult hdecision

/-- Changes that all work are all performed, whatever the handler. -/
theorem absorbAll_of_unwinds (run : GroupRun H σ) (handler : Handler H σ) (h : run.error = none)
    {cs : List (Change H)} {last : Documents} (hcs : Unwinds cs run.docs last) :
    (run.absorbAll handler (performEach cs run.docs)).error = none ∧
      (run.absorbAll handler (performEach cs run.docs)).docs = last := by
  generalize hstart : run.docs = docs at hcs ⊢
  induction hcs generalizing run with
  | nil => exact ⟨h, hstart⟩
  | @cons c cs docs next last hc tail ih =>
    obtain ⟨rfl, undo, hresult⟩ := hc
    obtain ⟨herror, -, -⟩ := run.absorb_ok handler hresult
    rw [h] at herror
    rw [performEach, absorbAll, herror]
    exact ih _ herror run.absorb_docs

theorem absorbAll_state (run : GroupRun H σ) (children : List (Change H × Performed H)) :
    (run.absorbAll handler children).state =
      { run.state with status := (run.absorbAll handler children).state.status } := by
  induction children generalizing run with
  | nil => rfl
  | cons child children ih =>
    obtain ⟨c, p⟩ := child
    have habsorb := run.absorb_state handler p
    rw [absorbAll]
    split
    · exact habsorb
    · rw [ih, habsorb]

/-- What of each child stays as it is when the child is performed stays so in the list of
children. -/
theorem absorbAll_done {α : Type} (view : Change H → α) (run : GroupRun H σ) (cs : List (Change H))
    (docs : Documents) (h : ∀ c ∈ cs, ∀ docs, view (c.perform docs).change = view c) :
    (run.absorbAll handler (performEach cs docs)).done.map view = (run.done ++ cs).map view := by
  induction cs generalizing run docs with
  | nil => simp [performEach, absorbAll]
  | cons c cs ih =>
    have hc := h c List.mem_cons_self docs
    rw [performEach, absorbAll]
    split
    · simp [absorb_done, map_fst_performEach, hc]
    · rw [ih _ _ fun c hmem => h c (List.mem_cons_of_mem _ hmem), absorb_done]
      simp [hc]

end GroupRun

section

variable {σ : Type} {handler : Handler H σ} {s : σ} {state : Validation} {docs : Documents}
  {children : List (Change H)}

theorem groupRun_of_ok {undo : ChangeGroup H}
    (h : (groupRun state handler s docs (performEach children docs)).result = .ok undo) :
    ∃ done t, Passes handler s docs children done t
        (groupRun state handler s docs (performEach children docs)).docs ∧
      undo.children = (done.filterMap (·.2)).reverse ∧ undo.state.status = .clear := by
  unfold groupRun at h ⊢
  split at h
  · simp [GroupRun.result] at h
  · rename_i hvalid
    rw [if_neg hvalid]
    cases GroupRun.absorbAll_ends ⟨state, s, docs, [], [], none, []⟩ handler rfl children with
    | passed hpass herror hundos =>
      rw [GroupRun.result, herror] at h
      obtain rfl := Except.ok.inj h
      rw [List.append_nil] at hundos
      exact ⟨_, _, hpass, hundos, rfl⟩
    | stopped _ _ _ _ herror _ =>
      rw [GroupRun.result, herror] at h
      contradiction

theorem groupRun_of_error {e : ChangeError} (hvalid : state.status.isFatal = false)
    (h : (groupRun state handler s docs (performEach children docs)).result = .error e) :
    ∃ before child after done t edited, children = before ++ child :: after ∧
      Passes handler s docs before done t edited ∧ (child.perform edited).result = .error e ∧
      (handler t (child.perform edited).change e).2 = .abort ∧
      (groupRun state handler s docs (performEach children docs)).docs =
        (child.perform edited).docs := by
  unfold groupRun at h ⊢
  simp only [hvalid, Bool.false_eq_true, if_false] at h ⊢
  cases GroupRun.absorbAll_ends ⟨state, s, docs, [], [], none, []⟩ handler rfl children with
  | passed _ herror _ =>
    rw [GroupRun.result, herror] at h
    contradiction
  | stopped hcs hpass hfail habort herror hdocs =>
    rw [GroupRun.result, herror] at h
    obtain rfl := Except.error.inj h
    exact ⟨_, _, _, _, _, _, hcs, hpass, hfail, habort, hdocs⟩

theorem groupRun_state (performed : List (Change H × Performed H)) :
    (groupRun state handler s docs performed).state =
      { state with status := (groupRun state handler s docs performed).state.status } := by
  unfold groupRun
  split
  · rfl
  · exact GroupRun.absorbAll_state _ _

theorem groupRun_done {α : Type} (view : Change H → α) (state : Validation) (handler : Handler H σ)
    (s : σ) (docs : Documents) (h : ∀ c ∈ children, ∀ docs, view (c.perform docs).change = view c) :
    (groupRun state handler s docs (performEach children docs)).done.map view =
      children.map view := by
  unfold groupRun
  split
  · rw [GroupRun.map_fst_performEach]
  · exact GroupRun.absorbAll_done view _ children docs h

/-- A group that is not invalid and whose children all work does what they do. -/
theorem groupRun_of_unwinds (handler : Handler H σ) (s : σ) {last : Documents}
    (hvalid : state.status = .clear) (h : Unwinds children docs last) :
    (∃ undo, (groupRun state handler s docs (performEach children docs)).result = .ok undo) ∧
      (groupRun state handler s docs (performEach children docs)).docs = last := by
  unfold groupRun
  simp only [hvalid, Status.isFatal_clear, Bool.false_eq_true, if_false]
  obtain ⟨hend, hlast⟩ :=
    GroupRun.absorbAll_of_unwinds ⟨state, s, docs, [], [], none, []⟩ handler rfl h
  exact ⟨⟨_, by rw [GroupRun.result, hend]⟩, hlast⟩

end

namespace Change

variable {c : Change H} {docs : Documents}

theorem IsText.change_eq (h : c.IsText) (docs : Documents) : (c.perform docs).change = c := by
  obtain ⟨name, file, edits, rfl⟩ := h
  rw [perform]
  rcases performText_cases (H := H) name file edits docs with ⟨e, heq⟩ |
    ⟨_, _, _, _, _, _, heq⟩ <;> rw [heq]

theorem IsText.docs_eq_of_error (h : c.IsText) {e : ChangeError}
    (he : (c.perform docs).result = .error e) : (c.perform docs).docs = docs := by
  obtain ⟨name, file, edits, rfl⟩ := h
  rw [perform] at he ⊢
  rcases performText_cases (H := H) name file edits docs with ⟨_, heq⟩ | ⟨_, _, _, _, _, _, heq⟩
  · rw [heq]
  · simp [heq] at he

theorem IsText.undo_turns (h : c.IsText) {undo : Option (Change H)} (hfits : c.Fits docs)
    (hok : (c.perform docs).result = .ok undo) :
    ∃ u, undo = some u ∧ u.Turns (c.perform docs).docs docs := by
  obtain ⟨name, file, edits, rfl⟩ := h
  rw [Fits] at hfits
  rw [perform] at hok ⊢
  rcases performText_cases (H := H) name file edits docs with
    ⟨_, heq⟩ | ⟨text, normal, new, hget, hnew, hapart, heq⟩
  · simp [heq] at hok
  · rw [heq] at hok hfits ⊢
    obtain rfl := Except.ok.inj hok
    have hback := performText_inverse (H := H) name hget hnew hapart hfits.inserted
    exact ⟨_, rfl, by rw [perform, hback], _, by rw [perform, hback]⟩

/-- The law for one change goes from the children of a group, each performed by itself, to the
group: it stops at the first failure, so that nothing is passed over. -/
theorem Textual.undo_turns (h : c.Textual) {undo : Option (Change H)} (hfits : c.Fits docs)
    (hok : (c.perform docs).result = .ok undo) :
    ∃ u, undo = some u ∧ u.Turns (c.perform docs).docs docs := by
  induction h generalizing docs undo with
  | text => exact IsText.undo_turns ⟨_, _, _, rfl⟩ hfits hok
  | @group state children _ ih =>
    rw [Fits] at hfits
    rw [perform] at hok ⊢
    obtain ⟨undoGroup, hundo, rfl⟩ : ∃ undoGroup, (groupRun state Handler.aborting () docs
        (performEach children docs)).result = .ok undoGroup ∧ some undoGroup.toChange = undo := by
      cases hresult : (groupRun state Handler.aborting () docs
          (performEach children docs)).result with
      | error e => simp [hresult, Except.map] at hok
      | ok undoGroup => exact ⟨undoGroup, rfl, by simpa [hresult, Except.map] using hok⟩
    obtain ⟨done, _, hpass, hchildren, hclear⟩ := groupRun_of_ok hundo
    have hunwinds := hpass.unwinds (fun c hc _ _ hf hk => ih c hc hf hk)
      (fun c _ _ _ _ _ _ hp => by simp [Handler.aborting] at hp) hfits
    rw [← hchildren] at hunwinds
    obtain ⟨⟨redo, hredo⟩, hdocs⟩ := groupRun_of_unwinds Handler.aborting () hclear hunwinds
    refine ⟨_, rfl, ?_, ?_⟩
    · rw [ChangeGroup.toChange, perform]
      exact hdocs
    · rw [ChangeGroup.toChange, perform]
      exact ⟨redo.toChange, by simp only [hredo, Except.map]⟩

/-- Performing a change touches nothing in it but the statuses of its groups, and what the host's
changes do to themselves. -/
theorem withoutStatus_perform {α : Type} {view : H → α}
    (hview : ∀ change docs, view (HostChange.perform change docs).change = view change)
    (c : Change H) (docs : Documents) :
    (c.perform docs).change.withoutStatus view = c.withoutStatus view := by
  induction c using rec_children generalizing docs with
  | text name file edits => rw [IsText.change_eq ⟨_, _, _, rfl⟩]
  | host change =>
    rw [perform, withoutStatus, withoutStatus]
    exact congrArg Change.host (hview change docs)
  | group state children ih =>
    have hdone := groupRun_done (withoutStatus view) state Handler.aborting () docs ih
    rw [perform, withoutStatus, withoutStatus, withoutStatuses_eq_map, withoutStatuses_eq_map,
      groupRun_state, hdone]

end Change

/-- A group of text changes, performed with any handler. If it works, its undo works, with any
handler, and brings back all documents. If it was valid and stopped, the documents are those that
the children make that worked before the one it stopped at. The same undo law holds for trees of
groups. In all cases the group has its name, its listeners, its count of changes under way and its
children as before; and so has every group in a tree, with any changes of the host, as far as these
stay as they are. -/
theorem ChangeGroup.performWith_undo {σ : Type} (g : ChangeGroup H) (handler : Handler H σ) (s : σ)
    (docs : Documents) (htext : ∀ c ∈ g.children, c.IsText) :
    (∀ undo, (g.performWith handler s docs).result = .ok undo → eachFits g.children docs →
      ∀ (τ : Type) (other : Handler H τ) (t : τ),
        (∃ redo, (undo.performWith other t (g.performWith handler s docs).docs).result =
          .ok redo) ∧
        (undo.performWith other t (g.performWith handler s docs).docs).docs = docs) ∧
    (∀ e, (g.performWith handler s docs).result = .error e → g.state.status.isFatal = false →
      ∃ before child after done t edited, g.children = before ++ child :: after ∧
        Passes handler s docs before done t edited ∧ (child.perform edited).result = .error e ∧
        (handler t child e).2 = .abort ∧ (g.performWith handler s docs).docs = edited ∧
        edited = performAll (done.map (·.1)) docs) ∧
    ((g.performWith handler s docs).state =
        { g.state with status := (g.performWith handler s docs).state.status } ∧
      (g.performWith handler s docs).done = g.children) ∧
    (∀ (α : Type) (view : H → α),
      (∀ change docs, view (HostChange.perform change docs).change = view change) →
        ∀ c : Change H, (c.perform docs).change.withoutStatus view = c.withoutStatus view) ∧
    ∀ c : Change H, c.Textual → c.Fits docs → ∀ undo, (c.perform docs).result = .ok undo →
      ∃ u, undo = some u ∧ u.Turns (c.perform docs).docs docs := by
  refine ⟨fun undo hundo hfits τ other t => ?_, fun e he hvalid => ?_, ⟨groupRun_state _, ?_⟩,
    fun α view hview c => c.withoutStatus_perform hview docs,
    fun c hc hf _ hok => hc.undo_turns hf hok⟩
  · obtain ⟨done, _, hpass, hchildren, hclear⟩ := groupRun_of_ok hundo
    have hunwinds := hpass.unwinds (fun c hc _ _ hf hok => (htext c hc).undo_turns hf hok)
      (fun c hc _ _ _ _ hfail _ => (htext c hc).docs_eq_of_error hfail) hfits
    rw [← hchildren] at hunwinds
    exact groupRun_of_unwinds other t hclear hunwinds
  · obtain ⟨before, child, after, done, t, edited, hsplit, hpass, hfail, habort, hlast⟩ :=
      groupRun_of_error hvalid he
    have hchild : child.IsText := htext child (by simp [hsplit])
    rw [hchild.change_eq] at habort
    rw [hchild.docs_eq_of_error hfail] at hlast
    refine ⟨before, child, after, done, t, edited, hsplit, hpass, hfail, habort, hlast, ?_⟩
    exact hpass.eq_performAll fun c hc _ _ => (htext c (by simp [hsplit, hc])).docs_eq_of_error
  · have hdone := groupRun_done id g.state handler s docs
      fun c hc docs => (htext c hc).change_eq docs
    rwa [List.map_id, List.map_id] at hdone

end

namespace Demo

def appended : Documents := ⟨[("Demo.java", "! abc xé"), ("Other.java", "x")]⟩

def append : Change Empty := .text "append" "Demo.java" [.insert 7 "é"]

/-- A change of a file that is not there. -/
def lost : Change Empty := .text "lost" "Lost.java" []

theorem perform_append : append.perform edited =
    ⟨appended, append, .ok (some (.text "append" "Demo.java" [.delete ⟨7, 9⟩])), []⟩ := by
  have hrevises : Edit.Revises 0 "! abc x".toList [.insert 7 "é"] "! abc xé".toList :=
    .step "! abc x".toList [] _ rfl rfl (.keep 7 [])
  rw [append, Change.perform]
  exact performText_of_revises "append" rfl hrevises (by decide) (by decide)

theorem perform_lost :
    lost.perform edited = ⟨edited, lost, .error (.unknownFile "Lost.java"), []⟩ := by
  rw [lost, Change.perform]
  rfl

/-- Two edits of one file, and between them one that fails. -/
def children : List (Change Empty) := [edit, lost, append]

def group : ChangeGroup Empty := .ofChildren "all" children

/-- Goes on whatever fails. -/
def proceeding : Handler Empty Unit := fun _ _ _ => ((), .proceed)

theorem isText_children : ∀ c ∈ group.children, c.IsText := by
  intro c hc
  rcases List.mem_cons.1 hc with rfl | hc
  · exact ⟨_, _, _, rfl⟩
  rcases List.mem_cons.1 hc with rfl | hc
  · exact ⟨_, _, _, rfl⟩
  obtain rfl := List.mem_singleton.1 hc
  exact ⟨_, _, _, rfl⟩

theorem performEach_children : performEach group.children docs =
    [(edit, edit.perform docs), (lost, lost.perform edited), (append, append.perform edited)] := by
  simp only [group, ChangeGroup.ofChildren, children, performEach, perform_edit, perform_lost]

theorem bounded_appended : appended.Bounded := Documents.bounded_of_forall_mem (by decide)

theorem fits_edit : edit.Fits docs := by
  rw [edit, Change.Fits, ← Change.perform, ← edit, perform_edit]
  exact bounded_edited

theorem fits_append : append.Fits edited := by
  rw [append, Change.Fits, ← Change.perform, ← append, perform_append]
  exact bounded_appended

theorem eachFits_children : eachFits group.children docs := by
  have hlost : lost.Fits edited := by
    rw [lost, Change.Fits, ← Change.perform, ← lost, perform_lost]
    exact bounded_edited
  simp only [group, ChangeGroup.ofChildren, children, eachFits, perform_edit, perform_lost]
  exact ⟨fits_edit, hlost, fits_append, trivial⟩

def inner : Change Empty := (ChangeGroup.ofChildren "inner" [edit]).toChange

theorem docs_perform_inner : (inner.perform docs).docs = edited := by
  simp only [inner, ChangeGroup.toChange, Change.perform, ChangeGroup.ofChildren, performEach,
    perform_edit]
  rfl

/-- A group within a group. -/
def nested : Change Empty := .group (.initial "outer") [inner, append]

theorem textual_nested : nested.Textual := by
  refine .group fun c hc => ?_
  rcases List.mem_cons.1 hc with rfl | hc
  · refine .group fun c hc => ?_
    obtain rfl := List.mem_singleton.1 hc
    exact .text
  · obtain rfl := List.mem_singleton.1 hc
    exact .text

theorem fits_nested : nested.Fits docs := by
  have hinner : inner.Fits docs := by
    simp only [inner, ChangeGroup.toChange, Change.Fits, ChangeGroup.ofChildren, eachFits]
    exact ⟨fits_edit, trivial⟩
  simp only [nested, Change.Fits, eachFits, docs_perform_inner]
  exact ⟨hinner, fits_append, trivial⟩

theorem exists_undo_nested : ∃ undo, (nested.perform docs).result = .ok undo := by
  simp only [nested, Change.perform, performEach, docs_perform_inner, perform_append]
  simp only [inner, ChangeGroup.toChange, Change.perform, ChangeGroup.ofChildren, performEach,
    perform_edit]
  exact ⟨_, rfl⟩

/-- With a handler that goes on, the undo of the group brings the documents back; with one that
stops, the group stops at the file that is not there; and the undo of nested groups brings the
documents back. -/
theorem group_undone :
    (∃ undo redo, (group.performWith proceeding () docs).result = .ok undo ∧
      (undo.performWith proceeding () (group.performWith proceeding () docs).docs).result =
        .ok redo ∧
      (undo.performWith proceeding () (group.performWith proceeding () docs).docs).docs = docs) ∧
    (∃ before child after done, group.children = before ++ child :: after ∧
      Passes Handler.aborting () docs before done ()
        (group.performWith Handler.aborting () docs).docs ∧
      (child.perform (group.performWith Handler.aborting () docs).docs).result =
        .error (.unknownFile "Lost.java")) ∧
    ∃ undo, (nested.perform docs).result = .ok (some undo) ∧
      undo.Turns (nested.perform docs).docs docs := by
  refine ⟨?_, ?_, ?_⟩
  · have hok : ∃ undo, (group.performWith proceeding () docs).result = .ok undo := by
      rw [ChangeGroup.performWith, performEach_children, perform_edit, perform_lost, perform_append]
      exact ⟨_, rfl⟩
    obtain ⟨undo, hundo⟩ := hok
    obtain ⟨⟨redo, hredo⟩, hdocs⟩ := (group.performWith_undo proceeding () docs isText_children).1
      undo hundo eachFits_children Unit proceeding ()
    exact ⟨undo, redo, hundo, hredo, hdocs⟩
  · have herror : (group.performWith Handler.aborting () docs).result =
        .error (.unknownFile "Lost.java") := by
      rw [ChangeGroup.performWith, performEach_children, perform_edit, perform_lost]
      rfl
    obtain ⟨before, child, after, done, _, _, hsplit, hpass, hfail, -, rfl, -⟩ :=
      (group.performWith_undo Handler.aborting () docs isText_children).2.1 _ herror rfl
    exact ⟨before, child, after, done, hsplit, hpass, hfail⟩
  · obtain ⟨undo, hundo⟩ := exists_undo_nested
    obtain ⟨u, rfl, hturns⟩ := (group.performWith_undo proceeding () docs isText_children).2.2.2.2
      nested textual_nested fits_nested undo hundo
    exact ⟨u, hundo, hturns⟩

end Demo
end EnhancedFor
