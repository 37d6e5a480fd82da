import EnhancedFor.Proofs.Change.Validation

/-!
What listeners of a group are told. Notices wait while changes are under way; the end of the last
change either clears the status or makes up for them. Main statement: in every run, a listener that
was there when the status turned fatal and still is has been told of it as soon as no change is
under way, and the ids of listeners are never used twice.
-/

namespace EnhancedFor

/-- Listeners have different numbers, and the next one is free. -/
structure Validation.Numbered (v : Validation) : Prop where
  nodup : v.listeners.Nodup
  lt : ∀ id ∈ v.listeners, id.index < v.nextListener

namespace Validation

variable {v : Validation} {id : ListenerId}

theorem Numbered.addListener (h : v.Numbered) : v.addListener.1.Numbered := by
  constructor
  · have hfresh : (⟨v.nextListener⟩ : ListenerId) ∉ v.listeners := by
      intro hmem
      exact Nat.lt_irrefl _ (h.lt _ hmem)
    simp only [Validation.addListener, List.nodup_append, List.nodup_singleton, h.nodup,
      List.mem_singleton, true_and]
    rintro a ha b rfl rfl
    exact hfresh ha
  · intro id hid
    simp only [Validation.addListener, List.mem_append, List.mem_singleton] at hid ⊢
    rcases hid with hid | rfl
    · exact Nat.lt_succ_of_lt (h.lt id hid)
    · exact Nat.lt_succ_self _

theorem Numbered.removeListener (h : v.Numbered) (id : ListenerId) :
    (v.removeListener id).1.Numbered := by
  constructor
  · exact h.nodup.filter _
  · intro other hother
    exact h.lt other (List.mem_filter.1 hother).1

/-- Just the one entry goes. -/
theorem Numbered.removeListener_eq (h : v.Numbered) (id : ListenerId) :
    (v.removeListener id).1 = { v with listeners := v.listeners.erase id } := by
  simp only [Validation.removeListener, h.nodup.erase_eq_filter]

theorem mem_notices (h : id ∈ v.listeners) : ⟨id, v.name, v.status⟩ ∈ v.notices :=
  List.mem_map_of_mem h

end Validation

namespace ChangeGroup

variable {H : Type} [HostChange H] {g : ChangeGroup H} {op : Operation H} {id : ListenerId}

theorem run_append (g : ChangeGroup H) (ops rest : List (Operation H)) :
    g.run (ops ++ rest) = (g.run ops).run rest := by
  simp [run]

/-- All operations but two leave the listeners and the next number alone. -/
theorem listeners_step_cases (g : ChangeGroup H) (op : Operation H) :
    op = .addListener ∨ (∃ id, op = .removeListener id) ∨
      (op ≠ .addListener ∧ (∀ id, op ≠ .removeListener id) ∧
        (g.step op).1.state.listeners = g.state.listeners ∧
        (g.step op).1.state.nextListener = g.state.nextListener) := by
  cases op with
  | addListener => exact .inl rfl
  | removeListener id => exact .inr (.inl ⟨id, rfl⟩)
  | add child => simp [step, add]
  | elementChanged delta =>
    simp only [step, Validation.elementChanged]
    split <;> simp [Validation.workspaceChanged]
  | resourceChanged delta =>
    simp only [step, Validation.resourceChanged]
    split <;> simp [Validation.workspaceChanged]
  | aboutToPerform => simp [step, Validation.aboutToPerform]
  | changePerformed undoable failed =>
    simp only [step, Validation.changePerformed]
    split <;> simp
  | performWith handler s docs =>
    simp only [step, GroupRun.group, performWith]
    rw [groupRun_state]
    simp

theorem numbered_step (h : g.state.Numbered) (op : Operation H) : (g.step op).1.state.Numbered := by
  rcases listeners_step_cases g op with rfl | ⟨id, rfl⟩ | ⟨-, -, hlisteners, hnext⟩
  · exact h.addListener
  · exact h.removeListener id
  · constructor
    · rw [hlisteners]
      exact h.nodup
    · rw [hlisteners, hnext]
      exact h.lt

theorem numbered_run (name : String) (children : List (Change H)) (ops : List (Operation H)) :
    ((ofChildren name children).run ops).state.Numbered := by
  induction ops using List.reverseRecOn with
  | nil => exact ⟨List.nodup_nil, fun id hid => (List.not_mem_nil hid).elim⟩
  | append_singleton ops op ih =>
    rw [run_concat]
    exact numbered_step ih op

theorem nextListener_le_step (g : ChangeGroup H) (op : Operation H) :
    g.state.nextListener ≤ (g.step op).1.state.nextListener := by
  rcases listeners_step_cases g op with rfl | ⟨id, rfl⟩ | ⟨-, -, -, hnext⟩
  · exact Nat.le_succ _
  · exact Nat.le_refl _
  · rw [hnext]

theorem nextListener_le_run (g : ChangeGroup H) (ops : List (Operation H)) :
    g.state.nextListener ≤ (g.run ops).state.nextListener := by
  induction ops using List.reverseRecOn with
  | nil => exact Nat.le_refl _
  | append_singleton ops op ih =>
    rw [run_concat]
    exact ih.trans (nextListener_le_step _ op)

/-- A listener whose number was given before was there before. -/
theorem mem_listeners_of_step (hold : id.index < g.state.nextListener)
    (h : id ∈ (g.step op).1.state.listeners) : id ∈ g.state.listeners := by
  rcases listeners_step_cases g op with rfl | ⟨other, rfl⟩ | ⟨-, -, hlisteners, -⟩
  · rcases List.mem_append.1 h with h | h
    · exact h
    · obtain rfl := List.mem_singleton.1 h
      exact (Nat.lt_irrefl _ hold).elim
  · exact (List.mem_filter.1 h).1
  · rwa [hlisteners] at h

/-- The listener came in the run, and was not taken out since. -/
def Registered (g : ChangeGroup H) (ops : List (Operation H)) (id : ListenerId) : Prop :=
  Operation.Since (fun before op => op = .addListener ∧ (g.run before).state.addListener.2 = id)
    (.removeListener id) ops

theorem mem_listeners_run_iff (name : String) (children : List (Change H))
    (ops : List (Operation H)) :
    id ∈ ((ofChildren name children).run ops).state.listeners ↔
      (ofChildren name children).Registered ops id := by
  induction ops using List.reverseRecOn with
  | nil =>
    constructor
    · intro h
      exact (List.not_mem_nil h).elim
    · rintro ⟨before, op, after, h, -⟩
      simp at h
  | append_singleton ops op ih =>
    rw [run_concat, Registered, Operation.since_concat, ← Registered, ← ih]
    rcases listeners_step_cases ((ofChildren name children).run ops) op with
      rfl | ⟨other, rfl⟩ | ⟨hadd, hremove, hlisteners, -⟩
    · simp [step, Validation.addListener, @eq_comm _ id, or_comm]
    · simp [step, Validation.removeListener, @eq_comm _ id]
    · simp [hlisteners, hadd, hremove]

/-- The operation tells all listeners of the group its status, and nobody else anything. -/
def Fires (g : ChangeGroup H) (op : Operation H) : Prop :=
  (g.step op).2 = (g.step op).1.state.notices

/-- After a report, whether it counts or not, a fatal status with no change under way was there
before, or all listeners are told. -/
theorem fires_report {v : Validation} {p : Prop} [Decidable p]
    (hfatal : (if p then v.workspaceChanged else (v, [])).1.status.isFatal = true)
    (hidle : (if p then v.workspaceChanged else (v, [])).1.inChangeCount = 0) :
    (v.status.isFatal = true ∧ v.inChangeCount = 0) ∨
      (if p then v.workspaceChanged else (v, [])).2 =
        (if p then v.workspaceChanged else (v, [])).1.notices := by
  split at hfatal
  · rename_i hp
    rw [if_pos hp] at hidle ⊢
    have hcount : v.inChangeCount = 0 := hidle
    right
    simp [Validation.workspaceChanged, hcount]
  · rename_i hp
    rw [if_neg hp] at hidle
    exact .inl ⟨hfatal, hidle⟩

/-- The same after any operation. -/
theorem fires_of_fatal (hfatal : (g.step op).1.state.status.isFatal = true)
    (hidle : (g.step op).1.state.inChangeCount = 0) :
    (g.state.status.isFatal = true ∧ g.state.inChangeCount = 0) ∨ g.Fires op := by
  cases op with
  | add child | addListener | removeListener id => exact .inl ⟨hfatal, hidle⟩
  | aboutToPerform => exact (Nat.succ_ne_zero _ hidle).elim
  | elementChanged delta => exact fires_report hfatal hidle
  | resourceChanged delta => exact fires_report hfatal hidle
  | changePerformed undoable failed =>
    right
    simp only [Fires, step, Validation.changePerformed] at *
    split at hfatal
    · simp at hfatal
    · rename_i hunsettled
      rw [if_neg hunsettled]
  | performWith handler s docs =>
    left
    by_cases hrefused : g.state.status.isFatal = true
    · simp only [step, GroupRun.group, performWith_of_fatal hrefused] at hfatal hidle
      exact ⟨hfatal, hidle⟩
    · -- Children can only clear the status of a valid group.
      simp only [step, GroupRun.group] at hfatal
      rcases status_performWith (g := g) handler s docs with h | ⟨-, h⟩
      · rw [h] at hfatal
        exact (hrefused hfatal).elim
      · simp [h] at hfatal

/-- In the run some operation of the group tells the listener of a fatal status. -/
def Notified (g : ChangeGroup H) (ops : List (Operation H)) (id : ListenerId) : Prop :=
  ∃ before op after, ops = before ++ op :: after ∧ (g.run before).Fires op ∧
    ∃ notice ∈ ((g.run before).step op).2, notice.listener = id ∧ notice.status.isFatal = true

theorem Notified.concat {ops : List (Operation H)} (h : g.Notified ops id) (op : Operation H) :
    g.Notified (ops ++ [op]) id := by
  obtain ⟨before, found, after, rfl, hfound⟩ := h
  exact ⟨before, found, after ++ [op], by simp, hfound⟩

theorem notified_of_fires {ops : List (Operation H)} (hfires : (g.run ops).Fires op)
    (hid : id ∈ ((g.run ops).step op).1.state.listeners)
    (hfatal : ((g.run ops).step op).1.state.status.isFatal = true) :
    g.Notified (ops ++ [op]) id := by
  refine ⟨ops, op, [], rfl, hfires, ?_⟩
  rw [hfires]
  exact ⟨_, Validation.mem_notices hid, rfl, hfatal⟩

/-- From a valid group to a fatal status with no change under way, every listener that was there at
both ends is told. The run is gone through from its end, until the operation that tells is found. -/
theorem notified_of_fatal {ops : List (Operation H)} (hvalid : g.state.status.isFatal = false)
    (hold : id.index < g.state.nextListener) (hid : id ∈ (g.run ops).state.listeners)
    (hfatal : (g.run ops).state.status.isFatal = true)
    (hidle : (g.run ops).state.inChangeCount = 0) : g.Notified ops id := by
  induction ops using List.reverseRecOn with
  | nil => simp [run, hvalid] at hfatal
  | append_singleton ops op ih =>
    rw [run_concat] at hid hfatal hidle
    rcases fires_of_fatal hfatal hidle with ⟨hfatal', hidle'⟩ | hfires
    · have hold' : id.index < (g.run ops).state.nextListener :=
        hold.trans_le (nextListener_le_run g ops)
      exact (ih (mem_listeners_of_step hold' hid) hfatal' hidle').concat op
    · exact notified_of_fires hfires hid hfatal

/-- After `before` the operation turned the status fatal, and it has stayed so since. -/
def TurnedFatal (g : ChangeGroup H) (before : List (Operation H)) (op : Operation H)
    (after : List (Operation H)) : Prop :=
  (g.run before).state.status.isFatal = false ∧
    ∀ mid, mid <+: after → (g.run (before ++ op :: mid)).state.status.isFatal = true

theorem exists_turnedFatal {ops : List (Operation H)} (hvalid : g.state.status.isFatal = false)
    (hfatal : (g.run ops).state.status.isFatal = true) :
    ∃ before op after, ops = before ++ op :: after ∧ g.TurnedFatal before op after := by
  induction ops using List.reverseRecOn with
  | nil => simp [run, hvalid] at hfatal
  | append_singleton ops op ih =>
    by_cases hbefore : (g.run ops).state.status.isFatal = true
    · obtain ⟨before, turn, after, rfl, hvalid, hstays⟩ := ih hbefore
      refine ⟨before, turn, after ++ [op], by simp, hvalid, fun mid hmid => ?_⟩
      rcases List.prefix_concat_iff.1 hmid with rfl | hmid
      · simpa using hfatal
      · exact hstays mid hmid
    · refine ⟨ops, op, [], rfl, Bool.eq_false_iff.2 hbefore, fun mid hmid => ?_⟩
      obtain rfl := List.prefix_nil.1 hmid
      exact hfatal

/-- After any operations on a new group. A fatal status was turned fatal by one of them for good; if
no change is under way, every listener that was there then and still is was told since. No id is
given out twice; taking one out removes just the entry of the listener that got it, and says whether
that listener is still there. -/
theorem notices_run (name : String) (children : List (Change H)) (ops : List (Operation H)) :
    (((ofChildren name children).run ops).state.status.isFatal = true →
      (∃ before op after, ops = before ++ op :: after ∧
        (ofChildren name children).TurnedFatal before op after) ∧
      (((ofChildren name children).run ops).state.inChangeCount = 0 →
        ∀ before op after, ops = before ++ op :: after →
          (ofChildren name children).TurnedFatal before op after →
          ∀ id ∈ ((ofChildren name children).run before).state.listeners,
            id ∈ ((ofChildren name children).run ops).state.listeners →
            ((ofChildren name children).run before).Notified (op :: after) id)) ∧
    (∀ between, ((ofChildren name children).run ops).state.addListener.2 ≠
      ((ofChildren name children).run (ops ++ .addListener :: between)).state.addListener.2) ∧
    ∀ id, (((ofChildren name children).run ops).state.removeListener id).1 =
        { ((ofChildren name children).run ops).state with
          listeners := ((ofChildren name children).run ops).state.listeners.erase id } ∧
      ((((ofChildren name children).run ops).state.removeListener id).2 = true ↔
        (ofChildren name children).Registered ops id) := by
  refine ⟨fun hfatal => ⟨exists_turnedFatal rfl hfatal, ?_⟩, ?_, ?_⟩
  · intro hidle before op after hops hturned id hthen hnow
    subst hops
    rw [run_append] at hfatal hidle hnow
    exact notified_of_fatal hturned.1 ((numbered_run name children before).lt id hthen) hnow hfatal
      hidle
  · intro between hsame
    rw [run_append] at hsame
    have hnext := nextListener_le_run (((ofChildren name children).run ops).step .addListener).1
      between
    have hindex : ((ofChildren name children).run ops).state.nextListener =
        ((((ofChildren name children).run ops).step .addListener).1.run
          between).state.nextListener :=
      congrArg ListenerId.index hsame
    simp only [step, Validation.addListener] at hnext hindex
    omega
  · intro id
    refine ⟨(numbered_run name children ops).removeListener_eq id, ?_⟩
    rw [← mem_listeners_run_iff]
    simp [Validation.removeListener]

end ChangeGroup

namespace Demo

/-- The report comes while two changes are under way; the end of the inner one tells it, and so does
the end of the outer one. -/
def lateReport : List (Operation Empty) :=
  [.addListener, .aboutToPerform, .aboutToPerform, .elementChanged sourceChanged,
    .changePerformed false false, .changePerformed true true]

theorem turnedFatal_lateReport : group.TurnedFatal [.addListener, .aboutToPerform, .aboutToPerform]
    (.elementChanged sourceChanged) [.changePerformed false false, .changePerformed true true] := by
  refine ⟨rfl, fun mid hmid => ?_⟩
  rcases List.prefix_cons_iff.1 hmid with rfl | ⟨first, rfl, hfirst⟩
  · rfl
  rcases List.prefix_cons_iff.1 hfirst with rfl | ⟨second, rfl, hsecond⟩
  · rfl
  obtain rfl := List.prefix_nil.1 hsecond
  rfl

/-- The one listener has been told by the end of the run, and can then be taken out. -/
theorem late_report_told :
    (group.run lateReport).state.status.isFatal = true ∧
      (group.run lateReport).state.inChangeCount = 0 ∧
      (group.run [.addListener, .aboutToPerform, .aboutToPerform]).Notified
        [.elementChanged sourceChanged, .changePerformed false false, .changePerformed true true]
        ⟨0⟩ ∧
      ((group.run lateReport).state.removeListener ⟨0⟩).2 = true ∧
      ¬ group.Registered lateReport ⟨1⟩ := by
  obtain ⟨hfatal, -, hremoved⟩ := ChangeGroup.notices_run "all" children lateReport
  refine ⟨rfl, rfl, ?_, rfl, ?_⟩
  · exact (hfatal rfl).2 rfl _ _ _ rfl turnedFatal_lateReport ⟨0⟩ (by decide) (by decide)
  · intro hregistered
    have hgone := (hremoved ⟨1⟩).2.2 hregistered
    exact absurd hgone (by decide)

end Demo
end EnhancedFor
