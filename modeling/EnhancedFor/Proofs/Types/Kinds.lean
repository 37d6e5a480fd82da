import EnhancedFor.Proofs.Types.Interning

/-!
Kinds of types. Main statement: in every store that can be built, a type with arguments is of the
kind of its declaration, and the arrays among the other types are those with a component.
-/

namespace EnhancedFor
namespace TypeStore

variable {store store' : TypeStore} {id generic : TypeId} {args : List TypeId}
  {b decl : TypeBinding} {depth : Nat}

/-- The kind of an entry goes with what the entry is made of. -/
structure KindFits (store : TypeStore) (b : TypeBinding) : Prop where
  erasure : ∀ generic, b.erasure = some generic →
    ∃ decl, store.type? generic = some decl ∧ decl.kind = b.kind
  component : b.component ≠ none ↔ b.kind = .array ∧ b.erasure = none

/-- The kinds of all entries go with what they are made of. -/
def Kinded (store : TypeStore) : Prop := ∀ id b, store.type? id = some b → store.KindFits b

/-- The kinds that entries refer to stay where the declarations do. -/
theorem KindFits.mono (h : store.KindFits b)
    (hkinds : ∀ id c, store.type? id = some c → ∃ d, store'.type? id = some d ∧ d.kind = c.kind) :
    store'.KindFits b where
  erasure generic hgeneric := by
    obtain ⟨decl, hdecl, hkind⟩ := h.erasure generic hgeneric
    obtain ⟨d, hd, hsame⟩ := hkinds generic decl hdecl
    exact ⟨d, hd, hsame.trans hkind⟩
  component := h.component

theorem Kinded.add (h : store.Kinded) (hb : store.KindFits b) : (store.add b).1.Kinded := by
  intro id c hc
  have hfits : store.KindFits c := by
    rcases type?_add_eq_some.1 hc with hold | ⟨-, rfl⟩
    · exact h id c hold
    · exact hb
  exact hfits.mono fun id d hd => ⟨d, extends_add store b id d hd, rfl⟩

/-- An update may change what an entry refers to, but neither its kind nor what it is made of. -/
theorem Kinded.update {target : TypeId} {f : TypeBinding → TypeBinding} (h : store.Kinded)
    (hparts : ∀ b, (f b).SameParts b) (hkind : ∀ b, (f b).kind = b.kind) :
    (store.update target f).Kinded := by
  have hkinds : ∀ id c, store.type? id = some c →
      ∃ d, (store.update target f).type? id = some d ∧ d.kind = c.kind := by
    intro id c hc
    by_cases hid : id = target
    · subst hid
      exact ⟨f c, by rw [type?_update_self, hc, Option.map_some], hkind c⟩
    · exact ⟨c, by rw [type?_update_of_ne hid, hc], rfl⟩
  intro id c hc
  obtain ⟨b, hb, rfl | ⟨-, rfl⟩⟩ := exists_of_type?_update hc
  · exact (h id c hb).mono hkinds
  · obtain ⟨herasure, hcomponent⟩ := (h id b hb).mono hkinds
    constructor
    · rw [(hparts b).1, hkind b]
      exact herasure
    · rw [(hparts b).1, (hparts b).2.2, hkind b]
      exact hcomponent

theorem kindFits_declared (hparts : b.SameParts (.declared b.kind b.qualifiedName))
    (hkind : b.kind ≠ .array) : store.KindFits b := by
  obtain ⟨herasure, -, hcomponent⟩ := hparts
  simp only [TypeBinding.declared] at herasure hcomponent
  constructor
  · simp [herasure]
  · simp [hcomponent, hkind]

theorem kindFits_parameterizedBinding (hdecl : store.type? generic = some decl)
    (args : List TypeId) : store.KindFits (store.parameterizedBinding generic decl args) where
  erasure found hfound := by
    obtain rfl : generic = found := Option.some.inj hfound
    exact ⟨decl, hdecl, rfl⟩
  component := by simp [parameterizedBinding]

theorem kinded_initial : initial.Kinded := by
  intro id b hb
  obtain ⟨hlt, hb⟩ := Array.getElem?_eq_some_iff.1 hb
  have hzero : id.index = 0 := Nat.lt_one_iff.1 hlt
  obtain rfl : .declared .classType objectName = b := by simpa [initial, hzero] using hb
  exact kindFits_declared ⟨rfl, rfl, rfl⟩ (by simp [TypeBinding.declared])

theorem Kinded.append_parameters (h : store.Kinded) (names : List String) :
    { store with types := store.types ++ (names.map fun n =>
      { TypeBinding.declared .typeVariable n with
        superclass := some object }).toArray }.Kinded := by
  refine append_parameters_of (fun store name hk => hk.add ?_) h names
  exact kindFits_declared ⟨rfl, rfl, rfl⟩ (by simp [TypeBinding.declared])

theorem Kinded.addParameters (h : store.Kinded) (owner : TypeId) (names : List String) :
    (store.addParameters owner names).Kinded :=
  (h.append_parameters names).update (fun _ => ⟨rfl, rfl, rfl⟩) fun _ => rfl

theorem Kinded.declareClass (h : store.Kinded) (name : String) (params : List String) :
    (store.declareClass name params).1.Kinded := by
  unfold TypeStore.declareClass
  split
  · exact h
  · apply Kinded.addParameters
    apply h.add
    exact kindFits_declared ⟨rfl, rfl, rfl⟩ (by simp [TypeBinding.declared])

theorem Kinded.declareInterface (h : store.Kinded) (name : String) (params : List String) :
    (store.declareInterface name params).1.Kinded := by
  apply Kinded.addParameters
  apply h.add
  exact kindFits_declared ⟨rfl, rfl, rfl⟩ (by simp [TypeBinding.declared])

theorem Kinded.declarePrimitive (h : store.Kinded) (name : String) :
    (store.declarePrimitive name).1.Kinded := by
  unfold TypeStore.declarePrimitive
  split
  · exact h
  · exact h.add (kindFits_declared ⟨rfl, rfl, rfl⟩ (by simp [TypeBinding.declared]))

theorem Kinded.arrayOf (h : store.Kinded) (component : TypeId) :
    (store.arrayOf component).1.Kinded := by
  unfold TypeStore.arrayOf
  split
  · exact h
  · apply h.add
    constructor <;> simp
  · exact h

/-- What every step keeps, a run of steps over a list keeps. -/
theorem Kinded.mapWith {step : TypeStore → TypeId → Option (TypeStore × TypeId)}
    (hstep : ∀ {s t : TypeStore} {type id : TypeId}, s.Kinded → step s type = some (t, id) →
      t.Kinded)
    (h : store.Kinded) {types ids : List TypeId}
    (heq : TypeStore.mapWith step store types = some (store', ids)) : store'.Kinded := by
  induction types generalizing store ids with
  | nil =>
    obtain ⟨rfl, rfl⟩ := Prod.mk.inj (Option.some.inj heq)
    exact h
  | cons type types ih =>
    obtain ⟨s, id, rest, hid, hrest, rfl⟩ := mapWith_cons_cases heq
    exact ih (hstep h hid) hrest

/-- So many nested steps keep the kinds, in parameterisations and in substitutions. -/
def KeepsKinds (depth : Nat) : Prop :=
  (∀ {store store' : TypeStore} {generic id : TypeId} {args : List TypeId}, store.Kinded →
    parameterizeWithin depth store generic args = some (store', id) → store'.Kinded) ∧
  ∀ {store store' : TypeStore} {type id : TypeId} {replaced : List (TypeId × TypeId)},
    store.Kinded → substituteWithin depth replaced store type = some (store', id) → store'.Kinded

theorem KeepsKinds.succ (h : KeepsKinds depth) : KeepsKinds (depth + 1) := by
  obtain ⟨hparameterize, hsubstitute⟩ := h
  constructor
  · intro store store' generic id args hk heq
    obtain ⟨decl, hdecl, ⟨-, rfl⟩ | ⟨-, rfl, s, superclass, t, interfaces, hsuper, hfaces, rfl⟩⟩ :=
      parameterizeWithin_cases heq
    · exact hk
    · have hentered := hk.add (kindFits_parameterizedBinding hdecl args)
      have hs := hentered.mapWith hsubstitute hsuper
      exact (hs.mapWith hsubstitute hfaces).update (fun _ => ⟨rfl, rfl, rfl⟩) fun _ => rfl
  · intro store store' type id replaced hk heq
    rcases substituteWithin_cases heq with ⟨-, rfl⟩ | ⟨b, -, -, ⟨-, rfl, -⟩ | hmade⟩
    · exact hk
    · exact hk
    · obtain ⟨generic, s, args, -, -, hmap, hmade⟩ := hmade
      exact hparameterize (hk.mapWith hsubstitute hmap) hmade

theorem keepsKinds (depth : Nat) : KeepsKinds depth := by
  induction depth with
  | zero =>
    constructor
    · intro store store' generic id args _ h
      simp [parameterizeWithin] at h
    · intro store store' type id replaced _ h
      simp [substituteWithin] at h
  | succ depth ih => exact ih.succ

theorem Kinded.of_types (h : store.Kinded) (htypes : store'.types = store.types) :
    store'.Kinded := by
  have hsame (id : TypeId) : store'.type? id = store.type? id := by rw [type?, type?, htypes]
  intro id b hb
  exact (h id b ((hsame id).symm.trans hb)).mono fun id c hc => ⟨c, (hsame id).trans hc, rfl⟩

theorem Reachable.kinded (h : store.Reachable) : store.Kinded := by
  induction h with
  | initial => exact kinded_initial
  | declareClass _ name params ih => exact ih.declareClass name params
  | declareInterface _ name params ih => exact ih.declareInterface name params
  | declarePrimitive _ name ih => exact ih.declarePrimitive name
  | setSuperclass _ _ _ ih => exact ih.update (fun _ => ⟨rfl, rfl, rfl⟩) fun _ => rfl
  | addInterface _ _ _ ih => exact ih.update (fun _ => ⟨rfl, rfl, rfl⟩) fun _ => rfl
  | parameterize _ _ _ _ hr ih => exact (keepsKinds _).1 ih hr
  | arrayOf _ _ ih => exact ih.arrayOf _
  | addMethod _ _ _ _ ih => exact ih.of_types rfl
  | addVariable _ _ _ _ ih => exact ih.of_types rfl

end TypeStore
end EnhancedFor
