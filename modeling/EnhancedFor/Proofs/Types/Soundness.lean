import Mathlib.Data.List.Nodup
import EnhancedFor.Types.Parameterize
import EnhancedFor.Proofs.Types.Lookup

/-!
Sound stores. A type is entered together with the ids that it is made of, all of earlier types, and
only if the table does not have it yet; later changes touch supertypes only. Main statements:
entering an entry that a sound store admits keeps it sound, and so do the operations other than
parameterisation.
-/

namespace EnhancedFor

namespace TypeBinding

/-- Two entries are made of the same types. -/
def SameParts (b c : TypeBinding) : Prop :=
  b.erasure = c.erasure ∧ b.typeArguments = c.typeArguments ∧ b.component = c.component

/-- Arguments come with the declaration that they are for, and an array is not parameterised. -/
def Proper (b : TypeBinding) : Prop :=
  (b.erasure = none ↔ b.typeArguments = []) ∧ (b.component = none ∨ b.erasure = none)

variable {b c : TypeBinding}

theorem SameParts.parts_eq (h : b.SameParts c) : b.parts = c.parts := by
  simp only [parts, h.1, h.2.1, h.2.2]

theorem SameParts.proper_iff (h : b.SameParts c) : b.Proper ↔ c.Proper := by
  simp only [Proper, h.1, h.2.1, h.2.2]

theorem SameParts.symm (h : b.SameParts c) : c.SameParts b := ⟨h.1.symm, h.2.1.symm, h.2.2.symm⟩

theorem SameParts.trans {d : TypeBinding} (h : b.SameParts c) (h' : c.SameParts d) :
    b.SameParts d :=
  ⟨h.1.trans h'.1, h.2.1.trans h'.2.1, h.2.2.trans h'.2.2⟩

end TypeBinding

namespace TypeStore

variable {store store' : TypeStore} {id : TypeId} {b c : TypeBinding}

/-- The id is one of the table. -/
def Known (store : TypeStore) (id : TypeId) : Prop := id.index < store.size

instance : Decidable (store.Known id) := inferInstanceAs (Decidable (id.index < store.size))

theorem known_iff : store.Known id ↔ ∃ b, store.type? id = some b := by
  simp [Known, type?, size, ← Option.isSome_iff_exists]

theorem known_of_type? (h : store.type? id = some b) : store.Known id := known_iff.2 ⟨b, h⟩

/-- All entries of the first store stand unchanged in the second. -/
def Extends (store store' : TypeStore) : Prop :=
  ∀ id b, store.type? id = some b → store'.type? id = some b

theorem Extends.refl (store : TypeStore) : store.Extends store := fun _ _ h => h

theorem Extends.trans {store'' : TypeStore} (h : store.Extends store')
    (h' : store'.Extends store'') : store.Extends store'' := fun id b hb => h' id b (h id b hb)

theorem Extends.known (h : store.Extends store') (hid : store.Known id) : store'.Known id := by
  obtain ⟨b, hb⟩ := known_iff.1 hid
  exact known_of_type? (h id b hb)

theorem type?_add_eq_some : (store.add b).1.type? id = some c ↔
    store.type? id = some c ∨ (id = ⟨store.size⟩ ∧ c = b) := by
  by_cases hid : id = ⟨store.size⟩
  · subst hid
    simp [add, type?, size, eq_comm]
  · have hne : id.index ≠ store.types.size := fun h => hid (congrArg TypeId.mk h)
    simp [add, type?, Array.getElem?_push, hne, hid]

theorem extends_add (store : TypeStore) (b : TypeBinding) : store.Extends (store.add b).1 :=
  fun _ _ h => type?_add_eq_some.2 (.inl h)

@[simp] theorem size_add (store : TypeStore) (b : TypeBinding) :
    (store.add b).1.size = store.size + 1 := by
  simp [add, size]

@[simp] theorem size_update (store : TypeStore) (id : TypeId) (f : TypeBinding → TypeBinding) :
    (store.update id f).size = store.size := by
  simp [update, size]

theorem known_update {target : TypeId} {f : TypeBinding → TypeBinding} :
    (store.update target f).Known id ↔ store.Known id := by
  simp [Known]

theorem type?_update_of_ne {target : TypeId} {f : TypeBinding → TypeBinding} (h : id ≠ target) :
    (store.update target f).type? id = store.type? id := by
  have hne : target.index ≠ id.index := fun heq => h (congrArg TypeId.mk heq.symm)
  simp [update, type?, Array.getElem?_modify, hne]

theorem type?_update_self (store : TypeStore) (id : TypeId) (f : TypeBinding → TypeBinding) :
    (store.update id f).type? id = (store.type? id).map f := by
  simp [update, type?, Array.getElem?_modify]

/-- The entry that an updated one comes from. -/
theorem exists_of_type?_update {target : TypeId} {f : TypeBinding → TypeBinding}
    (h : (store.update target f).type? id = some c) :
    ∃ b, store.type? id = some b ∧ (c = b ∨ (id = target ∧ c = f b)) := by
  by_cases hid : id = target
  · subst hid
    rw [type?_update_self] at h
    obtain ⟨b, hb, hc⟩ := Option.map_eq_some_iff.1 h
    exact ⟨b, hb, .inr ⟨rfl, hc.symm⟩⟩
  · rw [type?_update_of_ne hid] at h
    exact ⟨c, h, .inl rfl⟩

/-- The type is there and is made of no others. -/
def Bare (store : TypeStore) (id : TypeId) : Prop := ∃ b, store.type? id = some b ∧ b.parts = []

theorem Extends.bare (h : store.Extends store') (hid : store.Bare id) : store'.Bare id := by
  obtain ⟨b, hb, hparts⟩ := hid
  exact ⟨b, h id b hb, hparts⟩

/-- What holds of every store that can be built. -/
structure Sound (store : TypeStore) : Prop where
  object_known : store.Known object
  proper : ∀ id b, store.type? id = some b → b.Proper
  parts_lt : ∀ id b, store.type? id = some b → ∀ part ∈ b.parts, part.index < id.index
  links_known : ∀ id b, store.type? id = some b → ∀ link ∈ b.links, store.Known link
  params_bare : ∀ id b, store.type? id = some b → ∀ param ∈ b.typeParameters, store.Bare param
  erasure_bare : ∀ id b, store.type? id = some b → ∀ generic, b.erasure = some generic →
    ∃ decl, store.type? generic = some decl ∧ decl.erasure = none
  parts_inj : ∀ s t b c, store.type? s = some b → store.type? t = some c → b.parts ≠ [] →
    b.SameParts c → s = t
  methods_known : ∀ id m, store.method? id = some m →
    store.Known m.declaringType ∧ ∀ type ∈ m.returnType, store.Known type
  vars_known : ∀ id v, store.var? id = some v → ∀ type ∈ v.type, store.Known type

/-- What an entry must satisfy to come into the table. -/
structure Admits (store : TypeStore) (b : TypeBinding) : Prop where
  proper : b.Proper
  parts_known : ∀ part ∈ b.parts, store.Known part
  links_known : ∀ link ∈ b.links, store.Known link
  params_bare : ∀ param ∈ b.typeParameters, store.Bare param
  erasure_bare : ∀ generic, b.erasure = some generic →
    ∃ decl, store.type? generic = some decl ∧ decl.erasure = none
  parts_new : b.parts ≠ [] → ∀ id c, store.type? id = some c → ¬ c.SameParts b

theorem Sound.add (h : store.Sound) (hb : store.Admits b) : (store.add b).1.Sound where
  object_known := (extends_add store b).known h.object_known
  proper id c hc := by
    rcases type?_add_eq_some.1 hc with hold | ⟨-, rfl⟩
    · exact h.proper id c hold
    · exact hb.proper
  parts_lt id c hc part hpart := by
    rcases type?_add_eq_some.1 hc with hold | ⟨rfl, rfl⟩
    · exact h.parts_lt id c hold part hpart
    · exact hb.parts_known part hpart
  links_known id c hc link hlink := by
    apply (extends_add store b).known
    rcases type?_add_eq_some.1 hc with hold | ⟨-, rfl⟩
    · exact h.links_known id c hold link hlink
    · exact hb.links_known link hlink
  params_bare id c hc param hparam := by
    apply (extends_add store b).bare
    rcases type?_add_eq_some.1 hc with hold | ⟨-, rfl⟩
    · exact h.params_bare id c hold param hparam
    · exact hb.params_bare param hparam
  erasure_bare id c hc generic hgeneric := by
    have hbare : ∃ decl, store.type? generic = some decl ∧ decl.erasure = none := by
      rcases type?_add_eq_some.1 hc with hold | ⟨-, rfl⟩
      · exact h.erasure_bare id c hold generic hgeneric
      · exact hb.erasure_bare generic hgeneric
    obtain ⟨decl, hdecl, hnone⟩ := hbare
    exact ⟨decl, extends_add store b generic decl hdecl, hnone⟩
  parts_inj s t d e hs ht hparts hsame := by
    rcases type?_add_eq_some.1 hs with hsold | ⟨rfl, rfl⟩ <;>
      rcases type?_add_eq_some.1 ht with htold | ⟨rfl, rfl⟩
    · exact h.parts_inj s t d e hsold htold hparts hsame
    · exact (hb.parts_new (hsame.parts_eq ▸ hparts) s d hsold hsame).elim
    · exact (hb.parts_new hparts t e htold hsame.symm).elim
    · rfl
  methods_known id m hm := by
    obtain ⟨howner, hresult⟩ := h.methods_known id m hm
    exact ⟨(extends_add store b).known howner,
      fun type htype => (extends_add store b).known (hresult type htype)⟩
  vars_known id v hv type htype := (extends_add store b).known (h.vars_known id v hv type htype)

/-- An update may change what an entry refers to, but not what it is made of. -/
theorem Sound.update {target : TypeId} {f : TypeBinding → TypeBinding} (h : store.Sound)
    (hparts : ∀ b, (f b).SameParts b)
    (hlinks : ∀ b, store.type? target = some b → ∀ link ∈ (f b).links, store.Known link)
    (hparams : ∀ b, store.type? target = some b →
      ∀ param ∈ (f b).typeParameters, store.Bare param) :
    (store.update target f).Sound := by
  have hfrom {id : TypeId} {c : TypeBinding} (hc : (store.update target f).type? id = some c) :
      ∃ b, store.type? id = some b ∧ c.SameParts b := by
    obtain ⟨b, hb, rfl | ⟨-, rfl⟩⟩ := exists_of_type?_update hc
    · exact ⟨c, hb, rfl, rfl, rfl⟩
    · exact ⟨b, hb, hparts b⟩
  have hbare {id : TypeId} (hid : store.Bare id) : (store.update target f).Bare id := by
    obtain ⟨b, hb, hnil⟩ := hid
    obtain ⟨c, hc⟩ := known_iff.1 (known_update.2 (known_of_type? hb))
    obtain ⟨d, hd, hcd⟩ := hfrom hc
    obtain rfl : d = b := Option.some.inj (hd.symm.trans hb)
    exact ⟨c, hc, hcd.parts_eq.trans hnil⟩
  constructor
  · exact known_update.2 h.object_known
  · intro id c hc
    obtain ⟨b, hb, hcb⟩ := hfrom hc
    exact hcb.proper_iff.2 (h.proper id b hb)
  · intro id c hc part hpart
    obtain ⟨b, hb, hcb⟩ := hfrom hc
    exact h.parts_lt id b hb part (hcb.parts_eq ▸ hpart)
  · intro id c hc link hlink
    apply known_update.2
    obtain ⟨b, hb, rfl | ⟨rfl, rfl⟩⟩ := exists_of_type?_update hc
    · exact h.links_known id c hb link hlink
    · exact hlinks b hb link hlink
  · intro id c hc param hparam
    apply hbare
    obtain ⟨b, hb, rfl | ⟨rfl, rfl⟩⟩ := exists_of_type?_update hc
    · exact h.params_bare id c hb param hparam
    · exact hparams b hb param hparam
  · intro id c hc generic hgeneric
    obtain ⟨b, hb, hcb⟩ := hfrom hc
    obtain ⟨decl, hdecl, hnone⟩ := h.erasure_bare id b hb generic (hcb.1 ▸ hgeneric)
    have hknown : (store.update target f).Known generic := known_update.2 (known_of_type? hdecl)
    obtain ⟨d, hd⟩ := known_iff.1 hknown
    obtain ⟨e, he, hde⟩ := hfrom hd
    obtain rfl : e = decl := Option.some.inj (he.symm.trans hdecl)
    exact ⟨d, hd, hde.1.trans hnone⟩
  · intro s t d e hs ht hne hsame
    obtain ⟨b, hb, hdb⟩ := hfrom hs
    obtain ⟨c, hc, hec⟩ := hfrom ht
    exact h.parts_inj s t b c hb hc (hdb.parts_eq ▸ hne) ((hdb.symm.trans hsame).trans hec)
  · intro id m hm
    obtain ⟨howner, hresult⟩ := h.methods_known id m hm
    exact ⟨known_update.2 howner, fun type htype => known_update.2 (hresult type htype)⟩
  · intro id v hv type htype
    exact known_update.2 (h.vars_known id v hv type htype)

theorem sound_initial : initial.Sound := by
  have honly {id : TypeId} {b : TypeBinding} (h : initial.type? id = some b) :
      b = .declared .classType objectName := by
    obtain ⟨hlt, hb⟩ := Array.getElem?_eq_some_iff.1 h
    have hzero : id.index = 0 := Nat.lt_one_iff.1 hlt
    simp [initial, hzero] at hb
    exact hb.symm
  constructor
  · exact Nat.zero_lt_one
  · intro id b hb
    simp [honly hb, TypeBinding.Proper, TypeBinding.declared]
  · intro id b hb part hpart
    simp [honly hb, TypeBinding.parts, TypeBinding.declared] at hpart
  · intro id b hb link hlink
    simp [honly hb, TypeBinding.links, TypeBinding.supertypes, TypeBinding.declared] at hlink
  · intro id b hb param hparam
    simp [honly hb, TypeBinding.declared] at hparam
  · intro id b hb generic hgeneric
    simp [honly hb, TypeBinding.declared] at hgeneric
  · intro s t b c hb hc hparts
    simp [honly hb, TypeBinding.parts, TypeBinding.declared] at hparts
  · intro id m hm
    simp [initial, method?] at hm
  · intro id v hv
    simp [initial, var?] at hv

/-- A declared type is made of no others, so it may come in whenever what it refers to is there. -/
theorem admits_declared (hparts : b.SameParts (.declared b.kind b.qualifiedName))
    (hparams : b.typeParameters = []) (hlinks : ∀ link ∈ b.links, store.Known link) :
    store.Admits b := by
  obtain ⟨herasure, hargs, hcomponent⟩ := hparts
  simp only [TypeBinding.declared] at herasure hargs hcomponent
  constructor
  · simp [TypeBinding.Proper, herasure, hargs]
  · simp [TypeBinding.parts, herasure, hargs, hcomponent]
  · exact hlinks
  · simp [hparams]
  · simp [herasure]
  · simp [TypeBinding.parts, herasure, hargs, hcomponent]

theorem Sound.object_link (h : store.Sound) (hparams : b.typeParameters = [])
    (hsuper : b.superclass = some object) (hfaces : b.interfaces = []) :
    ∀ link ∈ b.links, store.Known link := by
  simpa [TypeBinding.links, TypeBinding.supertypes, hparams, hsuper, hfaces] using h.object_known

/-- What holds of a store, and of every store that a type variable is added to, holds after the type
parameters of a declaration come in. -/
theorem append_parameters_of {P : TypeStore → Prop}
    (hadd : ∀ (store : TypeStore) (name : String), P store →
      P (store.add { TypeBinding.declared .typeVariable name with superclass := some object }).1)
    (h : P store) (names : List String) :
    P { store with types := store.types ++ (names.map fun n =>
      { TypeBinding.declared .typeVariable n with superclass := some object }).toArray } := by
  induction names generalizing store with
  | nil => simpa using h
  | cons name names ih =>
    have hrest := ih (hadd store name h)
    simpa [TypeStore.add, List.push_append_toArray] using hrest

theorem Sound.append_parameters (h : store.Sound) (names : List String) :
    { store with types := store.types ++ (names.map fun n =>
      { TypeBinding.declared .typeVariable n with superclass := some object }).toArray }.Sound := by
  refine append_parameters_of (fun store name hs => hs.add ?_) h names
  exact admits_declared ⟨rfl, rfl, rfl⟩ rfl (hs.object_link rfl rfl rfl)

theorem bare_append_parameters (names : List String) {param : TypeId}
    (h : param ∈ (List.range names.length).map fun i => TypeId.mk (store.size + i)) :
    { store with types := store.types ++ (names.map fun n =>
      { TypeBinding.declared .typeVariable n with
        superclass := some object }).toArray }.Bare param := by
  obtain ⟨i, hi, rfl⟩ := List.mem_map.1 h
  have hlt := List.mem_range.1 hi
  refine ⟨{ TypeBinding.declared .typeVariable names[i] with superclass := some object }, ?_, rfl⟩
  simp [type?, size, hlt]

theorem Sound.addParameters (h : store.Sound) (owner : TypeId) (names : List String) :
    (store.addParameters owner names).Sound := by
  have happended := h.append_parameters names
  apply happended.update
  · exact fun b => ⟨rfl, rfl, rfl⟩
  · intro b hb link hlink
    rcases List.mem_append.1 hlink with hparam | hsuper
    · obtain ⟨c, hc, -⟩ := bare_append_parameters names hparam
      exact known_of_type? hc
    · exact happended.links_known owner b hb link (List.mem_append_right _ hsuper)
  · exact fun _ _ param => bare_append_parameters names

theorem Sound.declareClass (h : store.Sound) (name : String) (params : List String) :
    (store.declareClass name params).1.Sound := by
  unfold TypeStore.declareClass
  split
  · exact h
  · apply Sound.addParameters
    apply h.add
    exact admits_declared ⟨rfl, rfl, rfl⟩ rfl (h.object_link rfl rfl rfl)

theorem admits_declared_bare (store : TypeStore) (kind : TypeKind) (name : String) :
    store.Admits (.declared kind name) := by
  apply admits_declared ⟨rfl, rfl, rfl⟩ rfl
  simp [TypeBinding.links, TypeBinding.supertypes, TypeBinding.declared]

theorem Sound.declareInterface (h : store.Sound) (name : String) (params : List String) :
    (store.declareInterface name params).1.Sound :=
  (h.add (admits_declared_bare store .interfaceType name)).addParameters _ params

theorem Sound.declarePrimitive (h : store.Sound) (name : String) :
    (store.declarePrimitive name).1.Sound := by
  unfold TypeStore.declarePrimitive
  split
  · exact h
  · exact h.add (admits_declared_bare store .primitive name)

/-- Supertypes may be changed to any that are there. -/
theorem Sound.update_supertypes {target : TypeId} {f : TypeBinding → TypeBinding} (h : store.Sound)
    (hparts : ∀ b, (f b).SameParts b) (hparams : ∀ b, (f b).typeParameters = b.typeParameters)
    (hsuper : ∀ b, store.type? target = some b → ∀ type ∈ (f b).supertypes, store.Known type) :
    (store.update target f).Sound := by
  apply h.update hparts
  · intro b hb link hlink
    rcases List.mem_append.1 hlink with hparam | hlink
    · rw [hparams] at hparam
      exact h.links_known target b hb link (List.mem_append_left _ hparam)
    · exact hsuper b hb link hlink
  · intro b hb param hparam
    exact h.params_bare target b hb param (hparams b ▸ hparam)

theorem Sound.supertypes_known (h : store.Sound) (hb : store.type? id = some b) :
    ∀ type ∈ b.supertypes, store.Known type :=
  fun type htype => h.links_known id b hb type (List.mem_append_right _ htype)

theorem Sound.setSuperclass (h : store.Sound) {superclass : TypeId} (hs : store.Known superclass)
    (id : TypeId) : (store.setSuperclass id superclass).Sound := by
  unfold TypeStore.setSuperclass
  apply h.update_supertypes
  · exact fun b => ⟨rfl, rfl, rfl⟩
  · exact fun b => rfl
  · intro b hb type htype
    rcases List.mem_cons.1 htype with rfl | hface
    · exact hs
    · exact h.supertypes_known hb type (List.mem_append_right _ hface)

theorem Sound.addInterface (h : store.Sound) {face : TypeId} (hf : store.Known face)
    (id : TypeId) : (store.addInterface id face).Sound := by
  unfold TypeStore.addInterface
  apply h.update_supertypes
  · exact fun b => ⟨rfl, rfl, rfl⟩
  · exact fun b => rfl
  · intro b hb type htype
    simp only [TypeBinding.supertypes, ← List.append_assoc] at htype
    rcases List.mem_append.1 htype with hold | hface
    · exact h.supertypes_known hb type hold
    · obtain rfl := List.mem_singleton.1 hface
      exact hf

theorem Sound.addMethod (h : store.Sound) {declaringType : TypeId} {returnType : Option TypeId}
    (hd : store.Known declaringType) (hr : ∀ type ∈ returnType, store.Known type) (name : String) :
    (store.addMethod declaringType name returnType).1.Sound where
  object_known := h.object_known
  proper := h.proper
  parts_lt := h.parts_lt
  links_known := h.links_known
  params_bare := h.params_bare
  erasure_bare := h.erasure_bare
  parts_inj := h.parts_inj
  vars_known := h.vars_known
  methods_known id m hm := by
    rw [method?, TypeStore.addMethod, Array.getElem?_push] at hm
    split at hm
    · obtain rfl := Option.some.inj hm
      exact ⟨hd, hr⟩
    · exact h.methods_known id m hm

theorem Sound.addVariable (h : store.Sound) {type : Option TypeId}
    (ht : ∀ t ∈ type, store.Known t) (name : String) (kind : VariableKind) :
    (store.addVariable name type kind).1.Sound where
  object_known := h.object_known
  proper := h.proper
  parts_lt := h.parts_lt
  links_known := h.links_known
  params_bare := h.params_bare
  erasure_bare := h.erasure_bare
  parts_inj := h.parts_inj
  methods_known := h.methods_known
  vars_known id v hv := by
    rw [var?, TypeStore.addVariable, Array.getElem?_push] at hv
    split at hv
    · obtain rfl := Option.some.inj hv
      exact ht
    · exact h.vars_known id v hv

section Search

variable {p : TypeBinding → Bool}

theorem exists_of_findIdx? (h : (store.types.toList.findIdx? p).map TypeId.mk = some id) :
    ∃ b, store.type? id = some b ∧ p b = true := by
  obtain ⟨i, hi, rfl⟩ := Option.map_eq_some_iff.1 h
  obtain ⟨hlt, hp, -⟩ := List.findIdx?_eq_some_iff_getElem.1 hi
  refine ⟨store.types.toList[i], ?_, hp⟩
  simp [type?, Array.getElem?_eq_getElem hlt]

theorem eq_false_of_findIdx? (h : (store.types.toList.findIdx? p).map TypeId.mk = none)
    (hb : store.type? id = some b) : p b = false := by
  have hnone := List.findIdx?_eq_none_iff.1 (Option.map_eq_none_iff.1 h)
  exact hnone b (Array.mem_toList_iff.2 (Array.mem_of_getElem? hb))

theorem exists_of_findParameterized? {generic : TypeId} {args : List TypeId}
    (h : store.findParameterized? generic args = some id) :
    ∃ b, store.type? id = some b ∧ b.erasure = some generic ∧ b.typeArguments = args := by
  obtain ⟨b, hb, hmatch⟩ := exists_of_findIdx? h
  simp only [Bool.and_eq_true, beq_iff_eq] at hmatch
  exact ⟨b, hb, hmatch⟩

theorem findParameterized?_eq_none_iff {generic : TypeId} {args : List TypeId} :
    store.findParameterized? generic args = none ↔ ∀ id b, store.type? id = some b →
      ¬ (b.erasure = some generic ∧ b.typeArguments = args) := by
  constructor
  · rintro hnone id b hb ⟨herasure, hargs⟩
    have hother := eq_false_of_findIdx? hnone hb
    simp [herasure, hargs] at hother
  · intro hfresh
    cases hfound : store.findParameterized? generic args with
    | none => rfl
    | some id =>
      obtain ⟨b, hb, hmatch⟩ := exists_of_findParameterized? hfound
      exact (hfresh id b hb hmatch).elim

end Search

theorem Sound.arrayOf (h : store.Sound) (component : TypeId) :
    (store.arrayOf component).1.Sound := by
  unfold TypeStore.arrayOf
  split
  · exact h
  · rename_i c hnone hc
    apply h.add
    constructor
    · simp [TypeBinding.Proper]
    · intro part hpart
      obtain rfl : part = component := by simpa [TypeBinding.parts] using hpart
      exact known_of_type? hc
    · exact h.object_link rfl rfl rfl
    · simp
    · simp
    · intro _ id d hd hsame
      have hfound := eq_false_of_findIdx? hnone hd
      simp [hsame.2.2] at hfound
  · exact h

end TypeStore
end EnhancedFor
