import EnhancedFor.Proofs.Types.Soundness

/-!
Parameterisation of sound stores. Main statement: making a type with arguments, and with it the
types that its supertypes mention, leaves all entries of a sound store as they are and gives a sound
store again.
-/

namespace EnhancedFor
namespace TypeStore

variable {store store' : TypeStore} {id : TypeId} {b : TypeBinding}

section Parameterisation

variable {generic : TypeId} {args : List TypeId} {decl : TypeBinding} {depth : Nat}
  {replaced : List (TypeId × TypeId)}

/-- The ways in which a parameterisation ends: the type is there already, or it is entered and then
gets the supertypes of the declaration with the arguments put in. -/
theorem parameterizeWithin_cases
    (h : parameterizeWithin (depth + 1) store generic args = some (store', id)) :
    ∃ decl, store.type? generic = some decl ∧
      ((store.findParameterized? generic args = some id ∧ store' = store) ∨
      (store.findParameterized? generic args = none ∧ id = ⟨store.size⟩ ∧
        ∃ s superclass t interfaces,
          mapWith (substituteWithin depth (decl.typeParameters.zip args))
            (store.add (store.parameterizedBinding generic decl args)).1 decl.superclass.toList =
              some (s, superclass) ∧
          mapWith (substituteWithin depth (decl.typeParameters.zip args)) s decl.interfaces =
            some (t, interfaces) ∧
          store' = t.update id fun b =>
            { b with superclass := superclass.head?, interfaces := interfaces })) := by
  rw [parameterizeWithin] at h
  obtain ⟨decl, hdecl, h⟩ := Option.bind_eq_some_iff.1 h
  refine ⟨decl, hdecl, ?_⟩
  split at h
  · rename_i hfound
    obtain ⟨rfl, rfl⟩ := Prod.mk.inj (Option.some.inj h)
    exact .inl ⟨hfound, rfl⟩
  · rename_i hnone
    obtain ⟨⟨s, superclass⟩, hs, h⟩ := Option.bind_eq_some_iff.1 h
    obtain ⟨⟨t, interfaces⟩, ht, h⟩ := Option.bind_eq_some_iff.1 h
    obtain ⟨rfl, rfl⟩ := Prod.mk.inj (Option.some.inj h)
    exact .inr ⟨hnone, rfl, s, superclass, t, interfaces, hs, ht, rfl⟩

/-- The ways in which a substitution ends: at a parameter, at a parameterised type, which is made
anew from its arguments, or at any other type, which stays. -/
theorem substituteWithin_cases {type : TypeId}
    (h : substituteWithin (depth + 1) replaced store type = some (store', id)) :
    (replaced.lookup type = some id ∧ store' = store) ∨
    ∃ b, store.type? type = some b ∧ replaced.lookup type = none ∧
      (((b.erasure = none ∨ b.typeArguments = []) ∧ store' = store ∧ id = type) ∨
      ∃ generic s args, b.erasure = some generic ∧ b.typeArguments ≠ [] ∧
        mapWith (substituteWithin depth replaced) store b.typeArguments = some (s, args) ∧
        parameterizeWithin depth s generic args = some (store', id)) := by
  rw [substituteWithin] at h
  split at h
  · rename_i hfound
    obtain ⟨rfl, rfl⟩ := Prod.mk.inj (Option.some.inj h)
    exact .inl ⟨hfound, rfl⟩
  · rename_i hlookup
    obtain ⟨b, hb, h⟩ := Option.bind_eq_some_iff.1 h
    refine .inr ⟨b, hb, hlookup, ?_⟩
    split at h
    · rename_i generic herasure hargs
      obtain ⟨⟨s, args⟩, hs, h⟩ := Option.bind_eq_some_iff.1 h
      refine .inr ⟨generic, s, args, herasure, ?_, hs, h⟩
      simpa [TypeBinding.isParameterized] using hargs
    · rename_i hother
      obtain ⟨rfl, rfl⟩ := Prod.mk.inj (Option.some.inj h)
      refine .inl ⟨?_, rfl, rfl⟩
      cases herasure : b.erasure with
      | none => exact .inl rfl
      | some generic =>
        have hargs : b.isParameterized ≠ true := fun hargs => hother generic herasure hargs
        exact .inr (by simpa [TypeBinding.isParameterized] using hargs)

/-- The second store is sound and has all entries of the first. -/
def GrowsTo (store store' : TypeStore) : Prop := store'.Sound ∧ store.Extends store'

theorem GrowsTo.refl (h : store.Sound) : store.GrowsTo store := ⟨h, .refl store⟩

theorem GrowsTo.trans {store'' : TypeStore} (h : store.GrowsTo store')
    (h' : store'.GrowsTo store'') : store.GrowsTo store'' := ⟨h'.1, h.2.trans h'.2⟩

/-- So many nested steps make parameterised types of a sound store into a sound store. -/
def ParameterizesSoundly (depth : Nat) : Prop :=
  ∀ {store store' : TypeStore} {generic id : TypeId} {decl : TypeBinding} {args : List TypeId},
    store.Sound → store.type? generic = some decl → decl.erasure = none → args ≠ [] →
    (∀ arg ∈ args, store.Known arg) →
    parameterizeWithin depth store generic args = some (store', id) →
    store.GrowsTo store' ∧ store'.Known id

/-- The same for substitutions. -/
def SubstitutesSoundly (depth : Nat) : Prop :=
  ∀ {store store' : TypeStore} {type id : TypeId} {replaced : List (TypeId × TypeId)},
    store.Sound → (∀ r ∈ replaced, store.Known r.2) →
    substituteWithin depth replaced store type = some (store', id) →
    store.GrowsTo store' ∧ store'.Known id

/-- A run of steps over a list takes the first step and then those for the rest. -/
theorem mapWith_cons_cases {step : TypeStore → TypeId → Option (TypeStore × TypeId)} {type : TypeId}
    {types ids : List TypeId} (h : mapWith step store (type :: types) = some (store', ids)) :
    ∃ s id rest, step store type = some (s, id) ∧ mapWith step s types = some (store', rest) ∧
      ids = id :: rest := by
  rw [mapWith] at h
  obtain ⟨⟨s, id⟩, hid, h⟩ := Option.bind_eq_some_iff.1 h
  obtain ⟨⟨t, rest⟩, hrest, h⟩ := Option.bind_eq_some_iff.1 h
  obtain ⟨rfl, rfl⟩ := Prod.mk.inj (Option.some.inj h)
  exact ⟨s, id, rest, hid, hrest, rfl⟩

theorem SubstitutesSoundly.mapWith (h : SubstitutesSoundly depth) (hs : store.Sound)
    (hr : ∀ r ∈ replaced, store.Known r.2) {types ids : List TypeId}
    (heq : TypeStore.mapWith (substituteWithin depth replaced) store types = some (store', ids)) :
    store.GrowsTo store' ∧ (∀ id ∈ ids, store'.Known id) ∧ ids.length = types.length := by
  induction types generalizing store ids with
  | nil =>
    obtain ⟨rfl, rfl⟩ := Prod.mk.inj (Option.some.inj heq)
    exact ⟨.refl hs, by simp, rfl⟩
  | cons type types ih =>
    obtain ⟨s, id, rest, hid, hrest, rfl⟩ := mapWith_cons_cases heq
    obtain ⟨hgrows, hknown⟩ := h hs hr hid
    obtain ⟨hgrows', hknown', hlength⟩ :=
      ih hgrows.1 (fun r hmem => hgrows.2.known (hr r hmem)) hrest
    refine ⟨hgrows.trans hgrows', ?_, by simp [hlength]⟩
    intro x hx
    rcases List.mem_cons.1 hx with rfl | hx
    · exact hgrows'.2.known hknown
    · exact hknown' x hx

/-- A type with its arguments may be entered if it is not there yet. -/
theorem admits_parameterizedBinding (hdecl : store.type? generic = some decl)
    (hbare : decl.erasure = none) (hargs : args ≠ []) (hknown : ∀ arg ∈ args, store.Known arg)
    (hnew : store.findParameterized? generic args = none) :
    store.Admits (store.parameterizedBinding generic decl args) := by
  constructor
  · simp [TypeBinding.Proper, parameterizedBinding, hargs]
  · intro part hpart
    have hcases : part = generic ∨ part ∈ args := by
      simpa [TypeBinding.parts, parameterizedBinding] using hpart
    rcases hcases with rfl | harg
    · exact known_of_type? hdecl
    · exact hknown part harg
  · simp [TypeBinding.links, TypeBinding.supertypes, parameterizedBinding]
  · simp [parameterizedBinding]
  · intro found hfound
    obtain rfl : generic = found := Option.some.inj hfound
    exact ⟨decl, hdecl, hbare⟩
  · intro _ id c hc hsame
    exact findParameterized?_eq_none_iff.1 hnew id c hc ⟨hsame.1, hsame.2.1⟩

/-- A type that is entered comes into a sound store, and so do the supertypes that are made for
it. -/
theorem SubstitutesSoundly.supertypes (h : SubstitutesSoundly depth) (hs : store.Sound)
    (hdecl : store.type? generic = some decl) (hbare : decl.erasure = none) (hargs : args ≠ [])
    (hknown : ∀ arg ∈ args, store.Known arg) (hnew : store.findParameterized? generic args = none)
    {s t : TypeStore} {superclass interfaces : List TypeId}
    (hsuper : TypeStore.mapWith (substituteWithin depth (decl.typeParameters.zip args))
      (store.add (store.parameterizedBinding generic decl args)).1 decl.superclass.toList =
        some (s, superclass))
    (hfaces : TypeStore.mapWith (substituteWithin depth (decl.typeParameters.zip args)) s
      decl.interfaces = some (t, interfaces)) :
    store.GrowsTo (store.add (store.parameterizedBinding generic decl args)).1 ∧
      (store.add (store.parameterizedBinding generic decl args)).1.GrowsTo s ∧ s.GrowsTo t ∧
      (∀ type ∈ superclass, s.Known type) ∧ ∀ type ∈ interfaces, t.Known type := by
  have hentered := hs.add (admits_parameterizedBinding hdecl hbare hargs hknown hnew)
  have hextends := extends_add store (store.parameterizedBinding generic decl args)
  have hreplaced : ∀ r ∈ decl.typeParameters.zip args,
      (store.add (store.parameterizedBinding generic decl args)).1.Known r.2 :=
    fun r hr => hextends.known (hknown r.2 (List.of_mem_zip hr).2)
  obtain ⟨hgrows, hsuperKnown, -⟩ := h.mapWith hentered hreplaced hsuper
  obtain ⟨hgrows', hfacesKnown, -⟩ := h.mapWith hgrows.1
    (fun r hr => hgrows.2.known (hreplaced r hr)) hfaces
  exact ⟨⟨hentered, hextends⟩, hgrows, hgrows', hsuperKnown, hfacesKnown⟩

theorem SubstitutesSoundly.parameterizes (h : SubstitutesSoundly depth) :
    ParameterizesSoundly (depth + 1) := by
  intro store store' generic id decl args hs hdecl hbare hargs hknown heq
  obtain ⟨found, hfound, ⟨hthere, rfl⟩ |
      ⟨hnew, rfl, s, superclass, t, interfaces, hsuper, hfaces, rfl⟩⟩ :=
    parameterizeWithin_cases heq
  · obtain ⟨b, hb, -⟩ := exists_of_findIdx? hthere
    exact ⟨.refl hs, known_of_type? hb⟩
  · obtain rfl : found = decl := Option.some.inj (hfound.symm.trans hdecl)
    obtain ⟨hentered, hgrows, hgrows', hsuperKnown, hfacesKnown⟩ :=
      h.supertypes hs hdecl hbare hargs hknown hnew hsuper hfaces
    have hall := (hentered.trans (hgrows.trans hgrows')).2
    refine ⟨⟨?_, ?_⟩, ?_⟩
    · apply hgrows'.1.update_supertypes
      · exact fun b => ⟨rfl, rfl, rfl⟩
      · exact fun b => rfl
      · intro b hb type htype
        rcases List.mem_append.1 htype with hclass | hface
        · exact hgrows'.2.known
            (hsuperKnown type (List.mem_of_mem_head? (Option.mem_toList.1 hclass)))
        · exact hfacesKnown type hface
    · -- The entry that the update changes was not in the store before.
      intro other b hb
      have hne : other ≠ ⟨store.size⟩ := by
        rintro rfl
        exact Nat.lt_irrefl _ (known_of_type? hb)
      rw [type?_update_of_ne hne]
      exact hall other b hb
    · apply known_update.2
      apply (hgrows.trans hgrows').2.known
      simp [Known]

theorem ParameterizesSoundly.substitutes (hp : ParameterizesSoundly depth)
    (h : SubstitutesSoundly depth) : SubstitutesSoundly (depth + 1) := by
  intro store store' type id replaced hs hr heq
  rcases substituteWithin_cases heq with ⟨hfound, rfl⟩ | ⟨b, hb, -, ⟨-, rfl, rfl⟩ | hmade⟩
  · obtain ⟨before, after, hreplaced, -⟩ := List.lookup_eq_some_iff.1 hfound
    exact ⟨.refl hs, hr (type, id) (by simp [hreplaced])⟩
  · exact ⟨.refl hs, known_of_type? hb⟩
  · obtain ⟨generic, s, args, herasure, hargs, hmap, hmade⟩ := hmade
    obtain ⟨decl, hdecl, hbare⟩ := hs.erasure_bare type b hb generic herasure
    obtain ⟨hgrows, hknown, hlength⟩ := h.mapWith hs hr hmap
    have hsome : args ≠ [] := by
      rintro rfl
      exact hargs (List.length_eq_zero_iff.1 hlength.symm)
    obtain ⟨hgrows', hid⟩ := hp hgrows.1 (hgrows.2 generic decl hdecl) hbare hsome hknown hmade
    exact ⟨hgrows.trans hgrows', hid⟩

/-- The two functions call each other with one step less. -/
theorem parameterizes_and_substitutes (depth : Nat) :
    ParameterizesSoundly depth ∧ SubstitutesSoundly depth := by
  induction depth with
  | zero =>
    constructor
    · intro store store' generic id decl args _ _ _ _ _ h
      simp [parameterizeWithin] at h
    · intro store store' type id replaced _ _ h
      simp [substituteWithin] at h
  | succ depth ih =>
    obtain ⟨hparameterizes, hsubstitutes⟩ := ih
    exact ⟨SubstitutesSoundly.parameterizes hsubstitutes,
      ParameterizesSoundly.substitutes hparameterizes hsubstitutes⟩

theorem declarationOf_of_erasure (hb : store.type? id = some b) (herasure : b.erasure = none) :
    store.declarationOf id = id := by
  simp [declarationOf, hb, herasure]

/-- The declaration behind a type has no other behind it. -/
theorem Sound.exists_declaration (hs : store.Sound) (hg : store.Known generic) :
    ∃ decl, store.type? (store.declarationOf generic) = some decl ∧ decl.erasure = none := by
  obtain ⟨b, hb⟩ := known_iff.1 hg
  cases herasure : b.erasure with
  | none => exact ⟨b, by rw [declarationOf_of_erasure hb herasure, hb], herasure⟩
  | some decl =>
    simpa [declarationOf, hb, herasure] using hs.erasure_bare generic b hb decl herasure

/-- However many nested steps it takes, a type with arguments is made into a sound store. -/
theorem Sound.growsTo_parameterizeWithin (hs : store.Sound) (hg : store.Known generic)
    (ha : ∀ arg ∈ args, store.Known arg) (hargs : args ≠ [])
    (h : parameterizeWithin depth store (store.declarationOf generic) args =
      some (store', id)) :
    store.GrowsTo store' ∧ store'.Known id := by
  obtain ⟨decl, hdecl, hbare⟩ := hs.exists_declaration hg
  exact (parameterizes_and_substitutes depth).1 hs hdecl hbare hargs ha h

/-- Without arguments a parameterisation gives the declaration. -/
theorem parameterize_cases (h : store.parameterize generic args = .ok (store', id)) :
    (args = [] ∧ store' = store ∧ id = store.declarationOf generic) ∨
      args ≠ [] ∧ parameterizeWithin store.depthLimit store (store.declarationOf generic) args =
        some (store', id) := by
  unfold TypeStore.parameterize at h
  split at h
  · rename_i hargs
    obtain ⟨rfl, rfl⟩ := Prod.mk.inj (Except.ok.inj h)
    exact .inl ⟨List.isEmpty_iff.1 hargs, rfl, rfl⟩
  · rename_i hargs
    split at h
    · rename_i r hr
      obtain rfl := Except.ok.inj h
      exact .inr ⟨by simpa using hargs, hr⟩
    · contradiction

end Parameterisation

end TypeStore
end EnhancedFor
