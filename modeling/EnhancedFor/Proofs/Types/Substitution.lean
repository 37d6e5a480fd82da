import EnhancedFor.Proofs.Types.Term

/-!
Supertypes of parameterised types as substituted terms. Making `G<A>` makes further types on the way
and may meet the type that is being made, but a term rests on parts only, which are there from the
beginning. Main statements: the supertypes of `G<A>` stand for those of `G` with the arguments in
place of the type parameters, except inside arrays, and a type parameter is left over exactly if it
occurs in an array.
-/

namespace EnhancedFor
namespace TypeStore

variable {store store' : TypeStore} {id type generic : TypeId} {args : List TypeId}
  {decl : TypeBinding} {depth : Nat} {replaced : List (TypeId × TypeId)}

theorem GrowsTo.term_eq (hg : store.GrowsTo store') (hs : store.Sound) (hid : store.Known id) :
    store'.term id = store.term id :=
  hg.2.keepsParts.term_eq hs hg.1 hid

theorem GrowsTo.map_term_eq (hg : store.GrowsTo store') (hs : store.Sound) {ids : List TypeId}
    (hids : ∀ id ∈ ids, store.Known id) : ids.map store'.term = ids.map store.term :=
  List.map_congr_left fun id hid => hg.term_eq hs (hids id hid)

/-- What comes of a parameterisation is an entry of the declaration with the arguments. -/
theorem Sound.type?_parameterizeWithin (hs : store.Sound) (hdecl : store.type? generic = some decl)
    (hbare : decl.erasure = none) (hargs : args ≠ []) (hknown : ∀ arg ∈ args, store.Known arg)
    (h : parameterizeWithin depth store generic args = some (store', id)) :
    ∃ b, store'.type? id = some b ∧ b.erasure = some generic ∧ b.typeArguments = args := by
  cases depth with
  | zero => simp [parameterizeWithin] at h
  | succ depth =>
    obtain ⟨found, hfound, ⟨hthere, rfl⟩ |
        ⟨hnew, rfl, s, superclass, t, interfaces, hsuper, hfaces, rfl⟩⟩ :=
      parameterizeWithin_cases h
    · exact exists_of_findParameterized? hthere
    · obtain rfl : found = decl := Option.some.inj (hfound.symm.trans hdecl)
      obtain ⟨-, hgrows, hgrows', -⟩ := SubstitutesSoundly.supertypes
        (parameterizes_and_substitutes depth).2 hs hdecl hbare hargs hknown hnew hsuper hfaces
      have hentry : t.type? ⟨store.size⟩ = some (store.parameterizedBinding generic found args) :=
        (hgrows.trans hgrows').2 _ _ (type?_add_size store _)
      refine ⟨{ store.parameterizedBinding generic found args with
        superclass := superclass.head?, interfaces }, ?_, rfl, rfl⟩
      rw [type?_update_self, hentry, Option.map_some]

theorem Sound.term_parameterizeWithin (hs : store.Sound) (hdecl : store.type? generic = some decl)
    (hbare : decl.erasure = none) (hargs : args ≠ []) (hknown : ∀ arg ∈ args, store.Known arg)
    (h : parameterizeWithin depth store generic args = some (store', id)) :
    store'.term id = .applied generic (args.map store.term) := by
  obtain ⟨hgrows, -⟩ := (parameterizes_and_substitutes depth).1 hs hdecl hbare hargs hknown h
  obtain ⟨b, hb, herasure, rfl⟩ := hs.type?_parameterizeWithin hdecl hbare hargs hknown h
  rw [hgrows.1.term_applied hb herasure, hgrows.map_term_eq hs hknown]

/-- The ids that are put in, as terms. -/
def replacedTerms (store : TypeStore) (replaced : List (TypeId × TypeId)) :
    List (TypeId × TypeTerm) :=
  replaced.map fun r => (r.1, store.term r.2)

theorem lookup_replacedTerms :
    (store.replacedTerms replaced).lookup id = (replaced.lookup id).map store.term := by
  induction replaced with
  | nil => rfl
  | cons r rest ih =>
    rw [replacedTerms, List.map_cons, List.lookup_cons, List.lookup_cons]
    cases id == r.1 with
    | true => rfl
    | false => exact ih

/-- Parameters that can be replaced in a store: declared types, each by a type that is there. -/
structure Replaces (store : TypeStore) (replaced : List (TypeId × TypeId)) : Prop where
  bare : ∀ r ∈ replaced, store.Bare r.1
  known : ∀ r ∈ replaced, store.Known r.2

theorem Replaces.grow (h : store.Replaces replaced) (hg : store.GrowsTo store') :
    store'.Replaces replaced :=
  ⟨fun r hr => hg.2.bare (h.bare r hr), fun r hr => hg.2.known (h.known r hr)⟩

theorem Replaces.replacedTerms_eq (h : store.Replaces replaced) (hg : store.GrowsTo store')
    (hs : store.Sound) : store'.replacedTerms replaced = store.replacedTerms replaced :=
  List.map_congr_left fun r hr => by rw [hg.term_eq hs (h.known r hr)]

/-- In so many nested steps a substitution gives the substituted term. -/
def SubstitutesTerms (depth : Nat) : Prop :=
  ∀ {store store' : TypeStore} {type id : TypeId} {replaced : List (TypeId × TypeId)},
    store.Sound → store.Replaces replaced →
    substituteWithin depth replaced store type = some (store', id) →
    store'.term id = (store.term type).replace .outsideArrays (store.replacedTerms replaced)

theorem SubstitutesTerms.mapWith (h : SubstitutesTerms depth) (hs : store.Sound)
    (hr : store.Replaces replaced) {types ids : List TypeId}
    (hknown : ∀ type ∈ types, store.Known type)
    (heq : TypeStore.mapWith (substituteWithin depth replaced) store types = some (store', ids)) :
    ids.map store'.term = types.map fun type =>
      (store.term type).replace .outsideArrays (store.replacedTerms replaced) := by
  induction types generalizing store ids with
  | nil =>
    obtain ⟨rfl, rfl⟩ := Prod.mk.inj (Option.some.inj heq)
    rfl
  | cons type types ih =>
    obtain ⟨s, id, rest, hid, hrest, rfl⟩ := mapWith_cons_cases heq
    obtain ⟨hgrows, hidKnown⟩ := (parameterizes_and_substitutes depth).2 hs hr.known hid
    obtain ⟨hgrows', -⟩ := SubstitutesSoundly.mapWith
      (parameterizes_and_substitutes depth).2 hgrows.1 (hr.grow hgrows).known hrest
    obtain ⟨-, htypes⟩ := List.forall_mem_cons.1 hknown
    have htail := ih hgrows.1 (hr.grow hgrows)
      (fun type ht => hgrows.2.known (htypes type ht)) hrest
    rw [List.map_cons, List.map_cons, hgrows'.term_eq hgrows.1 hidKnown, h hs hr hid, htail,
      hr.replacedTerms_eq hgrows hs]
    congr 1
    exact List.map_congr_left fun type ht => by rw [hgrows.term_eq hs (htypes type ht)]

theorem SubstitutesTerms.succ (h : SubstitutesTerms depth) : SubstitutesTerms (depth + 1) := by
  intro store store' type id replaced hs hr heq
  rcases substituteWithin_cases heq with ⟨hfound, rfl⟩ |
    ⟨b, hb, hlookup, ⟨hplain, rfl, rfl⟩ | hmade⟩
  · obtain ⟨before, after, hreplaced, -⟩ := List.lookup_eq_some_iff.1 hfound
    have hbare := hr.bare (type, id) (by simp [hreplaced])
    rw [hs.term_bare hbare, TypeTerm.replace_declared, lookup_replacedTerms, hfound]
    rfl
  · -- Declared types that are no parameters stay, and so do arrays.
    have herasure : b.erasure = none := hplain.elim (fun h => h) (hs.proper id b hb).1.2
    rw [hs.term_eq hb, TypeBinding.term, herasure]
    cases b.component with
    | some component => rw [TypeTerm.replace_array_outside]
    | none =>
      rw [TypeTerm.replace_declared, lookup_replacedTerms, hlookup]
      rfl
  · obtain ⟨generic, s, args, herasure, hne, hmap, hmade⟩ := hmade
    obtain ⟨decl, hdecl, hbare⟩ := hs.erasure_bare type b hb generic herasure
    obtain ⟨hgrows, hknown, hlength⟩ :=
      SubstitutesSoundly.mapWith (parameterizes_and_substitutes depth).2 hs hr.known hmap
    have hargs : args ≠ [] := by
      rintro rfl
      exact hne (List.length_eq_zero_iff.1 hlength.symm)
    have harguments : ∀ arg ∈ b.typeArguments, store.Known arg := fun arg harg =>
      Nat.lt_trans (hs.parts_lt type b hb arg (by simp [TypeBinding.parts, harg]))
        (known_of_type? hb)
    rw [hgrows.1.term_parameterizeWithin (hgrows.2 generic decl hdecl) hbare hargs hknown hmade,
      h.mapWith hs hr harguments hmap, hs.term_applied hb herasure, TypeTerm.replace_applied,
      List.map_map]
    rfl

theorem substitutesTerms (depth : Nat) : SubstitutesTerms depth := by
  induction depth with
  | zero =>
    intro store store' type id replaced _ _ h
    simp [substituteWithin] at h
  | succ depth ih => exact SubstitutesTerms.succ ih

/-- A declaration whose type `generic<args>` is made: the arguments are there, and the type is not
yet. -/
structure Fresh (store : TypeStore) (generic : TypeId) (decl : TypeBinding) (args : List TypeId) :
    Prop where
  declared : store.type? generic = some decl
  bare : decl.erasure = none
  nonempty : args ≠ []
  length : args.length = decl.typeParameters.length
  known : ∀ arg ∈ args, store.Known arg
  fresh : ∀ id b, store.type? id = some b → ¬ (b.erasure = some generic ∧ b.typeArguments = args)

/-- The arguments in place of the type parameters of the declaration, as terms. -/
def argumentTerms (store : TypeStore) (decl : TypeBinding) (args : List TypeId) :
    List (TypeId × TypeTerm) :=
  decl.typeParameters.zip (args.map store.term)

/-- A type with the arguments in place of the type parameters. -/
def substituted (store : TypeStore) (reach : Reach) (decl : TypeBinding) (args : List TypeId)
    (type : TypeId) : TypeTerm :=
  (store.term type).replace reach (store.argumentTerms decl args)

theorem replacedTerms_zip :
    store.replacedTerms (decl.typeParameters.zip args) = store.argumentTerms decl args := by
  rw [replacedTerms, argumentTerms, List.zip_map_right]
  rfl

namespace Fresh

variable (h : store.Fresh generic decl args)

include h

theorem parameterizeWithin_eq (hmade : store.parameterize generic args = .ok (store', id)) :
    parameterizeWithin store.depthLimit store generic args = some (store', id) := by
  rcases parameterize_cases hmade with ⟨hnil, -, -⟩ | ⟨-, hmade⟩
  · exact (h.nonempty hnil).elim
  · rwa [declarationOf_of_erasure h.declared h.bare] at hmade

theorem replaces (hs : store.Sound) : store.Replaces (decl.typeParameters.zip args) where
  bare r hr := hs.params_bare generic decl h.declared r.1 (List.of_mem_zip hr).1
  known r hr := h.known r.2 (List.of_mem_zip hr).2

/-- The types that are made for the supertypes of the declaration, before they are set. -/
theorem map_term_supertypes (hs : store.Sound) {s t : TypeStore}
    {superclass interfaces : List TypeId}
    (hsuper : mapWith (substituteWithin depth (decl.typeParameters.zip args))
      (store.add (store.parameterizedBinding generic decl args)).1 decl.superclass.toList =
        some (s, superclass))
    (hfaces : mapWith (substituteWithin depth (decl.typeParameters.zip args)) s decl.interfaces =
      some (t, interfaces)) :
    superclass.map t.term =
        decl.superclass.toList.map (store.substituted .outsideArrays decl args) ∧
      interfaces.map t.term = decl.interfaces.map (store.substituted .outsideArrays decl args) := by
  obtain ⟨hentered, hgrows, hgrows', hsuperKnown, -⟩ :=
    SubstitutesSoundly.supertypes (parameterizes_and_substitutes depth).2 hs h.declared h.bare
      h.nonempty h.known (findParameterized?_eq_none_iff.2 h.fresh) hsuper hfaces
  have hreplaces := h.replaces hs
  have hdeclared := hs.supertypes_known h.declared
  have hclass : ∀ type ∈ decl.superclass.toList, store.Known type :=
    fun type ht => hdeclared type (List.mem_append_left _ ht)
  have hface : ∀ type ∈ decl.interfaces, store.Known type :=
    fun type ht => hdeclared type (List.mem_append_right _ ht)
  have hgrown := hentered.trans hgrows
  have hsubstituted (type : TypeId) : store.substituted .outsideArrays decl args type =
      (store.term type).replace .outsideArrays
        (store.replacedTerms (decl.typeParameters.zip args)) := by
    rw [substituted, replacedTerms_zip]
  constructor
  · rw [hgrows'.map_term_eq hgrows.1 hsuperKnown,
      SubstitutesTerms.mapWith (substitutesTerms depth) hentered.1 (hreplaces.grow hentered)
        (fun type ht => hentered.2.known (hclass type ht)) hsuper,
      hreplaces.replacedTerms_eq hentered hs]
    exact List.map_congr_left fun type ht => by
      rw [hentered.term_eq hs (hclass type ht), hsubstituted]
  · rw [SubstitutesTerms.mapWith (substitutesTerms depth) hgrows.1 (hreplaces.grow hgrown)
        (fun type ht => hgrown.2.known (hface type ht)) hfaces,
      hreplaces.replacedTerms_eq hgrown hs]
    exact List.map_congr_left fun type ht => by
      rw [hgrown.term_eq hs (hface type ht), hsubstituted]

/-- The new type has the substituted supertypes, and all entries that were there are unchanged. -/
theorem supertypes (hs : store.Sound) (hmade : store.parameterize generic args = .ok (store', id)) :
    store.Extends store' ∧ store.type? id = none ∧ ∃ b, store'.type? id = some b ∧
      b.erasure = some generic ∧ b.typeArguments = args ∧
      b.superclass.map store'.term =
        decl.superclass.map (store.substituted .outsideArrays decl args) ∧
      b.interfaces.map store'.term =
        decl.interfaces.map (store.substituted .outsideArrays decl args) := by
  have hwithin := h.parameterizeWithin_eq hmade
  obtain ⟨hgrown, -⟩ := (parameterizes_and_substitutes _).1 hs h.declared h.bare h.nonempty h.known
    hwithin
  cases hdepth : store.depthLimit with
  | zero => simp [hdepth, parameterizeWithin] at hwithin
  | succ depth =>
    rw [hdepth] at hwithin
    obtain ⟨found, hfound, ⟨hthere, -⟩ |
        ⟨hnew, rfl, s, superclass, t, interfaces, hsuper, hfaces, rfl⟩⟩ :=
      parameterizeWithin_cases hwithin
    · rw [findParameterized?_eq_none_iff.2 h.fresh] at hthere
      contradiction
    · obtain rfl : found = decl := Option.some.inj (hfound.symm.trans h.declared)
      obtain ⟨-, hgrows, hgrows', hsuperKnown, hfacesKnown⟩ :=
        SubstitutesSoundly.supertypes (parameterizes_and_substitutes depth).2 hs h.declared h.bare
          h.nonempty h.known hnew hsuper hfaces
      obtain ⟨hsuperTerms, hfaceTerms⟩ := h.map_term_supertypes hs hsuper hfaces
      have hentry : t.type? ⟨store.size⟩ = some (store.parameterizedBinding generic found args) :=
        (hgrows.trans hgrows').2 _ _ (type?_add_size store _)
      have hkept {type : TypeId} (ht : t.Known type) :=
        hgrows'.1.term_update hgrown.1 (fun b => ⟨rfl, rfl, rfl⟩) ht
      refine ⟨hgrown.2, by simp [type?, size], _,
        by rw [type?_update_self, hentry, Option.map_some], rfl, rfl, ?_, ?_⟩
      · calc superclass.head?.map _ = (superclass.map _).head? := (List.head?_map ..).symm
          _ = (superclass.map t.term).head? := by
            rw [List.map_congr_left fun type ht => hkept (hgrows'.2.known (hsuperKnown type ht))]
          _ = _ := by rw [hsuperTerms]; cases found.superclass <;> rfl
      · rw [← hfaceTerms]
        exact List.map_congr_left fun type ht => hkept (hfacesKnown type ht)

/-- All supertypes together. -/
theorem map_term_all (hs : store.Sound)
    (hmade : store.parameterize generic args = .ok (store', id)) : ∃ b, store'.type? id = some b ∧
      b.supertypes.map store'.term =
        decl.supertypes.map (store.substituted .outsideArrays decl args) := by
  obtain ⟨-, -, b, hb, -, -, hsuper, hfaces⟩ := h.supertypes hs hmade
  refine ⟨b, hb, ?_⟩
  simp only [TypeBinding.supertypes, List.map_append, hfaces, ← Option.toList_map, hsuper]

theorem lookup_argumentTerms {param : TypeId} (hparam : param ∈ decl.typeParameters) :
    (store.argumentTerms decl args).lookup param ≠ none := by
  intro hnone
  have hfst : (store.argumentTerms decl args).map (·.1) = decl.typeParameters :=
    List.map_fst_zip (Nat.le_of_eq (by rw [List.length_map, h.length]))
  rw [← hfst] at hparam
  obtain ⟨r, hr, rfl⟩ := List.mem_map.1 hparam
  simpa using List.lookup_eq_none_iff.1 hnone r hr

end Fresh

/-- A type that is made anew leaves all entries of the store as they are. If no array occurs in the
supertypes of its declaration, its own stand for them, in order, with the arguments in place of the
type parameters at every depth. -/
theorem Reachable.supertypes_substituted (h : store.Reachable)
    (hfresh : store.Fresh generic decl args)
    (harrays : ∀ type ∈ decl.supertypes, ¬ (store.term type).HasArray)
    (hmade : store.parameterize generic args = .ok (store', id)) :
    store.Extends store' ∧ store.type? id = none ∧ ∃ b, store'.type? id = some b ∧
      b.erasure = some generic ∧ b.typeArguments = args ∧
      b.superclass.map store'.term = decl.superclass.map (store.substituted .everywhere decl args) ∧
      b.interfaces.map store'.term =
        decl.interfaces.map (store.substituted .everywhere decl args) := by
  obtain ⟨hextends, hnew, b, hb, herasure, hargs, hsuper, hfaces⟩ := hfresh.supertypes h.sound hmade
  refine ⟨hextends, hnew, b, hb, herasure, hargs, ?_, ?_⟩
  · rw [hsuper]
    refine Option.map_congr fun type ht => TypeTerm.replace_of_not_hasArray (harrays type ?_)
    exact List.mem_append_left _ (Option.mem_toList.2 ht)
  · rw [hfaces]
    refine List.map_congr_left fun type ht => TypeTerm.replace_of_not_hasArray (harrays type ?_)
    exact List.mem_append_right _ ht

end TypeStore

namespace Nodes

open TypeStore

/-- The entry of `Node`. -/
def node : TypeBinding :=
  { TypeBinding.declared .classType "Node" with
    typeParameters := [⟨4⟩], superclass := some object, interfaces := [⟨7⟩] }

theorem fresh_node : related.Fresh ⟨3⟩ node [⟨5⟩] where
  declared := rfl
  bare := rfl
  nonempty := by decide
  length := rfl
  known := by decide
  fresh := findParameterized?_eq_none_iff.1 rfl

/-- The interface of `Node<String>` is `Iterable<Node<String>>`, though `Node<String>` is not
finished when the interface is made. -/
theorem node_interface_substituted : related.Fresh ⟨3⟩ node [⟨5⟩] ∧
    (∀ type ∈ node.supertypes, ¬ (related.term type).HasArray) ∧
    related.parameterize ⟨3⟩ [⟨5⟩] = .ok (nodes, ⟨8⟩) ∧ ∃ b, nodes.type? ⟨8⟩ = some b ∧
      b.interfaces.map nodes.term = [.applied ⟨1⟩ [.applied ⟨3⟩ [.declared ⟨5⟩]]] := by
  have harrays : ∀ type ∈ node.supertypes, ¬ (related.term type).HasArray := by
    have hobject : related.term object = .declared object := rfl
    have hface : related.term ⟨7⟩ = .applied ⟨1⟩ [.applied ⟨3⟩ [.declared ⟨4⟩]] := rfl
    simp [TypeBinding.supertypes, node, hobject, hface]
  obtain ⟨-, -, b, hb, -, -, -, hfaces⟩ :=
    reachable_related.supertypes_substituted fresh_node harrays parameterize_related
  exact ⟨fresh_node, harrays, parameterize_related, b, hb, hfaces⟩

end Nodes

namespace TypeStore

variable {store store' : TypeStore} {id generic param : TypeId} {args : List TypeId}
  {decl : TypeBinding}

/-- A type parameter of the declaration that occurs in no argument is left over in the supertypes of
a type that is made anew exactly if it occurs in an array in those of the declaration. -/
theorem Reachable.parameter_left_iff (h : store.Reachable) (hfresh : store.Fresh generic decl args)
    (hparam : param ∈ decl.typeParameters) (hfree : ∀ arg ∈ args, ¬ (store.term arg).Occurs param)
    (hmade : store.parameterize generic args = .ok (store', id)) :
    ∃ b, store'.type? id = some b ∧
      ((∃ type ∈ b.supertypes, (store'.term type).Occurs param) ↔
        ∃ type ∈ decl.supertypes, (store.term type).OccursInArray param) := by
  obtain ⟨b, hb, hterms⟩ := hfresh.map_term_all h.sound hmade
  have hfreeTerms : ∀ r ∈ store.argumentTerms decl args, ¬ r.2.Occurs param := by
    intro r hr
    obtain ⟨arg, harg, heq⟩ := List.mem_map.1 (List.of_mem_zip hr).2
    exact heq ▸ hfree arg harg
  have hleft (type : TypeId) : (store.substituted .outsideArrays decl args type).Occurs param ↔
      (store.term type).OccursInArray param :=
    TypeTerm.occurs_replace_iff (hfresh.lookup_argumentTerms hparam) hfreeTerms
  refine ⟨b, hb, ?_⟩
  calc (∃ type ∈ b.supertypes, (store'.term type).Occurs param)
      ↔ ∃ term ∈ b.supertypes.map store'.term, term.Occurs param := by simp
    _ ↔ ∃ type ∈ decl.supertypes, (store.term type).OccursInArray param := by
      rw [hterms]
      simp [hleft]

end TypeStore

namespace Nodes

open TypeStore

/-- Nothing is left of `E` in the supertypes of `Node<String>`. -/
theorem node_parameter_gone : related.Fresh ⟨3⟩ node [⟨5⟩] ∧ ⟨4⟩ ∈ node.typeParameters ∧
    (∀ arg ∈ [⟨5⟩], ¬ (related.term arg).Occurs ⟨4⟩) ∧
    related.parameterize ⟨3⟩ [⟨5⟩] = .ok (nodes, ⟨8⟩) ∧ ∃ b, nodes.type? ⟨8⟩ = some b ∧
      ∀ type ∈ b.supertypes, ¬ (nodes.term type).Occurs ⟨4⟩ := by
  have hparam : ⟨4⟩ ∈ node.typeParameters := by decide
  have hfree : ∀ arg ∈ [⟨5⟩], ¬ (related.term arg).Occurs ⟨4⟩ := by
    have hstring : related.term ⟨5⟩ = .declared ⟨5⟩ := rfl
    simp [hstring]
  have hobject : related.term object = .declared object := rfl
  have hface : related.term ⟨7⟩ = .applied ⟨1⟩ [.applied ⟨3⟩ [.declared ⟨4⟩]] := rfl
  obtain ⟨b, hb, hleft⟩ :=
    reachable_related.parameter_left_iff fresh_node hparam hfree parameterize_related
  refine ⟨fresh_node, hparam, hfree, parameterize_related, b, hb, fun type htype hoccurs => ?_⟩
  have hinside := hleft.1 ⟨type, htype, hoccurs⟩
  simp [TypeBinding.supertypes, node, hobject, hface] at hinside

end Nodes

namespace Rows

open TypeStore

/-- `Iterable<T>`, `Rows<E>` and `String`, not yet related to each other. -/
def declared : TypeStore :=
  (((initial.declareInterface "java.lang.Iterable" ["T"]).1.declareClass
    "Rows" ["E"]).1.declareClass "java.lang.String" []).1

def arrayBinding (component : TypeId) (qualified simple : String) : TypeBinding :=
  { kind := .array, qualifiedName := qualified ++ "[]", name := simple ++ "[]"
    superclass := some object, component := some component }

/-- Every `Rows<E>` is an `Iterable<E[]>`. -/
def related : TypeStore :=
  ((declared.add (arrayBinding ⟨4⟩ "E" "E")).1.add
    (Nodes.iterableOf ⟨6⟩ "E[]" "E[]")).1.addInterface ⟨3⟩ ⟨7⟩

/-- The entry of `Rows`. -/
def rows : TypeBinding :=
  { TypeBinding.declared .classType "Rows" with
    typeParameters := [⟨4⟩], superclass := some object, interfaces := [⟨7⟩] }

def rowsOfString : TypeBinding :=
  { kind := .classType, qualifiedName := "Rows<java.lang.String>", name := "Rows<String>"
    erasure := some ⟨3⟩, typeArguments := [⟨5⟩], superclass := some object, interfaces := [⟨7⟩] }

theorem reachable_related : related.Reachable := by
  have hdeclared : declared.Reachable :=
    ((Reachable.initial.declareInterface _ _).declareClass _ _).declareClass _ _
  have harray : (declared.arrayOf ⟨4⟩).1.Reachable := hdeclared.arrayOf (by decide)
  have hiterable : (declared.add (arrayBinding ⟨4⟩ "E" "E")).1.parameterize ⟨1⟩ [⟨6⟩] =
      .ok (((declared.add (arrayBinding ⟨4⟩ "E" "E")).1.add
        (Nodes.iterableOf ⟨6⟩ "E[]" "E[]")).1, ⟨7⟩) := by rfl
  exact (harray.of_parameterize (by decide) (by decide) hiterable).addInterface (by decide)
    (by decide)

/-- `Rows<String>` is an `Iterable<E[]>`: the type parameter of `Rows` is left over. -/
theorem parameter_left_in_array : related.Reachable ∧ related.Fresh ⟨3⟩ rows [⟨5⟩] ∧
    related.parameterize ⟨3⟩ [⟨5⟩] = .ok (related.add rowsOfString) ∧
    ⟨4⟩ ∈ rows.typeParameters ∧ ¬ (related.term ⟨5⟩).Occurs ⟨4⟩ ∧
    ⟨7⟩ ∈ rowsOfString.interfaces ∧ ((related.add rowsOfString).1.term ⟨7⟩).Occurs ⟨4⟩ := by
  have hfresh : related.Fresh ⟨3⟩ rows [⟨5⟩] :=
    ⟨rfl, rfl, by decide, rfl, by decide, findParameterized?_eq_none_iff.1 rfl⟩
  have hstring : related.term ⟨5⟩ = .declared ⟨5⟩ := rfl
  have hface : (related.add rowsOfString).1.term ⟨7⟩ = .applied ⟨1⟩ [.array (.declared ⟨4⟩)] := rfl
  refine ⟨reachable_related, hfresh, rfl, by decide, by simp [hstring], by decide, ?_⟩
  rw [hface]
  exact .argument (List.mem_singleton_self _) (.component .here)

end Rows
end EnhancedFor
