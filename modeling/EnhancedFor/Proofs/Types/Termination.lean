import EnhancedFor.Proofs.Types.Hierarchy

/-!
Parameterisation ends. Making `G<A>` makes the types that the declared supertypes of `G` mention
with arguments, and then theirs; a type that mentions itself is found, since it is entered first.
Main statement: where mentions lead back to no declaration, other than to a declaration with its own
type parameters, every parameterisation ends within the nested steps that are allowed.
-/

namespace EnhancedFor
namespace TypeStore

open Relation

variable {store base grown : TypeStore} {generic type : TypeId} {args : List TypeId}
  {decl b : TypeBinding} {steps depth : Nat} {replaced : List (TypeId × TypeId)}

/-- A type argument of a type. -/
def Argument (store : TypeStore) (type arg : TypeId) : Prop :=
  ∃ b, store.type? type = some b ∧ arg ∈ b.typeArguments

/-- The type stands in a declared superclass or interface, at some depth of type arguments. -/
def StandsIn (store : TypeStore) (generic type : TypeId) : Prop :=
  ∃ declared, store.Supertype generic declared ∧ ReflTransGen store.Argument declared type

/-- A type made from the declaration `other` stands in the declared supertypes of `generic`, and it
is not `generic` with exactly its own type parameters in order. A declaration that is mentioned
without arguments stays as it is, so such mentions do not count. -/
def Uses (store : TypeStore) (generic other : TypeId) : Prop :=
  ∃ type b, store.StandsIn generic type ∧ store.type? type = some b ∧ b.erasure = some other ∧
    ¬ (other = generic ∧ b.typeArguments = store.typeParameters generic)

theorem StandsIn.argument {arg : TypeId} (h : store.StandsIn generic type)
    (hb : store.type? type = some b) (harg : arg ∈ b.typeArguments) :
    store.StandsIn generic arg := by
  obtain ⟨declared, hdeclared, hpath⟩ := h
  exact ⟨declared, hdeclared, hpath.tail ⟨b, hb, harg⟩⟩

theorem Sound.argument_lt (hs : store.Sound) (hb : store.type? type = some b) {arg : TypeId}
    (harg : arg ∈ b.typeArguments) : arg.index < type.index :=
  hs.parts_lt type b hb arg (by simp [TypeBinding.parts, harg])

theorem Sound.known_of_standsIn (hs : store.Sound) (h : store.StandsIn generic type) :
    store.Known type := by
  obtain ⟨declared, ⟨b, hb, hmem⟩, hpath⟩ := h
  induction hpath with
  | refl => exact hs.supertypes_known hb declared hmem
  | tail _ harg ih =>
    obtain ⟨c, hc, harg⟩ := harg
    exact Nat.lt_trans (hs.argument_lt hc harg) ih

/-- What comes in place of a type that is replaced or stays. -/
def replacing (replaced : List (TypeId × TypeId)) (id : TypeId) : TypeId :=
  (replaced.lookup id).getD id

/-- Type parameters are replaced one by one, without new types. -/
theorem mapWith_params {params : List TypeId} (h : ∀ param ∈ params, store.Bare param) :
    mapWith (substituteWithin (depth + 1) replaced) store params =
      some (store, params.map (replacing replaced)) := by
  induction params with
  | nil => rfl
  | cons param params ih =>
    obtain ⟨⟨b, hb, hparts⟩, hrest⟩ := List.forall_mem_cons.1 h
    have herasure : b.erasure = none := by
      cases herasure : b.erasure with
      | none => rfl
      | some generic => simp [TypeBinding.parts, herasure] at hparts
    have hparam : substituteWithin (depth + 1) replaced store param =
        some (store, replacing replaced param) := by
      rw [substituteWithin, replacing]
      cases replaced.lookup param with
      | some arg => rfl
      | none => simp [hb, herasure]
    rw [mapWith, hparam]
    simp [ih hrest]

/-- Parameters that are replaced by the values of a function are replaced by those values. -/
theorem map_replacing_zip_map (params : List TypeId) (f : TypeId → TypeId) :
    params.map (replacing (params.zip (params.map f))) = params.map f := by
  have hlookup (param : TypeId) (hparam : param ∈ params) :
      (params.zip (params.map f)).lookup param = some (f param) := by
    induction params with
    | nil => exact (List.not_mem_nil hparam).elim
    | cons first params ih =>
      rw [List.map_cons, List.zip_cons_cons, List.lookup_cons]
      by_cases hfirst : param = first
      · rw [hfirst, beq_self_eq_true]
      · rw [beq_false_of_ne hfirst]
        exact ih ((List.mem_cons.1 hparam).resolve_left hfirst)
  apply List.map_congr_left
  intro param hparam
  rw [replacing, hlookup param hparam, Option.getD_some]

/-- So many nested steps make the declaration with any arguments, in every store that the given one
grows to. -/
def MadeWithin (store : TypeStore) (steps : Nat) (generic : TypeId) : Prop :=
  ∀ {grown : TypeStore} {args : List TypeId} {depth : Nat}, store.GrowsTo grown → args ≠ [] →
    (∀ arg ∈ args, grown.Known arg) → steps ≤ depth →
    ∃ made, parameterizeWithin depth grown generic args = some made

/-- Substitutions in a list end if each of them ends wherever it starts. -/
theorem mapWith_ends {types : List TypeId} (hr : ∀ r ∈ replaced, base.Known r.2)
    (h : ∀ type ∈ types, ∀ grown, base.GrowsTo grown →
      ∃ made, substituteWithin depth replaced grown type = some made) (hg : base.GrowsTo grown) :
    ∃ s ids, mapWith (substituteWithin depth replaced) grown types = some (s, ids) ∧
      base.GrowsTo s := by
  induction types generalizing grown with
  | nil => exact ⟨grown, [], rfl, hg⟩
  | cons type types ih =>
    obtain ⟨hfirst, hrest⟩ := List.forall_mem_cons.1 h
    obtain ⟨⟨s, id⟩, hid⟩ := hfirst grown hg
    have hgrown := (parameterizes_and_substitutes depth).2 hg.1
      (fun r hmem => hg.2.known (hr r hmem)) hid
    obtain ⟨t, ids, hids, ht⟩ := ih hrest (hg.trans hgrown.1)
    exact ⟨t, id :: ids, by simp [mapWith, hid, hids], ht⟩

/-- Substitutions in the supertypes of a declaration end if the declarations that they mention can
be made, and the declaration itself with its own parameters replaced. -/
theorem Sound.substitute_ends (hs : store.Sound) (hdecl : store.type? generic = some decl)
    (hbase : store.GrowsTo base) (hr : ∀ r ∈ replaced, base.Known r.2)
    (hused : ∀ other, store.Uses generic other → store.MadeWithin steps other)
    (hself : ∀ {grown : TypeStore} {depth : Nat}, base.GrowsTo grown →
      decl.typeParameters.map (replacing replaced) ≠ [] →
      (∀ arg ∈ decl.typeParameters.map (replacing replaced), grown.Known arg) → steps ≤ depth →
      ∃ made, parameterizeWithin depth grown generic
        (decl.typeParameters.map (replacing replaced)) = some made)
    (hg : base.GrowsTo grown) (htype : store.StandsIn generic type)
    (hdepth : steps + type.index < depth) :
    ∃ made, substituteWithin depth replaced grown type = some made := by
  -- Arguments stand earlier in the table than the types they are for.
  induction hindex : type.index using Nat.strong_induction_on generalizing type grown depth with
  | _ index ih =>
    subst hindex
    obtain ⟨depth, rfl⟩ : ∃ d, depth = d + 1 := ⟨depth - 1, by omega⟩
    obtain ⟨b, hb⟩ := known_iff.1 (hs.known_of_standsIn htype)
    have hgrown := (hbase.trans hg).2 type b hb
    rw [substituteWithin]
    cases replaced.lookup type with
    | some arg => exact ⟨_, rfl⟩
    | none =>
      simp only [hgrown, Option.bind_eq_bind, Option.bind_some]
      split
      · rename_i other hother hparameterized
        obtain ⟨s, args, hmap, hs'⟩ : ∃ s args,
            mapWith (substituteWithin depth replaced) grown b.typeArguments = some (s, args) ∧
              base.GrowsTo s := by
          apply mapWith_ends hr _ hg
          intro arg harg grown hg
          have hlt := hs.argument_lt hb harg
          exact ih arg.index hlt hg (htype.argument hb harg) (by omega) rfl
        obtain ⟨-, hknown, hlength⟩ :=
          SubstitutesSoundly.mapWith (parameterizes_and_substitutes depth).2 hg.1
            (fun r hmem => hg.2.known (hr r hmem)) hmap
        have hne : b.typeArguments ≠ [] := by
          simpa [TypeBinding.isParameterized] using hparameterized
        have hargs : args ≠ [] := by
          rintro rfl
          exact hne (List.length_eq_zero_iff.1 hlength.symm)
        rw [hmap, Option.bind_some]
        dsimp only
        by_cases hown : other = generic ∧ b.typeArguments = store.typeParameters generic
        · obtain ⟨rfl, hown⟩ := hown
          have hparams : b.typeArguments = decl.typeParameters := by
            rw [hown, typeParameters, hdecl]
            rfl
          obtain ⟨depth, rfl⟩ : ∃ d, depth = d + 1 := by
            obtain ⟨arg, harg⟩ := List.exists_mem_of_ne_nil _ hne
            have hlt := hs.argument_lt hb harg
            exact ⟨depth - 1, by omega⟩
          have hbare : ∀ param ∈ decl.typeParameters, grown.Bare param := fun param hparam =>
            (hbase.trans hg).2.bare (hs.params_bare other decl hdecl param hparam)
          rw [hparams, mapWith_params hbare] at hmap
          obtain ⟨rfl, rfl⟩ := Prod.mk.inj (Option.some.inj hmap)
          exact hself hg hargs hknown (by omega)
        · exact hused other ⟨type, b, htype, hb, hother, hown⟩ (hbase.trans hs') hargs hknown
            (by omega)
      · exact ⟨_, rfl⟩

/-- A parameterisation ends if the declarations that the supertypes mention can be made, and the
declaration itself with its own parameters replaced, once the new type is entered. -/
theorem Sound.parameterize_ends_of (hs : store.Sound) (hdecl : store.type? generic = some decl)
    (hbare : decl.erasure = none)
    (hused : ∀ other, store.Uses generic other → store.MadeWithin steps other)
    (hg : store.GrowsTo grown) (hargs : args ≠ []) (hknown : ∀ arg ∈ args, grown.Known arg)
    (hself : ∀ {base : TypeStore} {depth : Nat} {id : TypeId} {b : TypeBinding},
      store.GrowsTo base → base.type? id = some b → b.erasure = some generic →
      b.typeArguments = args →
      decl.typeParameters.map (replacing (decl.typeParameters.zip args)) ≠ [] →
      (∀ arg ∈ decl.typeParameters.map (replacing (decl.typeParameters.zip args)), base.Known arg) →
      steps ≤ depth → ∃ made, parameterizeWithin depth base generic
        (decl.typeParameters.map (replacing (decl.typeParameters.zip args))) = some made)
    (hdepth : steps + store.size < depth) :
    ∃ made, parameterizeWithin depth grown generic args = some made := by
  obtain ⟨depth, rfl⟩ : ∃ d, depth = d + 1 := ⟨depth - 1, by omega⟩
  have hdecl' := hg.2 generic decl hdecl
  rw [parameterizeWithin]
  simp only [hdecl', Option.bind_eq_bind, Option.bind_some]
  cases hfound : grown.findParameterized? generic args with
  | some id => exact ⟨_, rfl⟩
  | none =>
    have hentered : grown.GrowsTo (grown.add (grown.parameterizedBinding generic decl args)).1 :=
      ⟨hg.1.add (admits_parameterizedBinding hdecl' hbare hargs hknown hfound), extends_add _ _⟩
    have hbase := hg.trans hentered
    have hr : ∀ r ∈ decl.typeParameters.zip args,
        (grown.add (grown.parameterizedBinding generic decl args)).1.Known r.2 :=
      fun r hmem => hentered.2.known (hknown r.2 (List.of_mem_zip hmem).2)
    have hentry := type?_add_size grown (grown.parameterizedBinding generic decl args)
    have hends {declared : TypeId} (hdeclared : declared ∈ decl.supertypes) {grown' : TypeStore}
        (hg' : (grown.add (grown.parameterizedBinding generic decl args)).1.GrowsTo grown') :
        ∃ made, substituteWithin depth (decl.typeParameters.zip args) grown' declared =
          some made := by
      have hindex : declared.index < store.size := hs.supertypes_known hdecl declared hdeclared
      refine hs.substitute_ends hdecl hbase hr hused (fun hg'' => ?_) hg'
        ⟨declared, ⟨decl, hdecl, hdeclared⟩, .refl⟩ (by omega)
      exact hself (hbase.trans hg'') (hg''.2 _ _ hentry) rfl rfl
    obtain ⟨s, superclass, hsuper, hgs⟩ := mapWith_ends hr
      (fun declared hmem _ => hends (List.mem_append_left _ hmem)) (.refl hentered.1)
    obtain ⟨t, interfaces, hfaces, -⟩ := mapWith_ends hr
      (fun declared hmem _ => hends (List.mem_append_right _ hmem)) hgs
    simp only [hsuper, hfaces, Option.bind_some]
    exact ⟨_, rfl⟩

/-- A declaration can be made if those can that its supertypes mention. A call with any arguments
may ask for the declaration with its own parameters replaced; that call asks for nothing but
itself. -/
theorem Sound.madeWithin_of_uses (hs : store.Sound) (hdecl : store.type? generic = some decl)
    (hbare : decl.erasure = none) (hsteps : 0 < steps)
    (hused : ∀ other, store.Uses generic other → store.MadeWithin steps other) :
    store.MadeWithin (steps + 2 * (store.size + 1)) generic := by
  have hclosed (f : TypeId → TypeId) {grown : TypeStore} {depth : Nat} (hg : store.GrowsTo grown)
      (hargs : decl.typeParameters.map f ≠ [])
      (hknown : ∀ arg ∈ decl.typeParameters.map f, grown.Known arg)
      (hdepth : steps + store.size < depth) :
      ∃ made, parameterizeWithin depth grown generic (decl.typeParameters.map f) = some made := by
    refine hs.parameterize_ends_of hdecl hbare hused hg hargs hknown ?_ hdepth
    intro base depth id b hbase hb herasure hown _ _ hle
    obtain ⟨depth, rfl⟩ : ∃ d, depth = d + 1 := ⟨depth - 1, by omega⟩
    have hfound := hbase.1.findParameterized?_eq hb herasure
    rw [map_replacing_zip_map, ← hown, parameterizeWithin]
    simp [hbase.2 generic decl hdecl, hfound]
  intro grown args depth hg hargs hknown hdepth
  have hmore : ∀ other, store.Uses generic other →
      store.MadeWithin (steps + store.size + 1) other := by
    intro other hother grown args depth hg hargs hknown hdepth
    exact hused other hother hg hargs hknown (by omega)
  refine hs.parameterize_ends_of hdecl hbare hmore hg hargs hknown ?_ (by omega)
  intro base depth id b hbase _ _ _ hne hall hle
  exact hclosed _ hbase hne hall (by omega)

theorem Uses.known {other : TypeId} (h : store.Uses generic other) : store.Known generic := by
  obtain ⟨type, b, ⟨declared, hdeclared, -⟩, -⟩ := h
  exact hdeclared.known

/-- The levels of declarations that mention each other, times the levels of their supertypes. -/
theorem Sound.madeWithin (hs : store.Sound) (ha : Acyclic store.Uses)
    (hdecl : store.type? generic = some decl) (hbare : decl.erasure = none) {n : Nat}
    (hn : store.height store.Uses generic < n) :
    store.MadeWithin (1 + 2 * (store.size + 1) * n) generic := by
  induction n generalizing generic decl with
  | zero => omega
  | succ n ih =>
    have hmade : store.MadeWithin (1 + 2 * (store.size + 1) * n + 2 * (store.size + 1))
        generic := by
      apply hs.madeWithin_of_uses hdecl hbare (by omega)
      intro other hother grown args depth
      have hfalls := ha.height_lt hother.known hother
      obtain ⟨type, b, -, hb, herasure, -⟩ := hother
      obtain ⟨otherDecl, hotherDecl, hotherBare⟩ := hs.erasure_bare type b hb other herasure
      exact ih hotherDecl hotherBare (by omega)
    rwa [Nat.add_assoc, ← Nat.mul_succ] at hmade

/-- In every store that can be built, if mentions in declared supertypes lead back to no
declaration, other than to a declaration with exactly its own type parameters, then parameterising
any type with any arguments ends and gives a type. -/
theorem Reachable.parameterize_ends (h : store.Reachable) (ha : Acyclic store.Uses)
    (hg : store.Known generic) (hargs : ∀ arg ∈ args, store.Known arg) :
    ∃ made, store.parameterize generic args = .ok made := by
  have hs := h.sound
  obtain ⟨decl, hdecl, hbare⟩ := hs.exists_declaration hg
  unfold TypeStore.parameterize
  split
  · exact ⟨_, rfl⟩
  · rename_i hne
    have hlimit : 1 + 2 * (store.size + 1) * (store.size + 1) ≤ store.depthLimit := by
      unfold depthLimit
      rw [Nat.mul_assoc, Nat.mul_assoc]
      omega
    obtain ⟨made, hmade⟩ := hs.madeWithin ha hdecl hbare (Nat.lt_succ_of_le height_le_size)
      (.refl hs) (by simpa using hne) hargs hlimit
    rw [hmade]
    exact ⟨made, rfl⟩

end TypeStore

namespace Nodes

open TypeStore Relation

/-- The only use: an interface of `Node<E>` is made from `Iterable`. It mentions `Node<E>` as well,
but that is `Node` with its own type parameter. -/
theorem uses_related {generic other : TypeId} (h : related.Uses generic other) :
    generic = ⟨3⟩ ∧ other = ⟨1⟩ := by
  obtain ⟨type, b, ⟨declared, ⟨c, hc, hdeclared⟩, hpath⟩, hb, herasure, hown⟩ := h
  have hentry {id : TypeId} {b : TypeBinding} (hb : related.type? id = some b) :
      (b, id.index) ∈ related.types.toList.zipIdx := by
    rw [List.mk_mem_zipIdx_iff_getElem?, Array.getElem?_toList]
    exact hb
  have hsupertypes : ∀ entry ∈ related.types.toList.zipIdx, ∀ declared ∈ entry.1.supertypes,
      entry.2 = 3 ∨ declared = object := by decide
  have herasures : ∀ entry ∈ related.types.toList.zipIdx, entry.1.erasure = none ∨
      entry.1.erasure = some ⟨1⟩ ∨
      entry.1.erasure = some ⟨3⟩ ∧ entry.1.typeArguments = related.typeParameters ⟨3⟩ := by decide
  rcases hsupertypes _ (hentry hc) declared hdeclared with hgeneric | rfl
  · obtain rfl : generic = ⟨3⟩ := congrArg TypeId.mk hgeneric
    refine ⟨rfl, ?_⟩
    rcases herasures _ (hentry hb) with hnone | hiterable | ⟨hnode, hargs⟩
    · exact absurd (herasure.symm.trans hnone) nofun
    · exact Option.some.inj (herasure.symm.trans hiterable)
    · exact absurd ⟨Option.some.inj (herasure.symm.trans hnode), hargs⟩ hown
  · -- `java.lang.Object` has no arguments and no declaration behind it.
    have hobject : related.type? object = some (.declared .classType objectName) := rfl
    rcases ReflTransGen.cases_head hpath with rfl | ⟨arg, ⟨c, hc, harg⟩, -⟩
    · obtain rfl := Option.some.inj (hobject.symm.trans hb)
      exact absurd herasure nofun
    · obtain rfl := Option.some.inj (hobject.symm.trans hc)
      exact absurd harg nofun

/-- `Node<String>`, whose interface mentions the type that is being made, is made. -/
theorem node_made : Acyclic related.Uses ∧ ∃ made, related.parameterize ⟨3⟩ [⟨5⟩] = .ok made := by
  have hacyclic : Acyclic related.Uses := by
    apply acyclic_of_rank TypeId.index
    intro id next h
    obtain ⟨rfl, rfl⟩ := uses_related h
    decide
  exact ⟨hacyclic, reachable_related.parameterize_ends hacyclic (by decide) (by decide)⟩

end Nodes
end EnhancedFor
