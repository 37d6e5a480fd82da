import EnhancedFor.Types.Supertype

/-!
Look-ups in a type store. They fail for what the store lacks and for nothing else; what an entry of
a closed store refers to is never lacking.
-/

namespace EnhancedFor

namespace TypeBinding

/-- What the identity of a type rests on: the declaration behind it, its arguments, its
component. -/
def parts (b : TypeBinding) : List TypeId :=
  b.erasure.toList ++ b.typeArguments ++ b.component.toList

/-- The other types that an entry refers to. -/
def links (b : TypeBinding) : List TypeId := b.typeParameters ++ b.supertypes

variable {b : TypeBinding} {id : TypeId}

theorem mem_parts_of_erasure (h : b.erasure = some id) : id ∈ b.parts :=
  List.mem_append_left _ (List.mem_append_left _ (Option.mem_toList.2 h))

theorem mem_parts_of_argument (h : id ∈ b.typeArguments) : id ∈ b.parts :=
  List.mem_append_left _ (List.mem_append_right _ h)

theorem mem_parts_of_component (h : b.component = some id) : id ∈ b.parts :=
  List.mem_append_right _ (Option.mem_toList.2 h)

end TypeBinding

namespace TypeStore

variable {store : TypeStore}

theorem type_eq_ok {id : TypeId} {b : TypeBinding} :
    store.type id = .ok b ↔ store.type? id = some b := by
  unfold type
  cases store.type? id <;> simp

theorem var_eq_ok {id : VarId} {v : VariableBinding} :
    store.var id = .ok v ↔ store.var? id = some v := by
  unfold var
  cases store.var? id <;> simp

theorem require_eq_ok {bindings : List Binding} :
    store.require bindings = .ok () ↔ ∀ b ∈ bindings, store.knows b = true := by
  rw [← List.all_eq_true, require]
  split <;> simp_all

theorem exists_type {id : TypeId} (h : store.knows (.type id) = true) :
    ∃ b, store.type? id = some b :=
  Option.isSome_iff_exists.1 h

theorem exists_var {id : VarId} (h : store.knows (.var id) = true) :
    ∃ v, store.var? id = some v :=
  Option.isSome_iff_exists.1 h

theorem knows_type {id : TypeId} {b : TypeBinding} (h : store.type? id = some b) :
    store.knows (.type id) = true := by
  simp [knows, h]

/-- The types that an entry refers to are in the store. -/
structure Closed (store : TypeStore) : Prop where
  object_known : store.knows (.type object) = true
  types_known : ∀ id b, store.type? id = some b →
    ∀ other ∈ b.parts ++ b.links, store.knows (.type other) = true
  methods_known : ∀ id m, store.method? id = some m →
    ∀ type ∈ m.declaringType :: m.returnType.toList, store.knows (.type type) = true
  vars_known : ∀ id v, store.var? id = some v →
    ∀ type ∈ v.type, store.knows (.type type) = true

/-- It is enough to look at the tables. -/
theorem closed_of_all (ho : store.knows (.type object) = true)
    (ht : ∀ b ∈ store.types.toList, ∀ other ∈ b.parts ++ b.links,
      store.knows (.type other) = true)
    (hm : ∀ m ∈ store.methods.toList, ∀ type ∈ m.declaringType :: m.returnType.toList,
      store.knows (.type type) = true)
    (hv : ∀ v ∈ store.vars.toList, ∀ type ∈ v.type, store.knows (.type type) = true) :
    store.Closed where
  object_known := ho
  types_known _ b hb := ht b (Array.mem_toList_iff.2 (Array.mem_of_getElem? hb))
  methods_known _ m hm' := hm m (Array.mem_toList_iff.2 (Array.mem_of_getElem? hm'))
  vars_known _ v hv' := hv v (Array.mem_toList_iff.2 (Array.mem_of_getElem? hv'))

namespace Closed

variable (h : store.Closed)

include h

theorem part_known {id part : TypeId} {b : TypeBinding} (hb : store.type? id = some b)
    (hpart : part ∈ b.parts) : store.knows (.type part) = true :=
  h.types_known id b hb part (List.mem_append_left _ hpart)

theorem firstTypeArgument_known {id arg : TypeId} (harg : store.firstTypeArgument? id = some arg) :
    store.knows (.type arg) = true := by
  obtain ⟨b, hb, hhead⟩ := Option.bind_eq_some_iff.1 harg
  exact h.part_known hb (TypeBinding.mem_parts_of_argument (List.mem_of_head? hhead))

theorem mentionLookupsWithin_known {id : TypeId} (hid : store.knows (.type id) = true) {b : Binding}
    {depth : Nat} (hb : b ∈ store.mentionLookupsWithin depth id) : store.knows b = true := by
  induction depth generalizing id with
  | zero => exact (List.not_mem_nil hb).elim
  | succ depth ih =>
    obtain ⟨entry, hentry⟩ := exists_type hid
    -- The parts of the entry are in the store again.
    have hparts {part : TypeId} (hpart : part ∈ entry.parts)
        (hb : b ∈ store.mentionLookupsWithin depth part) : store.knows b = true :=
      ih (h.part_known hentry hpart) hb
    rw [mentionLookupsWithin] at hb
    rcases List.mem_cons.1 hb with rfl | hb
    · exact hid
    simp only [hentry] at hb
    split at hb
    · exact (List.not_mem_nil hb).elim
    · exact (List.not_mem_nil hb).elim
    · obtain ⟨component, hc, hb⟩ := List.mem_flatMap.1 hb
      exact hparts (TypeBinding.mem_parts_of_component (Option.mem_toList.1 hc)) hb
    all_goals
      rcases List.mem_cons.1 hb with rfl | hb
      · cases herasure : entry.erasure with
        | none => exact hid
        | some decl => exact h.part_known hentry (TypeBinding.mem_parts_of_erasure herasure)
      · obtain ⟨arg, harg, hb⟩ := List.mem_flatMap.1 hb
        exact hparts (TypeBinding.mem_parts_of_argument harg) hb

theorem mentionLookups_known {id : TypeId} (hid : store.knows (.type id) = true) {b : Binding}
    (hb : b ∈ store.mentionLookups id) : store.knows b = true :=
  h.mentionLookupsWithin_known hid hb

end Closed
end TypeStore
end EnhancedFor
