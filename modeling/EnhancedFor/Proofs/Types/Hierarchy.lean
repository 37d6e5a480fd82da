import Mathlib.Data.Finset.Card
import Mathlib.Logic.Relation
import EnhancedFor.Types.Supertype
import EnhancedFor.Proofs.Lists
import EnhancedFor.Proofs.Types.Interning

/-!
Relations between types that lead back to no type. In a table such a relation has a height, which
falls along its edges. Main statement: where superclasses and interfaces are such a relation, the
search for a supertype gives the first match in the pre-order enumeration of the supertypes.
-/

namespace EnhancedFor
namespace TypeStore

open Relation

variable {store : TypeStore} {r : TypeId → TypeId → Prop} {id next : TypeId} {b : TypeBinding}

/-- No type leads back to itself. -/
def Acyclic (r : TypeId → TypeId → Prop) : Prop := ∀ id, ¬ TransGen r id id

theorem acyclic_of_rank (rank : TypeId → Nat) (h : ∀ id next, r id next → rank next < rank id) :
    Acyclic r := by
  intro id hcycle
  have hfalls {start stop : TypeId} (hpath : TransGen r start stop) : rank stop < rank start := by
    induction hpath with
    | single hedge => exact h _ _ hedge
    | tail _ hedge ih => exact Nat.lt_trans (h _ _ hedge) ih
  exact Nat.lt_irrefl _ (hfalls hcycle)

section Height

open Classical in
/-- The types of the table that a type leads to, itself included. -/
noncomputable def reached (store : TypeStore) (r : TypeId → TypeId → Prop) (id : TypeId) :
    Finset Nat :=
  (Finset.range store.size).filter fun i => ReflTransGen r id ⟨i⟩

noncomputable def height (store : TypeStore) (r : TypeId → TypeId → Prop) (id : TypeId) : Nat :=
  (store.reached r id).card

theorem mem_reached {i : Nat} : i ∈ store.reached r id ↔
    i < store.size ∧ ReflTransGen r id ⟨i⟩ := by
  simp [reached]

theorem height_le_size : store.height r id ≤ store.size := by
  have hsub : store.reached r id ⊆ Finset.range store.size :=
    fun _ hi => Finset.mem_range.2 (mem_reached.1 hi).1
  have hle := Finset.card_le_card hsub
  rwa [Finset.card_range] at hle

/-- A type leads to all that the next one leads to, and to itself, where the next one cannot
lead. -/
theorem Acyclic.height_lt (h : Acyclic r) (hid : store.Known id) (hedge : r id next) :
    store.height r next < store.height r id := by
  apply Finset.card_lt_card
  constructor
  · intro i hi
    obtain ⟨hlt, hpath⟩ := mem_reached.1 hi
    exact mem_reached.2 ⟨hlt, .head hedge hpath⟩
  · intro hsub
    obtain ⟨-, hback⟩ := mem_reached.1 (hsub (mem_reached.2 ⟨hid, .refl⟩))
    exact h id (.head' hedge hback)

end Height

/-- The superclass of a type or one of its interfaces. -/
def Supertype (store : TypeStore) (id next : TypeId) : Prop :=
  ∃ b, store.type? id = some b ∧ next ∈ b.supertypes

/-- The supertypes that a search goes on to: none for arrays and primitives. -/
def expanded (store : TypeStore) (id : TypeId) : List TypeId :=
  match store.type? id with
  | some b => if b.isArray || b.isPrimitive then [] else b.supertypes
  | none => []

/-- A type that a search for the name stops at. -/
def matchesName (store : TypeStore) (name : String) (id : TypeId) : Bool :=
  match store.type? id with
  | some b => !(b.isArray || b.isPrimitive) && b.nameStartsWith name
  | none => false

theorem supertype_of_mem_expanded (h : next ∈ store.expanded id) : store.Supertype id next := by
  unfold expanded at h
  split at h
  · rename_i b hb
    split at h
    · exact (List.not_mem_nil h).elim
    · exact ⟨b, hb, h⟩
  · exact (List.not_mem_nil h).elim

theorem Supertype.known (h : store.Supertype id next) : store.Known id := by
  obtain ⟨b, hb, -⟩ := h
  exact known_of_type? hb

/-- The type, then the enumeration of its superclass, then those of its interfaces in order. -/
def lineage (store : TypeStore) (h : Acyclic store.Supertype) (id : TypeId) : List TypeId :=
  id :: (store.expanded id).attach.flatMap fun next => lineage store h next.1
termination_by store.height store.Supertype id
decreasing_by
  have hedge := supertype_of_mem_expanded next.2
  exact h.height_lt hedge.known hedge

variable {h : Acyclic store.Supertype}

theorem lineage_eq (id : TypeId) :
    store.lineage h id = id :: (store.expanded id).flatMap (store.lineage h) := by
  rw [lineage, List.flatMap_subtype fun _ _ => rfl, List.unattach_attach]

/-- The types that stand in the enumeration are those that expanded types lead to. -/
theorem mem_lineage {type : TypeId} : type ∈ store.lineage h id ↔
    ReflTransGen (fun id next => next ∈ store.expanded id) id type := by
  induction id using lineage.induct store h with
  | case1 id ih =>
    rw [lineage_eq, List.mem_cons, List.mem_flatMap]
    constructor
    · rintro (rfl | ⟨next, hnext, htype⟩)
      · exact .refl
      · exact .head hnext ((ih ⟨next, hnext⟩).1 htype)
    · intro hpath
      rcases ReflTransGen.cases_head hpath with rfl | ⟨next, hnext, hpath⟩
      · exact .inl rfl
      · exact .inr ⟨next, hnext, (ih ⟨next, hnext⟩).2 hpath⟩

/-- One level of the search. -/
theorem superTypeWithin_succ (name : String) (depth : Nat) (id : TypeId) :
    store.superTypeWithin name (depth + 1) id =
      if store.matchesName name id then some id
      else (store.expanded id).findSome? (store.superTypeWithin name depth) := by
  rw [superTypeWithin, matchesName, expanded]
  cases store.type? id with
  | none => rfl
  | some b =>
    rw [Option.bind_eq_bind, Option.bind_some]
    dsimp only
    by_cases hkind : (b.isArray || b.isPrimitive) = true
    · simp only [hkind, if_true, Bool.not_true, Bool.false_and, Bool.false_eq_true, if_false,
        List.findSome?_nil]
    · simp only [hkind, Bool.false_eq_true, if_false, Bool.not_false, Bool.true_and]

/-- A search to more levels than the height of the type finds the first match of the enumeration. -/
theorem superTypeWithin_eq_find? (name : String) {depth : Nat}
    (hdepth : store.height store.Supertype id < depth) :
    store.superTypeWithin name depth id = (store.lineage h id).find? (store.matchesName name) := by
  induction depth generalizing id with
  | zero => omega
  | succ depth ih =>
    rw [superTypeWithin_succ, lineage_eq, List.find?_cons]
    cases store.matchesName name id with
    | true => rfl
    | false =>
      simp only [Bool.false_eq_true, if_false]
      rw [List.find?_flatMap]
      apply findSome?_congr
      intro next hnext
      have hedge := supertype_of_mem_expanded hnext
      have hfalls := h.height_lt hedge.known hedge
      exact ih (by omega)

/-- The search for a supertype gives the first type of the enumeration that matches; it gives none
exactly if no type matches that expanded types lead to. -/
theorem superType?_eq_find?_lineage (h : Acyclic store.Supertype) (id : TypeId) (name : String) :
    store.superType? id name = (store.lineage h id).find? (store.matchesName name) ∧
    (store.superType? id name = none ↔ ∀ type,
      ReflTransGen (fun id next => next ∈ store.expanded id) id type →
        store.matchesName name type = false) := by
  have hfind : store.superType? id name = (store.lineage h id).find? (store.matchesName name) :=
    superTypeWithin_eq_find? name (Nat.lt_succ_of_le height_le_size)
  refine ⟨hfind, ?_⟩
  rw [hfind, List.find?_eq_none]
  constructor
  · intro hnone type hpath
    exact Bool.eq_false_iff.2 (hnone type (mem_lineage.2 hpath))
  · intro hnone type hmem
    exact Bool.eq_false_iff.1 (hnone type (mem_lineage.1 hmem))

end TypeStore

namespace Nodes

open TypeStore

/-- All supertypes are types without supertypes. -/
theorem acyclic_nodes : Acyclic nodes.Supertype := by
  have hall : ∀ b ∈ nodes.types.toList, ∀ next ∈ b.supertypes,
      (nodes.type? next).elim 0 (·.supertypes.length) < b.supertypes.length := by decide
  apply acyclic_of_rank fun id => (nodes.type? id).elim 0 (·.supertypes.length)
  rintro id next ⟨b, hb, hnext⟩
  rw [hb]
  exact hall b (Array.mem_toList_iff.2 (Array.mem_of_getElem? hb)) next hnext

/-- The superclass of `Node<String>` does not match, its interface does, and no supertype is a
list. -/
theorem node_iterable_found : ∃ h : Acyclic nodes.Supertype,
    (nodes.lineage h ⟨8⟩).find? (nodes.matchesName "java.lang.Iterable") = some ⟨9⟩ ∧
    ∀ type, Relation.ReflTransGen (fun id next => next ∈ nodes.expanded id) ⟨8⟩ type →
      nodes.matchesName "java.util.List" type = false := by
  refine ⟨acyclic_nodes, ?_, ?_⟩
  · rw [← (superType?_eq_find?_lineage acyclic_nodes ⟨8⟩ "java.lang.Iterable").1]
    decide
  · apply (superType?_eq_find?_lineage acyclic_nodes ⟨8⟩ "java.util.List").2.1
    decide

end Nodes
end EnhancedFor
