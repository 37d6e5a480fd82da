import Mathlib.Data.List.Nodup
import Mathlib.Data.List.Perm.Subperm
import Mathlib.Data.Nat.Find
import EnhancedFor.Loop.Imports

/-!
The declarations that a type mentions, at any depth of type arguments and array components. Main
statement: the list of them is exact for every store, since a declaration that can be found at all
is found along a chain without repetition.
-/

namespace EnhancedFor

/-- Classes and interfaces, the types that are declared. -/
def TypeKind.IsDeclared (kind : TypeKind) : Prop := kind = .classType ∨ kind = .interfaceType

namespace TypeStore

variable {store : TypeStore} {id decl : TypeId} {d : Nat}

/-- A type argument, or the component of an array. -/
inductive Part (store : TypeStore) (id : TypeId) : TypeId → Prop where
  | argument {b : TypeBinding} {arg : TypeId} (h : store.type? id = some b) (hk : b.kind.IsDeclared)
    (ha : arg ∈ b.typeArguments) : Part store id arg
  | component {b : TypeBinding} {component : TypeId} (h : store.type? id = some b)
    (hk : b.kind = .array) (hc : b.component = some component) : Part store id component

/-- The declaration that a class or an interface is made from. -/
def IsFrom (store : TypeStore) (id decl : TypeId) : Prop :=
  ∃ b, store.type? id = some b ∧ b.kind.IsDeclared ∧ b.erasure.getD id = decl

/-- The declaration occurs in the type. -/
inductive Mentions (store : TypeStore) : TypeId → TypeId → Prop where
  | here {id decl : TypeId} (h : store.IsFrom id decl) : Mentions store id decl
  | part {id part decl : TypeId} (hp : store.Part id part) (hm : Mentions store part decl) :
    Mentions store id decl

/-- The raw qualified name of a declaration that occurs in the type. -/
def MentionsName (store : TypeStore) (id : TypeId) (name : String) : Prop :=
  ∃ decl b, store.Mentions id decl ∧ store.type? decl = some b ∧ b.rawQualifiedName = name

theorem mem_occurring_succ : decl ∈ store.occurring (d + 1) id ↔
    store.IsFrom id decl ∨ ∃ part, store.Part id part ∧ decl ∈ store.occurring d part := by
  rw [occurring]
  constructor
  · intro h
    split at h
    · simp at h
    · rename_i b hb
      split at h
      · simp at h
      · simp at h
      · rename_i hkind
        obtain ⟨part, hpart, hdecl⟩ := List.mem_flatMap.1 h
        exact .inr ⟨part, .component hb hkind (Option.mem_toList.1 hpart), hdecl⟩
      all_goals
        rename_i hkind
        have hdeclared : b.kind.IsDeclared := by simp [TypeKind.IsDeclared, hkind]
        rcases List.mem_cons.1 h with rfl | h
        · exact .inl ⟨b, hb, hdeclared, rfl⟩
        · obtain ⟨part, hpart, hdecl⟩ := List.mem_flatMap.1 h
          exact .inr ⟨part, .argument hb hdeclared hpart, hdecl⟩
  · rintro (⟨b, hb, hkind, rfl⟩ | ⟨part, hpart, hdecl⟩)
    · rcases hkind with hkind | hkind <;> simp [hb, hkind]
    · cases hpart with
      | component hb hkind hc => simpa [hb, hkind, hc] using hdecl
      | argument hb hkind ha =>
        have hmem := List.mem_flatMap.2 ⟨part, ha, hdecl⟩
        rcases hkind with hkind | hkind
        · simp only [hb, hkind]
          exact List.mem_cons_of_mem _ hmem
        · simp only [hb, hkind]
          exact List.mem_cons_of_mem _ hmem

theorem mentions_of_mem_occurring (h : decl ∈ store.occurring d id) : store.Mentions id decl := by
  induction d generalizing id with
  | zero => simp [occurring] at h
  | succ d ih =>
    rcases mem_occurring_succ.1 h with hfrom | ⟨part, hpart, hdecl⟩
    · exact .here hfrom
    · exact .part hpart (ih hdecl)

theorem exists_mem_occurring (h : store.Mentions id decl) : ∃ d, decl ∈ store.occurring d id := by
  induction h with
  | here hfrom => exact ⟨1, mem_occurring_succ.2 (.inl hfrom)⟩
  | part hp _ ih =>
    obtain ⟨d, hd⟩ := ih
    exact ⟨d + 1, mem_occurring_succ.2 (.inr ⟨_, hp, hd⟩)⟩

theorem occurring_subset_succ (d : Nat) (id : TypeId) :
    store.occurring d id ⊆ store.occurring (d + 1) id := by
  induction d generalizing id with
  | zero => simp [occurring]
  | succ d ih =>
    intro decl h
    apply mem_occurring_succ.2
    rcases mem_occurring_succ.1 h with hfrom | ⟨part, hpart, hdecl⟩
    · exact .inl hfrom
    · exact .inr ⟨part, hpart, ih part hdecl⟩

theorem occurring_subset {e : Nat} (h : d ≤ e) (id : TypeId) :
    store.occurring d id ⊆ store.occurring e id := by
  induction h with
  | refl => exact fun _ hm => hm
  | step _ ih => exact fun _ hm => occurring_subset_succ _ _ (ih hm)

/-- So many levels are needed to find the declaration, and no fewer. -/
def FoundAt (store : TypeStore) (decl : TypeId) (d : Nat) (id : TypeId) : Prop :=
  decl ∈ store.occurring d id ∧ ∀ e < d, decl ∉ store.occurring e id

theorem FoundAt.unique {e : Nat} (hd : store.FoundAt decl d id) (he : store.FoundAt decl e id) :
    d = e := by
  rcases Nat.lt_trichotomy d e with h | h | h
  · exact absurd hd.1 (he.2 d h)
  · exact h
  · exact absurd he.1 (hd.2 e h)

/-- The types on the way down to the declaration need one level less each, so they are different
from each other; all of them are in the table. -/
theorem FoundAt.exists_path (h : store.FoundAt decl d id) :
    ∃ path : List TypeId, path.length = d ∧ path.Nodup ∧
      ∀ t ∈ path, t.index < store.size ∧ ∃ j ≤ d, store.FoundAt decl j t := by
  induction d generalizing id with
  | zero => exact ⟨[], rfl, List.nodup_nil, by simp⟩
  | succ d ih =>
    have hknown {b : TypeBinding} (hb : store.type? id = some b) : id.index < store.size :=
      (Array.getElem?_eq_some_iff.1 hb).1
    rcases mem_occurring_succ.1 h.1 with hfrom | ⟨part, hpart, hdecl⟩
    · have hone : ¬ 1 < d + 1 := fun hlt => h.2 1 hlt (mem_occurring_succ.2 (.inl hfrom))
      obtain rfl : d = 0 := by omega
      obtain ⟨b, hb, -⟩ := hfrom
      refine ⟨[id], rfl, List.nodup_singleton id, ?_⟩
      intro t ht
      obtain rfl := List.mem_singleton.1 ht
      exact ⟨hknown hb, 1, Nat.le_refl 1, h⟩
    · have hfound : store.FoundAt decl d part := by
        refine ⟨hdecl, ?_⟩
        intro e he hmem
        exact h.2 (e + 1) (by omega) (mem_occurring_succ.2 (.inr ⟨part, hpart, hmem⟩))
      obtain ⟨path, hlength, hnodup, hpath⟩ := ih hfound
      refine ⟨id :: path, by simp [hlength], ?_, ?_⟩
      · apply List.nodup_cons.2
        refine ⟨?_, hnodup⟩
        intro hmem
        obtain ⟨-, j, hj, hfoundj⟩ := hpath id hmem
        have := h.unique hfoundj
        omega
      · intro t ht
        rcases List.mem_cons.1 ht with rfl | ht
        · refine ⟨?_, d + 1, Nat.le_refl _, h⟩
          cases hpart with
          | argument hb _ _ => exact hknown hb
          | component hb _ _ => exact hknown hb
        · obtain ⟨hindex, j, hj, hfoundj⟩ := hpath t ht
          exact ⟨hindex, j, by omega, hfoundj⟩

theorem FoundAt.le_size (h : store.FoundAt decl d id) : d ≤ store.size := by
  obtain ⟨path, hlength, hnodup, hpath⟩ := h.exists_path
  have hsub : path ⊆ (List.range store.size).map TypeId.mk := by
    intro t ht
    exact List.mem_map.2 ⟨t.index, List.mem_range.2 (hpath t ht).1, rfl⟩
  have hle := (hnodup.subperm hsub).length_le
  simpa [hlength] using hle

theorem mem_mentioned : decl ∈ store.mentioned id ↔ store.Mentions id decl := by
  unfold mentioned
  rw [List.mem_eraseDups]
  constructor
  · exact mentions_of_mem_occurring
  · intro h
    have hexists := exists_mem_occurring h
    classical
    have hfound : store.FoundAt decl (Nat.find hexists) id :=
      ⟨Nat.find_spec hexists, fun e he => Nat.find_min hexists he⟩
    exact occurring_subset hfound.le_size id hfound.1

theorem mem_mentionedNames {name : String} :
    name ∈ store.mentionedNames id ↔ store.MentionsName id name := by
  unfold mentionedNames MentionsName
  simp only [List.mem_filterMap, mem_mentioned, Option.map_eq_some_iff]
  constructor
  · rintro ⟨decl, hm, b, hb, rfl⟩
    exact ⟨decl, b, hm, hb, rfl⟩
  · rintro ⟨decl, b, hm, hb, rfl⟩
    exact ⟨decl, hm, b, hb, rfl⟩

end TypeStore

namespace TypeRef

/-- A resolved type that is written out mentions the declaration of that raw qualified name. -/
def Mentions (ref : TypeRef) (store : TypeStore) (name : String) : Prop :=
  ∃ id, ref.type = some id ∧ store.MentionsName id name

theorem mem_mentions {ref : TypeRef} {store : TypeStore} {name : String} :
    name ∈ ref.mentions store ↔ ref.Mentions store name := by
  unfold mentions Mentions
  cases ref.type with
  | none => simp
  | some id => simp [TypeStore.mem_mentionedNames]

end TypeRef
end EnhancedFor
