import EnhancedFor.Proofs.Types.Interning

/-!
Types as terms. An id stands for a declared type, for a declaration with arguments or for an array,
and what it stands for depends on the parts of its entry only. Main statement: terms stay when a
store grows and when supertypes are set.
-/

namespace EnhancedFor

/-- A declared type, a declaration with arguments, or an array of a component. -/
inductive TypeTerm where
  | declared (id : TypeId)
  | applied (generic : TypeId) (args : List TypeTerm)
  | array (component : TypeTerm)
  deriving Repr

/-- How far a replacement goes. -/
inductive Reach where
  | everywhere
  | outsideArrays
  deriving DecidableEq, Repr

namespace TypeTerm

/-- Induction from the arguments and the component of a term to the term. -/
@[elab_as_elim]
theorem rec_args {motive : TypeTerm → Prop} (declared : ∀ id, motive (.declared id))
    (applied : ∀ generic args, (∀ t ∈ args, motive t) → motive (.applied generic args))
    (array : ∀ component, motive component → motive (.array component)) (t : TypeTerm) : motive t :=
  @TypeTerm.rec motive (fun ts => ∀ t ∈ ts, motive t) declared applied array
    (fun _ h => (List.not_mem_nil h).elim)
    (fun _ _ ht hts => List.forall_mem_cons.2 ⟨ht, hts⟩) t

mutual

/-- Puts terms in place of declared types, all at once. -/
def replace (reach : Reach) (terms : List (TypeId × TypeTerm)) : TypeTerm → TypeTerm
  | .declared id => (terms.lookup id).getD (.declared id)
  | .applied generic args => .applied generic (replaceAll reach terms args)
  | .array component =>
    match reach with
    | .everywhere => .array (replace reach terms component)
    | .outsideArrays => .array component

def replaceAll (reach : Reach) (terms : List (TypeId × TypeTerm)) : List TypeTerm → List TypeTerm
  | [] => []
  | t :: ts => replace reach terms t :: replaceAll reach terms ts

end

variable {reach : Reach} {terms : List (TypeId × TypeTerm)} {id generic : TypeId} {t : TypeTerm}
  {args : List TypeTerm}

theorem replaceAll_eq_map (reach : Reach) (terms : List (TypeId × TypeTerm)) (ts : List TypeTerm) :
    replaceAll reach terms ts = ts.map (replace reach terms) := by
  induction ts with
  | nil => rfl
  | cons t ts ih => rw [replaceAll, ih, List.map_cons]

theorem replace_declared : (declared id).replace reach terms =
    (terms.lookup id).getD (.declared id) := by
  rw [replace]

theorem replace_applied :
    (applied generic args).replace reach terms =
      .applied generic (args.map (replace reach terms)) := by
  rw [replace, replaceAll_eq_map]

theorem replace_array_outside : (array t).replace .outsideArrays terms = .array t := by
  rw [replace]

/-- The declared type occurs in the term as an argument or a component, at any depth, or is the
term. -/
inductive Occurs (id : TypeId) : TypeTerm → Prop where
  | here : Occurs id (.declared id)
  | argument {generic : TypeId} {args : List TypeTerm} {t : TypeTerm} (ht : t ∈ args)
    (h : Occurs id t) : Occurs id (.applied generic args)
  | component {t : TypeTerm} (h : Occurs id t) : Occurs id (.array t)

/-- The declared type occurs in an array that is the term or occurs in it. -/
inductive OccursInArray (id : TypeId) : TypeTerm → Prop where
  | argument {generic : TypeId} {args : List TypeTerm} {t : TypeTerm} (ht : t ∈ args)
    (h : OccursInArray id t) : OccursInArray id (.applied generic args)
  | component {t : TypeTerm} (h : Occurs id t) : OccursInArray id (.array t)

/-- The term is an array or one occurs in it. -/
inductive HasArray : TypeTerm → Prop where
  | argument {generic : TypeId} {args : List TypeTerm} {t : TypeTerm} (ht : t ∈ args)
    (h : HasArray t) : HasArray (.applied generic args)
  | here {t : TypeTerm} : HasArray (.array t)

@[simp] theorem occurs_declared {other : TypeId} : (declared other).Occurs id ↔ other = id := by
  constructor
  · rintro ⟨⟩
    rfl
  · rintro rfl
    exact .here

@[simp] theorem occurs_applied : (applied generic args).Occurs id ↔ ∃ t ∈ args, t.Occurs id := by
  constructor
  · rintro (_ | ⟨ht, h⟩)
    exact ⟨_, ht, h⟩
  · rintro ⟨t, ht, h⟩
    exact .argument ht h

@[simp] theorem occursInArray_declared {other : TypeId} : ¬ (declared other).OccursInArray id := by
  rintro ⟨⟩

@[simp] theorem occursInArray_applied :
    (applied generic args).OccursInArray id ↔ ∃ t ∈ args, t.OccursInArray id := by
  constructor
  · rintro (⟨ht, h⟩ | _)
    exact ⟨_, ht, h⟩
  · rintro ⟨t, ht, h⟩
    exact .argument ht h

/-- In an array it is enough to occur. -/
theorem occursInArray_array : (array t).OccursInArray id ↔ (array t).Occurs id := by
  constructor
  · rintro (_ | h)
    exact .component h
  · rintro (_ | _ | h)
    exact .component h

@[simp] theorem hasArray_declared : ¬ (declared id).HasArray := by
  rintro ⟨⟩

@[simp] theorem hasArray_applied : (applied generic args).HasArray ↔ ∃ t ∈ args, t.HasArray := by
  constructor
  · rintro (⟨ht, h⟩ | _)
    exact ⟨_, ht, h⟩
  · rintro ⟨t, ht, h⟩
    exact .argument ht h

/-- Without arrays a replacement outside arrays goes everywhere. -/
theorem replace_of_not_hasArray (h : ¬ t.HasArray) :
    t.replace .outsideArrays terms = t.replace .everywhere terms := by
  induction t using rec_args with
  | declared id => rw [replace_declared, replace_declared]
  | applied generic args ih =>
    rw [replace_applied, replace_applied]
    congr 1
    exact List.map_congr_left fun t ht => ih t ht fun hasArray => h (.argument ht hasArray)
  | array t => exact absurd .here h

/-- A type that is replaced, and that no replacing term brings back, stays in arrays only. -/
theorem occurs_replace_iff (hreplaced : terms.lookup id ≠ none)
    (hfree : ∀ r ∈ terms, ¬ r.2.Occurs id) :
    (t.replace .outsideArrays terms).Occurs id ↔ t.OccursInArray id := by
  induction t using rec_args with
  | declared other =>
    rw [replace_declared]
    refine iff_of_false (fun h => ?_) occursInArray_declared
    cases hlookup : terms.lookup other with
    | none =>
      rw [hlookup] at h
      exact hreplaced (occurs_declared.1 h ▸ hlookup)
    | some term =>
      rw [hlookup] at h
      obtain ⟨before, after, hterms, -⟩ := List.lookup_eq_some_iff.1 hlookup
      exact hfree (other, term) (by simp [hterms]) h
  | applied generic args ih =>
    rw [replace_applied, occurs_applied, occursInArray_applied]
    constructor
    · rintro ⟨t, ht, h⟩
      obtain ⟨arg, harg, rfl⟩ := List.mem_map.1 ht
      exact ⟨arg, harg, (ih arg harg).1 h⟩
    · rintro ⟨arg, harg, h⟩
      exact ⟨_, List.mem_map_of_mem harg, (ih arg harg).2 h⟩
  | array t => rw [replace_array_outside, occursInArray_array]

end TypeTerm

namespace TypeBinding

variable {b c : TypeBinding} {id : TypeId} {f g : TypeId → TypeTerm}

/-- The term of an entry, given the terms of its parts. -/
def term (b : TypeBinding) (id : TypeId) (part : TypeId → TypeTerm) : TypeTerm :=
  match b.component, b.erasure with
  | some component, _ => .array (part component)
  | none, some generic => .applied generic (b.typeArguments.map part)
  | none, none => .declared id

theorem term_congr (h : b.SameParts c) (hparts : ∀ part ∈ b.parts, f part = g part) :
    b.term id f = c.term id g := by
  obtain ⟨herasure, hargs, hcomponent⟩ := h
  have harguments : b.typeArguments.map f = b.typeArguments.map g :=
    List.map_congr_left fun arg harg => hparts arg (by simp [parts, harg])
  unfold term
  rw [← hcomponent, ← herasure, ← hargs, harguments]
  cases hc : b.component with
  | some component =>
    have hpart := hparts component (by simp [parts, hc])
    simp only [hpart]
  | none => cases b.erasure <;> rfl

end TypeBinding

namespace TypeStore

variable {store store' : TypeStore} {id : TypeId} {b : TypeBinding}

/-- The term of an id, followed into so many levels of parts. -/
def termWithin (store : TypeStore) : Nat → TypeId → TypeTerm
  | 0, id => .declared id
  | d + 1, id => (store.type? id).elim (.declared id) fun b => b.term id (termWithin store d)

/-- The term that an id stands for. Parts have smaller ids, so this follows all levels. -/
def term (store : TypeStore) (id : TypeId) : TypeTerm := store.termWithin (id.index + 1) id

theorem Sound.termWithin_eq (h : store.Sound) {d e : Nat} (hd : id.index < d) (he : id.index < e) :
    store.termWithin d id = store.termWithin e id := by
  induction d generalizing e id with
  | zero => omega
  | succ d ih =>
    obtain ⟨e, rfl⟩ : ∃ k, e = k + 1 := ⟨e - 1, by omega⟩
    rw [termWithin, termWithin]
    cases hb : store.type? id with
    | none => rfl
    | some b =>
      refine TypeBinding.term_congr ⟨rfl, rfl, rfl⟩ fun part hpart => ?_
      have hlt := h.parts_lt id b hb part hpart
      exact ih (by omega) (by omega)

theorem Sound.term_eq (h : store.Sound) (hb : store.type? id = some b) :
    store.term id = b.term id store.term := by
  rw [term, termWithin, hb]
  refine TypeBinding.term_congr ⟨rfl, rfl, rfl⟩ fun part hpart => ?_
  exact h.termWithin_eq (h.parts_lt id b hb part hpart) (Nat.lt_succ_self _)

theorem Sound.term_applied (h : store.Sound) (hb : store.type? id = some b) {generic : TypeId}
    (herasure : b.erasure = some generic) :
    store.term id = .applied generic (b.typeArguments.map store.term) := by
  have hcomponent : b.component = none := by
    have hproper := (h.proper id b hb).2
    simpa [herasure] using hproper
  rw [h.term_eq hb, TypeBinding.term, hcomponent, herasure]

theorem Sound.term_bare (h : store.Sound) (hid : store.Bare id) : store.term id = .declared id := by
  obtain ⟨b, hb, hparts⟩ := hid
  have hnone : b.component = none ∧ b.erasure = none := by
    simp only [TypeBinding.parts, List.append_eq_nil_iff, Option.toList_eq_nil_iff] at hparts
    exact ⟨hparts.2, hparts.1.1⟩
  rw [h.term_eq hb, TypeBinding.term, hnone.1, hnone.2]

/-- All entries of the first store stand in the second, made of the same parts. -/
def KeepsParts (store store' : TypeStore) : Prop :=
  ∀ id b, store.type? id = some b → ∃ c, store'.type? id = some c ∧ b.SameParts c

theorem Extends.keepsParts (h : store.Extends store') : store.KeepsParts store' :=
  fun id b hb => ⟨b, h id b hb, rfl, rfl, rfl⟩

theorem keepsParts_update {target : TypeId} {f : TypeBinding → TypeBinding}
    (hf : ∀ b : TypeBinding, b.SameParts (f b)) : store.KeepsParts (store.update target f) := by
  intro id b hb
  by_cases hid : id = target
  · subst hid
    exact ⟨f b, by rw [type?_update_self, hb]; rfl, hf b⟩
  · exact ⟨b, by rw [type?_update_of_ne hid, hb], rfl, rfl, rfl⟩

/-- An id that is there goes on standing for its term. -/
theorem KeepsParts.term_eq (hk : store.KeepsParts store') (h : store.Sound) (h' : store'.Sound)
    (hid : store.Known id) : store'.term id = store.term id := by
  obtain ⟨i⟩ := id
  induction i using Nat.strongRecOn with
  | ind i ih =>
    obtain ⟨b, hb⟩ := known_iff.1 hid
    obtain ⟨c, hc, hparts⟩ := hk _ b hb
    rw [h.term_eq hb, h'.term_eq hc]
    refine (TypeBinding.term_congr hparts fun part hpart => ?_).symm
    have hlt := h.parts_lt _ b hb part hpart
    exact (ih part.index hlt (Nat.lt_trans hlt hid)).symm

theorem Sound.term_update {target : TypeId} {f : TypeBinding → TypeBinding} (h : store.Sound)
    (h' : (store.update target f).Sound) (hf : ∀ b : TypeBinding, b.SameParts (f b))
    (hid : store.Known id) : (store.update target f).term id = store.term id :=
  (keepsParts_update hf).term_eq h h' hid

end TypeStore
end EnhancedFor
