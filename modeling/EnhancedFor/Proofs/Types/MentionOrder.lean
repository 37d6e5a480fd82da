import Mathlib.Data.List.Basic
import EnhancedFor.Proofs.Lists
import EnhancedFor.Proofs.Types.Kinds
import EnhancedFor.Proofs.Types.Mentions
import EnhancedFor.Proofs.Types.Term

/-!
The order in which a type mentions declarations. The search for them goes by the kind of an entry,
the term of a type by what the entry is made of; where only classes and interfaces are given
arguments, both go the same way. Main statement: the mentioned declarations are the classes and
interfaces of the term, each once, in the order in which they first stand there.
-/

namespace EnhancedFor

/-- Without repetitions, the entries that are kept stand in the order in which they first stand in
the list. -/
theorem pairwise_idxOf_eraseDups_filter {α : Type} [BEq α] [LawfulBEq α] (xs : List α)
    (p : α → Bool) : (xs.filter p).eraseDups.Pairwise fun x y => xs.idxOf x < xs.idxOf y := by
  -- After its first entry, the rest of the list is kept only where it differs from that entry.
  induction xs generalizing p with
  | nil => simp
  | cons first xs ih =>
    have hne {q : α → Bool} (hq : q first = false) {x : α} (hx : x ∈ (xs.filter q).eraseDups) :
        first ≠ x := by
      rintro rfl
      simp [hq] at hx
    have hshift {q : α → Bool} (hq : q first = false) :
        (xs.filter q).eraseDups.Pairwise
          fun x y => (first :: xs).idxOf x < (first :: xs).idxOf y := by
      refine (ih q).imp_of_mem fun {x y} hx hy hlt => ?_
      rw [List.idxOf_cons_ne _ (hne hq hx), List.idxOf_cons_ne _ (hne hq hy)]
      exact Nat.succ_lt_succ hlt
    cases hfirst : p first with
    | false =>
      rw [List.filter_cons_of_neg (by simp [hfirst])]
      exact hshift hfirst
    | true =>
      rw [List.filter_cons_of_pos hfirst, List.eraseDups_cons, List.filter_filter]
      refine List.pairwise_cons.2 ⟨fun x hx => ?_, hshift (by simp)⟩
      rw [List.idxOf_cons_self, List.idxOf_cons_ne _ (hne (by simp) hx)]
      exact Nat.succ_pos _

namespace TypeTerm

mutual

/-- The declared types of a term and the declarations that arguments are given to, from left to
right. -/
def symbols : TypeTerm → List TypeId
  | .declared id => [id]
  | .applied generic args => generic :: symbolsAll args
  | .array component => symbols component

def symbolsAll : List TypeTerm → List TypeId
  | [] => []
  | t :: ts => symbols t ++ symbolsAll ts

end

theorem symbolsAll_eq_flatMap (ts : List TypeTerm) : symbolsAll ts = ts.flatMap symbols := by
  induction ts with
  | nil => rfl
  | cons t ts ih => rw [symbolsAll, ih, List.flatMap_cons]

theorem symbols_declared (id : TypeId) : (declared id).symbols = [id] := by
  rw [symbols]

theorem symbols_applied (generic : TypeId) (args : List TypeTerm) :
    (applied generic args).symbols = generic :: args.flatMap symbols := by
  rw [symbols, symbolsAll_eq_flatMap]

theorem symbols_array (component : TypeTerm) : (array component).symbols = component.symbols := by
  rw [symbols]

end TypeTerm

instance (kind : TypeKind) : Decidable kind.IsDeclared :=
  inferInstanceAs (Decidable (kind = .classType ∨ kind = .interfaceType))

namespace TypeStore

variable {store : TypeStore} {id generic : TypeId} {b : TypeBinding} {d : Nat}

/-- A class or an interface as it is declared, made of no other types. -/
def IsDeclaration (store : TypeStore) (id : TypeId) : Prop :=
  ∃ b ∈ store.type? id, b.kind.IsDeclared ∧ b.parts = []

instance : Decidable (store.IsDeclaration id) :=
  inferInstanceAs (Decidable (∃ b ∈ store.type? id, b.kind.IsDeclared ∧ b.parts = []))

/-- Only classes and interfaces are given arguments. -/
def ParameterizesDeclared (store : TypeStore) : Prop :=
  ∀ id b generic, store.type? id = some b → b.erasure = some generic →
    ∃ decl, store.type? generic = some decl ∧ decl.kind.IsDeclared

theorem isDeclaration_iff_kind (hb : store.type? id = some b) (hparts : b.parts = []) :
    store.IsDeclaration id ↔ b.kind.IsDeclared := by
  simp [IsDeclaration, hb, hparts]

/-- The recursion of the search at a class or an interface. -/
theorem occurring_declared (hb : store.type? id = some b) (hkind : b.kind.IsDeclared) :
    store.occurring (d + 1) id = b.erasure.getD id ::
      b.typeArguments.flatMap (store.occurring d) := by
  rw [occurring, hb]
  rcases hkind with hkind | hkind <;> simp only [hkind]

theorem occurring_array (hb : store.type? id = some b) (hkind : b.kind = .array) :
    store.occurring (d + 1) id = b.component.toList.flatMap (store.occurring d) := by
  simp only [occurring, hb, hkind]

theorem occurring_eq_nil (hb : store.type? id = some b) (hkind : ¬ b.kind.IsDeclared)
    (harray : b.kind ≠ .array) : store.occurring (d + 1) id = [] := by
  rw [occurring, hb]
  cases hother : b.kind with
  | classType => exact absurd (.inl hother) hkind
  | interfaceType => exact absurd (.inr hother) hkind
  | array => exact absurd hother harray
  | primitive => simp only [hother]
  | typeVariable => simp only [hother]

/-- A type that is made of no others is found if it is a class or an interface. -/
theorem occurring_bare (hb : store.type? id = some b) (hparts : b.parts = [])
    (harray : b.kind ≠ .array) :
    store.occurring (d + 1) id = [id].filter fun decl => store.IsDeclaration decl := by
  have hdeclaration := isDeclaration_iff_kind hb hparts
  rw [List.filter_singleton]
  by_cases hkind : b.kind.IsDeclared
  · obtain ⟨herasure, hargs, -⟩ : b.erasure = none ∧ b.typeArguments = [] ∧ b.component = none := by
      simpa [TypeBinding.parts, and_assoc] using hparts
    rw [occurring_declared hb hkind, herasure, hargs, decide_eq_true (hdeclaration.2 hkind)]
    rfl
  · rw [occurring_eq_nil hb hkind harray, decide_eq_false fun h => hkind (hdeclaration.1 h)]
    rfl

theorem occurring_unknown (hb : store.type? id = none) : store.occurring d id = [] := by
  cases d with
  | zero => rfl
  | succ d => rw [occurring, hb]

section Traversal

variable (hs : store.Sound) (hk : store.Kinded)

include hs hk

theorem parts_eq_nil (hb : store.type? id = some b) (herasure : b.erasure = none)
    (hkind : b.kind ≠ .array) : b.parts = [] := by
  have hargs := (hs.proper id b hb).1.1 herasure
  have hcomponent : b.component = none := by
    by_contra hcomponent
    exact hkind ((hk id b hb).component.1 hcomponent).1
  simp [TypeBinding.parts, herasure, hargs, hcomponent]

/-- A type with arguments is a class or an interface, and so is its declaration. -/
theorem ParameterizesDeclared.erasure (hp : store.ParameterizesDeclared)
    (hb : store.type? id = some b) (herasure : b.erasure = some generic) :
    b.kind.IsDeclared ∧ store.IsDeclaration generic := by
  obtain ⟨decl, hdecl, hkind⟩ := (hk id b hb).erasure generic herasure
  obtain ⟨found, hfound, hdeclared⟩ := hp id b generic hb herasure
  obtain rfl : found = decl := Option.some.inj (hfound.symm.trans hdecl)
  obtain ⟨found', hfound', hbare⟩ := hs.erasure_bare id b hb generic herasure
  obtain rfl : found' = found := Option.some.inj (hfound'.symm.trans hfound)
  have harray : found'.kind ≠ .array := by
    rcases hdeclared with h | h <;> simp [h]
  refine ⟨hkind ▸ hdeclared, (isDeclaration_iff_kind hfound ?_).2 hdeclared⟩
  exact parts_eq_nil hs hk hfound hbare harray

/-- Searched to more levels than the place of the type in the table, the type gives the classes and
interfaces of its term, from left to right. -/
theorem ParameterizesDeclared.occurring_eq (hp : store.ParameterizesDeclared) (hd : id.index < d) :
    store.occurring d id = (store.term id).symbols.filter fun decl => store.IsDeclaration decl := by
  -- Parts stand earlier in the table, so with each level fewer are needed.
  induction d generalizing id with
  | zero => omega
  | succ d ih =>
    cases hb : store.type? id with
    | none =>
      have hnot : ¬ store.IsDeclaration id := by simp [IsDeclaration, hb]
      rw [occurring_unknown hb, term, termWithin, hb, Option.elim_none, TypeTerm.symbols_declared,
        List.filter_singleton, decide_eq_false hnot]
      rfl
    | some b =>
      have hpart : ∀ part ∈ b.parts, store.occurring d part =
          (store.term part).symbols.filter fun decl => store.IsDeclaration decl := by
        intro part hpart
        have hlt := hs.parts_lt id b hb part hpart
        exact ih (by omega)
      -- A declaration with arguments, an array, or a type that is made of no others.
      cases herasure : b.erasure with
      | some generic =>
        obtain ⟨hkind, hgeneric⟩ := hp.erasure hs hk hb herasure
        rw [occurring_declared hb hkind, hs.term_applied hb herasure, TypeTerm.symbols_applied,
          List.filter_cons, if_pos (decide_eq_true hgeneric), herasure, Option.getD_some,
          List.flatMap_map, List.filter_flatMap]
        congr 1
        exact List.flatMap_congr fun arg harg => hpart arg (by simp [TypeBinding.parts, harg])
      | none =>
        by_cases harray : b.kind = .array
        · obtain ⟨component, hcomponent⟩ := Option.ne_none_iff_exists'.1
            ((hk id b hb).component.2 ⟨harray, herasure⟩)
          rw [occurring_array hb harray, hs.term_eq hb, TypeBinding.term, hcomponent,
            Option.toList_some, List.flatMap_singleton, TypeTerm.symbols_array]
          exact hpart component (by simp [TypeBinding.parts, hcomponent])
        · have hparts := parts_eq_nil hs hk hb herasure harray
          rw [hs.term_bare ⟨b, hb, hparts⟩, TypeTerm.symbols_declared,
            occurring_bare hb hparts harray]

end Traversal

/-- Arguments and components stand earlier in the table. -/
theorem Sound.part_lt (hs : store.Sound) {part : TypeId} (h : store.Part id part) :
    part.index < id.index := by
  cases h with
  | argument hb _ harg => exact hs.parts_lt id _ hb part (by simp [TypeBinding.parts, harg])
  | component hb _ hcomponent =>
    exact hs.parts_lt id _ hb part (by simp [TypeBinding.parts, hcomponent])

theorem Sound.wellFounded_part (hs : store.Sound) : WellFounded fun part id => store.Part id part :=
  Subrelation.wf hs.part_lt (InvImage.wf TypeId.index Nat.lt_wfRel.wf)

theorem ParameterizesDeclared.occurring_size (hp : store.ParameterizesDeclared) (hs : store.Sound)
    (hk : store.Kinded) (id : TypeId) : store.occurring store.size id =
      (store.term id).symbols.filter fun decl => store.IsDeclaration decl := by
  by_cases hid : store.Known id
  · exact hp.occurring_eq hs hk hid
  · have hb : store.type? id = none := by
      rw [Option.eq_none_iff_forall_ne_some]
      exact fun b hb => hid (known_of_type? hb)
    rw [occurring_unknown hb, ← hp.occurring_eq hs hk (Nat.lt_succ_self id.index),
      occurring_unknown hb]

/-- In every store that can be built and in which only classes and interfaces are given arguments:
the search goes from a type to its arguments and components and comes to an end, and no level of it
is cut off; it gives each declaration once, exactly the classes and interfaces of the term of the
type, in the order in which they first stand in the term from left to right. -/
theorem Reachable.mentioned_in_order (h : store.Reachable) (hp : store.ParameterizesDeclared)
    (id : TypeId) :
    (WellFounded fun part whole => store.Part whole part) ∧
    (∀ levels, id.index < levels → store.occurring levels id = store.occurring store.size id) ∧
    (store.mentioned id).Nodup ∧
    (∀ decl, decl ∈ store.mentioned id ↔
      decl ∈ (store.term id).symbols ∧ store.IsDeclaration decl) ∧
    (store.mentioned id).Pairwise fun first second =>
      (store.term id).symbols.idxOf first < (store.term id).symbols.idxOf second := by
  have hoccurring := hp.occurring_size h.sound h.kinded id
  refine ⟨h.sound.wellFounded_part, ?_, nodup_eraseDups _, ?_, ?_⟩
  · intro levels hlevels
    rw [hp.occurring_eq h.sound h.kinded hlevels, hoccurring]
  · intro decl
    rw [mentioned, List.mem_eraseDups, hoccurring, List.mem_filter, decide_eq_true_iff]
  · rw [mentioned, hoccurring]
    exact pairwise_idxOf_eraseDups_filter _ _

end TypeStore

namespace Items

open TypeStore

/-- `Map<K, V>`, `String`, `Item` and `int[]`. -/
def declared : TypeStore :=
  (((((initial.declareInterface "java.util.Map" ["K", "V"]).1.declareClass
    "java.lang.String" []).1.declareClass "shop.Item" []).1.declarePrimitive "int").1.arrayOf ⟨6⟩).1

def mapOf (key value : TypeId) (qualified simple : String) : TypeBinding :=
  { kind := .interfaceType, qualifiedName := "java.util.Map<" ++ qualified ++ ">"
    name := "Map<" ++ simple ++ ">", erasure := some ⟨1⟩, typeArguments := [key, value] }

def inner : TypeBinding := mapOf ⟨4⟩ ⟨7⟩ "java.lang.String,int[]" "String,int[]"

def outer : TypeBinding :=
  mapOf ⟨5⟩ ⟨8⟩ "shop.Item,java.util.Map<java.lang.String,int[]>" "Item,Map<String,int[]>"

/-- With `Map<Item, Map<String, int[]>>[]`. -/
def items : TypeStore := (((declared.add inner).1.add outer).1.arrayOf ⟨9⟩).1

theorem reachable_items : items.Reachable := by
  have hdeclared : declared.Reachable :=
    ((((Reachable.initial.declareInterface _ _).declareClass _ _).declareClass _ _).declarePrimitive
      _).arrayOf (by decide)
  have hinner : declared.parameterize ⟨1⟩ [⟨4⟩, ⟨7⟩] = .ok ((declared.add inner).1, ⟨8⟩) := by rfl
  have houter : (declared.add inner).1.parameterize ⟨1⟩ [⟨5⟩, ⟨8⟩] =
      .ok (((declared.add inner).1.add outer).1, ⟨9⟩) := by rfl
  have hmade := hdeclared.of_parameterize (by decide) (by decide) hinner
  exact (hmade.of_parameterize (by decide) (by decide) houter).arrayOf (by decide)

theorem parameterizesDeclared_items : items.ParameterizesDeclared := by
  have hall : ∀ b ∈ items.types.toList, ∀ generic ∈ b.erasure,
      ∃ decl ∈ items.type? generic, decl.kind.IsDeclared := by decide
  intro id b generic hb herasure
  exact hall b (Array.mem_toList_iff.2 (Array.mem_of_getElem? hb)) generic herasure

/-- `Map<Item, Map<String, int[]>>[]` mentions `Map`, `Item` and `String`. -/
theorem items_mentioned : items.Reachable ∧ items.ParameterizesDeclared ∧
    (items.term ⟨10⟩).symbols = [⟨1⟩, ⟨5⟩, ⟨1⟩, ⟨4⟩, ⟨6⟩] ∧
    items.mentioned ⟨10⟩ = [⟨1⟩, ⟨5⟩, ⟨4⟩] := by
  have hsymbols : (items.term ⟨10⟩).symbols = [⟨1⟩, ⟨5⟩, ⟨1⟩, ⟨4⟩, ⟨6⟩] := by decide
  have hkept : ∀ decl ∈ [⟨1⟩, ⟨5⟩, ⟨1⟩, ⟨4⟩, ⟨6⟩], items.IsDeclaration decl →
      decl ∈ [⟨1⟩, ⟨5⟩, ⟨4⟩] := by decide
  have hfound : ∀ decl ∈ [⟨1⟩, ⟨5⟩, ⟨4⟩], decl ∈ [⟨1⟩, ⟨5⟩, ⟨1⟩, ⟨4⟩, ⟨6⟩] ∧
      items.IsDeclaration decl := by decide
  obtain ⟨-, -, hnodup, hmem, horder⟩ :=
    reachable_items.mentioned_in_order parameterizesDeclared_items ⟨10⟩
  rw [hsymbols] at hmem horder
  -- Members and order leave one list only.
  have hperm : (items.mentioned ⟨10⟩).Perm [⟨1⟩, ⟨5⟩, ⟨4⟩] := by
    apply (List.perm_ext_iff_of_nodup hnodup (by decide)).2
    exact fun decl => (hmem decl).trans ⟨fun h => hkept decl h.1 h.2, hfound decl⟩
  refine ⟨reachable_items, parameterizesDeclared_items, hsymbols, ?_⟩
  exact hperm.eq_of_pairwise (fun _ _ _ _ hlt hgt => absurd hlt (Nat.lt_asymm hgt)) horder
    (by decide)

end Items
end EnhancedFor
