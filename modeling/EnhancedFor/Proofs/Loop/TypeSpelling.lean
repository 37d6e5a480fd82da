import Mathlib.Data.List.TakeWhile
import EnhancedFor.Proofs.Loop.HeaderName
import EnhancedFor.Proofs.Loop.PlannedImports
import EnhancedFor.Proofs.Types.Mentions

/-!
How the head of the new loop spells the element type, and the imports that the spelling needs. Main
statement: the simple spelling can be misread only by types that the element type itself mentions.
Each name is compared with the imports and types of the unit, not with the other names of the
element type, so that two of them may share a simple name and be imported both.
-/

namespace EnhancedFor

theorem Java.rawName_rawName (name : String) : rawName (rawName name) = rawName name := by
  unfold rawName
  rw [String.toList_ofList, List.takeWhile_idem]

namespace Import

/-- The import of another type with the same simple name. -/
def Hides (i : Import) (name : String) : Prop :=
  i.isStatic = false ∧ i.simpleName? = some (Java.simpleName name) ∧ i.path ≠ name

/-- A name without type arguments is imported under its own simple name. -/
theorem simpleName?_ofName {name : String} (h : Java.rawName name = name) :
    (ofName name).simpleName? = some (Java.simpleName name) := by
  unfold Java.simpleName
  rw [h]
  rfl

end Import

namespace TypeStore

variable {store : TypeStore} {type : TypeId} {name : String}

theorem MentionsName.rawName_eq (h : store.MentionsName type name) : Java.rawName name = name := by
  obtain ⟨decl, b, -, -, rfl⟩ := h
  exact Java.rawName_rawName b.qualifiedName

/-- The type mentions another one with the same simple name. -/
def Clashes (store : TypeStore) (type : TypeId) (name : String) : Prop :=
  ∃ other, store.MentionsName type other ∧ other ≠ name ∧
    Java.simpleName other = Java.simpleName name

end TypeStore

namespace CompilationUnit

variable {unit : CompilationUnit} {name : String}

/-- The qualified name of a top-level type of the unit. -/
def qualify (unit : CompilationUnit) (name : String) : String :=
  match unit.package with
  | some package => package ++ "." ++ name
  | none => name

/-- The simple name of the type stands for another one in the unit. -/
inductive Shadows (unit : CompilationUnit) (name : String) : Prop where
  | imported {i : Import} (hi : i ∈ unit.imports) (h : i.Hides name) : Shadows unit name
  | declared {t : TypeDecl} (ht : t ∈ unit.types) (hs : t.name = Java.simpleName name)
    (hne : unit.qualify t.name ≠ name) : Shadows unit name

/-- Each simple name in the type stands for one type in the unit. -/
def Unambiguous (unit : CompilationUnit) (store : TypeStore) (type : TypeId) : Prop :=
  ∀ name, store.MentionsName type name → ¬ store.Clashes type name ∧ ¬ unit.Shadows name

theorem isShadowed_iff : unit.isShadowed name = true ↔ unit.Shadows name := by
  unfold isShadowed
  rw [Bool.or_eq_true, List.any_eq_true, List.any_eq_true]
  constructor
  · rintro (⟨i, hi, h⟩ | ⟨t, ht, h⟩)
    · exact .imported hi (by simpa [Import.Hides, and_assoc] using h)
    · obtain ⟨hs, hne⟩ := Bool.and_eq_true_iff.1 h
      exact .declared ht (beq_iff_eq.1 hs) (bne_iff_ne.1 hne)
  · intro h
    cases h with
    | imported hi h => exact .inl ⟨_, hi, by simpa [Import.Hides, and_assoc] using h⟩
    | declared ht hs hne =>
      exact .inr ⟨_, ht, Bool.and_eq_true_iff.2 ⟨beq_iff_eq.2 hs, bne_iff_ne.2 hne⟩⟩

end CompilationUnit

namespace Classification

variable {c : Classification} {unit : CompilationUnit} {store : TypeStore} {names : Name.Candidates}
  {body : StmtId} {name : String}

/-- No type that the element type mentions is shadowed in the unit. -/
def SpeltSimply (c : Classification) (unit : CompilationUnit) (store : TypeStore) : Prop :=
  ∀ name, store.MentionsName c.elementType name → ¬ unit.Shadows name

theorem usesQualifiedType_eq_false_iff :
    c.usesQualifiedType unit store = false ↔ c.SpeltSimply unit store := by
  unfold usesQualifiedType SpeltSimply
  rw [List.any_eq_false]
  simp only [TypeStore.mem_mentionedNames, CompilationUnit.isShadowed_iff]

theorem mem_added_nodeChanges : name ∈ (c.nodeChanges unit store body).added ↔
    c.SpeltSimply unit store ∧ store.MentionsName c.elementType name := by
  rw [← usesQualifiedType_eq_false_iff, ← TypeStore.mem_mentionedNames]
  unfold nodeChanges
  cases c.usesQualifiedType unit store <;> simp

/-- An import is added for each type that is mentioned and not known yet, if the spelling is
simple. -/
theorem mem_added_plannedImports : name ∈ (c.plannedImports unit store body).added ↔
    (c.SpeltSimply unit store ∧ store.MentionsName c.elementType name) ∧
      ¬ unit.Implicit name ∧ ¬ ∃ i ∈ unit.imports, i.Provides name := by
  rw [plannedImports, NodeChanges.mem_added_applyTo, NodeChanges.mem_neededImports,
    mem_added_nodeChanges]

theorem typeText_header {b : TypeBinding} {header : Header}
    (h : c.header unit store name = .ok header) (hb : store.type? c.elementType = some b) :
    (c.SpeltSimply unit store → header.typeText = b.name) ∧
      (¬ c.SpeltSimply unit store → header.typeText = b.qualifiedName) := by
  obtain ⟨b', hb', -, htext, -⟩ := header_eq_ok h
  obtain rfl := Option.some.inj (hb.symm.trans hb')
  rw [← usesQualifiedType_eq_false_iff, htext]
  cases c.usesQualifiedType unit store <;> simp

/-- What shadows a mentioned type in the converted unit is an import that the plan itself adds. -/
theorem shadows_rewrite_iff (hs : c.SpeltSimply unit store)
    (hm : store.MentionsName c.elementType name) {plan : Plan}
    (himports : plan.imports = c.plannedImports unit store body) (loop : StmtId)
    (header : Header) :
    (plan.rewrite unit loop header body).Shadows name ↔ ∃ other ∈ plan.imports.added,
      other ≠ name ∧ Java.simpleName other = Java.simpleName name := by
  have hraw {other : String} (hadded : other ∈ plan.imports.added) :
      (Import.ofName other).simpleName? = some (Java.simpleName other) := by
    rw [himports, mem_added_plannedImports] at hadded
    exact Import.simpleName?_ofName hadded.1.2.rawName_eq
  constructor
  · intro h
    cases h with
    | imported hi h =>
      rcases ImportChanges.mem_newImports.1 hi with ⟨l, hl, -, rfl⟩ | ⟨other, hadded, rfl⟩
      · -- Lines that stay were there when the names were compared.
        have hold : l.line ∈ unit.imports := by
          rw [← unit.map_line_importLines]
          exact List.mem_map_of_mem hl
        exact absurd (.imported hold h) (hs name hm)
      · obtain ⟨-, hsimple, hne⟩ := h
        rw [hraw hadded] at hsimple
        exact ⟨other, hadded, hne, Option.some.inj hsimple⟩
    | declared ht hsimple hne => exact absurd (.declared ht hsimple hne) (hs name hm)
  · rintro ⟨other, hadded, hne, hsimple⟩
    refine .imported (ImportChanges.mem_newImports.2 (.inr ⟨other, hadded, rfl⟩)) ⟨rfl, ?_, hne⟩
    rw [hraw hadded, hsimple]

/-- For an accepted loop and its plan: the head has the simple text of the element type exactly as
long as nothing in the unit shadows a type in it, and only then are imports added. With this
spelling, a mentioned type is shadowed in the converted unit exactly by the added imports of others
with its simple name, so that the text has one reading exactly if the mentioned types have different
simple names. -/
theorem simple_spelling_unambiguous_iff (store : TypeStore) (options : ClassifyOptions)
    (loop : StmtId) {inits updates : List ExprId} {condition : Option ExprId} {plan : Plan}
    (hclass : unit.classify store options loop = .ok (.ok c))
    (hloop : unit.stmt? loop = some (.forLoop inits condition updates body))
    (hplan : c.plan unit store names = .ok plan) :
    ∃ header, plan.header? = some header ∧ header.elementType = c.elementType ∧
      (∀ b, store.type? c.elementType = some b →
        (c.SpeltSimply unit store → header.typeText = b.name) ∧
        (¬ c.SpeltSimply unit store → header.typeText = b.qualifiedName)) ∧
      (¬ c.SpeltSimply unit store → plan.imports.added = []) ∧
      (c.SpeltSimply unit store →
        (∀ name, store.MentionsName c.elementType name →
          ((plan.rewrite unit loop header body).Shadows name ↔ ∃ other ∈ plan.imports.added,
            other ≠ name ∧ Java.simpleName other = Java.simpleName name)) ∧
        ((plan.rewrite unit loop header body).Unambiguous store c.elementType ↔
          ∀ name, store.MentionsName c.elementType name → ¬ store.Clashes c.elementType name)) := by
  obtain ⟨-, rfl, -⟩ := CompilationUnit.accepts_of_classify hclass
  obtain ⟨-, header, hheader, rfl⟩ := plan_eq_ok hloop hplan
  obtain ⟨-, -, htype, -⟩ := header_eq_ok hheader
  refine ⟨header, header?_planBody, htype, fun b hb => typeText_header hheader hb, ?_, ?_⟩
  · intro hqualified
    apply List.eq_nil_iff_forall_not_mem.2
    intro name hadded
    exact hqualified (mem_added_plannedImports.1 hadded).1.1
  · intro hs
    have hshadows (name : String) (hm : store.MentionsName c.elementType name) :
        ((c.planBody unit names body header (c.plannedImports unit store body)).rewrite unit c.loop
          header body).Shadows name ↔ _ := shadows_rewrite_iff hs hm rfl c.loop header
    refine ⟨hshadows, ?_⟩
    constructor
    · intro h name hm
      exact (h name hm).1
    · intro h name hm
      refine ⟨h name hm, ?_⟩
      rw [hshadows name hm]
      rintro ⟨other, hadded, hne, hsimple⟩
      exact h name hm ⟨other, (mem_added_plannedImports.1 hadded).1.2, hne, hsimple⟩

end Classification

namespace Pairs

/-- Iterables of maps from `a.Item` to another type. -/
def store (value : String) : TypeStore where
  types := #[.declared .classType TypeStore.objectName, .declared .interfaceType "java.util.Map",
    .declared .classType "a.Item", .declared .classType value,
    { kind := .interfaceType, qualifiedName := "java.util.Map<a.Item," ++ value ++ ">"
      name := "Map<Item," ++ Java.simpleName value ++ ">", erasure := some ⟨1⟩
      typeArguments := [⟨2⟩, ⟨3⟩] },
    { kind := .interfaceType, qualifiedName := "java.util.Iterator<java.util.Map>"
      name := "Iterator<Map>", typeArguments := [⟨4⟩] },
    { kind := .interfaceType, qualifiedName := "java.lang.Iterable<java.util.Map>"
      name := "Iterable<Map>", typeArguments := [⟨4⟩] }]
  methods := #[⟨"iterator", ⟨6⟩, some ⟨5⟩⟩, ⟨"hasNext", ⟨5⟩, none⟩, ⟨"next", ⟨5⟩, some ⟨4⟩⟩]
  vars := #[⟨"xs", some ⟨6⟩, .parameter⟩, ⟨"it", some ⟨5⟩, .localVar⟩]

/-- A method that loops over `xs`, with `it.next();` for a body. -/
def unit (value : String) : CompilationUnit :=
  { CompilationUnit.initial "Main.java" with
    types := [⟨"Main", none, [], [⟨"run", none, [(store value).parameter ⟨0⟩], some ⟨3⟩⟩]⟩]
    exprs := #[.name (store value) ⟨0⟩, .call (store value) (some ⟨0⟩) ⟨0⟩ [] none,
      .declare (store value) [(⟨1⟩, some ⟨1⟩)], .name (store value) ⟨1⟩,
      .call (store value) (some ⟨3⟩) ⟨1⟩ [] none, .name (store value) ⟨1⟩,
      .call (store value) (some ⟨5⟩) ⟨2⟩ [] none]
    stmts := #[.eval ⟨6⟩, .block [⟨0⟩], .forLoop [⟨2⟩] (some ⟨4⟩) [] ⟨1⟩, .block [⟨2⟩]] }

/-- With types of different simple names in the map, the simple spelling has one reading. -/
theorem other_value_unambiguous : ∃ c plan header,
    (unit "b.Other").classify (store "b.Other") ⟨true, ⟨17⟩⟩ ⟨2⟩ = .ok (.ok c) ∧
      c.plan (unit "b.Other") (store "b.Other") (.ofList ["map"]) = .ok plan ∧
      plan.header? = some header ∧ c.SpeltSimply (unit "b.Other") (store "b.Other") ∧
      header.typeText = "Map<Item,Other>" ∧
      (plan.rewrite (unit "b.Other") ⟨2⟩ header ⟨1⟩).Unambiguous
        (store "b.Other") c.elementType := by
  have haccepted : ∃ c plan,
      (unit "b.Other").classify (store "b.Other") ⟨true, ⟨17⟩⟩ ⟨2⟩ = .ok (.ok c) ∧
        c.plan (unit "b.Other") (store "b.Other") (.ofList ["map"]) = .ok plan ∧
        c.elementType = ⟨4⟩ ∧ c.usesQualifiedType (unit "b.Other") (store "b.Other") = false :=
    ⟨_, _, rfl, rfl, rfl, by decide⟩
  obtain ⟨c, plan, hclass, hplan, htype, hspelling⟩ := haccepted
  have hsimple := Classification.usesQualifiedType_eq_false_iff.1 hspelling
  obtain ⟨header, hheader, -, htext, -, hread⟩ :=
    Classification.simple_spelling_unambiguous_iff (store "b.Other") ⟨true, ⟨17⟩⟩ ⟨2⟩ hclass
      rfl hplan
  have hdistinct : ∀ a ∈ (store "b.Other").mentionedNames ⟨4⟩,
      ∀ b ∈ (store "b.Other").mentionedNames ⟨4⟩, Java.simpleName b = Java.simpleName a →
      b = a := by
    decide
  refine ⟨c, plan, header, hclass, hplan, hheader, hsimple, ?_, ?_⟩
  · have hbinding : (store "b.Other").type? c.elementType = (store "b.Other").type? ⟨4⟩ := by
      rw [htype]
    exact (htext _ (hbinding.trans rfl)).1 hsimple
  · apply (hread hsimple).2.2
    rintro name hm ⟨other, hother, hne, hsame⟩
    rw [htype, ← TypeStore.mem_mentionedNames] at hm hother
    exact hne (hdistinct name hm other hother hsame)

/-- With `a.Item` and `b.Item` in the map, both are imported and the head reads `Map<Item,Item>`. -/
theorem same_simple_names_imported : ∃ c plan header,
    (unit "b.Item").classify (store "b.Item") ⟨true, ⟨17⟩⟩ ⟨2⟩ = .ok (.ok c) ∧
      c.plan (unit "b.Item") (store "b.Item") (.ofList ["map"]) = .ok plan ∧
      plan.header? = some header ∧ c.SpeltSimply (unit "b.Item") (store "b.Item") ∧
      header.typeText = "Map<Item,Item>" ∧
      plan.imports.added = ["java.util.Map", "a.Item", "b.Item"] ∧
      ¬ (plan.rewrite (unit "b.Item") ⟨2⟩ header ⟨1⟩).Unambiguous (store "b.Item")
        c.elementType := by
  refine ⟨_, _, _, rfl, rfl, rfl, Classification.usesQualifiedType_eq_false_iff.1 (by decide),
    by decide, by decide, ?_⟩
  intro h
  have hmentions (name : String) (hm : name ∈ (store "b.Item").mentionedNames ⟨4⟩) :=
    TypeStore.mem_mentionedNames.1 hm
  exact (h "a.Item" (hmentions _ (by decide))).1
    ⟨"b.Item", hmentions _ (by decide), by decide, by decide⟩

end Pairs
end EnhancedFor
