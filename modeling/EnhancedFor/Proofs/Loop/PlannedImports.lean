import EnhancedFor.Loop.Imports

/-!
What an account of node changes enters into the import list: the lines that are dead, and the types
that are newly mentioned and need a line.
-/

namespace EnhancedFor

namespace Import

/-- The import makes the type known by its simple name. -/
inductive Provides : Import → String → Prop where
  | single {name : String} : Provides ⟨name, false, false⟩ name
  | onDemand {name package : String} (h : Java.packageName? name = some package) :
    Provides ⟨package, false, true⟩ name

theorem provides_iff {i : Import} {name : String} : i.Provides name ↔ (!i.isStatic &&
    if i.isOnDemand then some i.path == Java.packageName? name else i.path == name) = true := by
  obtain ⟨path, isStatic, isOnDemand⟩ := i
  constructor
  · intro h
    cases h with
    | single => simp
    | onDemand h => simp [h]
  · intro h
    cases isStatic with
    | true => simp at h
    | false =>
      cases isOnDemand with
      | true =>
        have hpackage : some path = Java.packageName? name := by simpa using h
        exact .onDemand hpackage.symm
      | false =>
        obtain rfl : path = name := by simpa using h
        exact .single

end Import

/-- Types that need no import: those of the default package, of `java.lang` and of the unit's own
package. -/
def CompilationUnit.Implicit (unit : CompilationUnit) (name : String) : Prop :=
  Java.packageName? name = none ∨ Java.packageName? name = some "java.lang" ∨
    Java.packageName? name = unit.package

section

variable {σ α β : Type} {f : σ → α → σ} {v : σ → List β}

/-- Steps that enter one element each. -/
theorem mem_view_foldl {g : α → β} (h : ∀ s a x, x ∈ v (f s a) ↔ x ∈ v s ∨ x = g a) {s : σ}
    {l : List α} {x : β} : x ∈ v (l.foldl f s) ↔ x ∈ v s ∨ ∃ a ∈ l, x = g a := by
  induction l generalizing s with
  | nil => simp
  | cons a l ih => simp [ih, h, or_assoc]

/-- Steps that leave what is viewed as it is. -/
theorem view_foldl (h : ∀ s a, v (f s a) = v s) (s : σ) (l : List α) : v (l.foldl f s) = v s := by
  induction l generalizing s with
  | nil => rfl
  | cons a l ih => rw [List.foldl_cons, ih, h]

end

namespace ImportChanges

theorem mem_added_add (changes : ImportChanges) (name a : String) :
    a ∈ (changes.add name).added ↔ a ∈ changes.added ∨ a = name := by
  unfold add
  split
  · rename_i h
    have hmem := List.contains_iff_mem.1 h
    grind
  · simp

theorem mem_removed_remove (changes : ImportChanges) (line l : ImportLine) :
    l ∈ (changes.remove line).removed ↔ l ∈ changes.removed ∨ l = line := by
  unfold remove
  split
  · rename_i h
    have hmem := List.contains_iff_mem.1 h
    grind
  · simp

theorem removed_add (changes : ImportChanges) (name : String) :
    (changes.add name).removed = changes.removed := by
  unfold add
  split <;> rfl

theorem added_remove (changes : ImportChanges) (line : ImportLine) :
    (changes.remove line).added = changes.added := by
  unfold remove
  split <;> rfl

end ImportChanges

namespace NodeChanges

variable {changes : NodeChanges} {unit : CompilationUnit} {store : TypeStore}

theorem mem_added_applyTo {name : String} :
    name ∈ (changes.applyTo unit store .empty).added ↔ name ∈ changes.neededImports unit := by
  unfold applyTo
  rw [mem_view_foldl ImportChanges.mem_added_add, view_foldl ImportChanges.added_remove]
  simp [ImportChanges.empty]

theorem mem_removed_applyTo {line : ImportLine} :
    line ∈ (changes.applyTo unit store .empty).removed ↔ line ∈ changes.deadImports unit store := by
  unfold applyTo
  rw [view_foldl ImportChanges.removed_add, mem_view_foldl ImportChanges.mem_removed_remove]
  simp [ImportChanges.empty]

theorem mem_neededImports {name : String} : name ∈ changes.neededImports unit ↔
    name ∈ changes.added ∧ ¬ unit.Implicit name ∧ ¬ ∃ i ∈ unit.imports, i.Provides name := by
  have himported : (∃ i ∈ unit.imports, i.Provides name) ↔ (unit.imports.any fun i =>
      !i.isStatic && if i.isOnDemand then some i.path == Java.packageName? name
        else i.path == name) = true := by
    rw [List.any_eq_true]
    simp only [Import.provides_iff]
  rw [himported]
  unfold neededImports CompilationUnit.Implicit
  simp [Option.isSome_iff_ne_none, and_assoc]

end NodeChanges

end EnhancedFor
