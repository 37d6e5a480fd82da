import EnhancedFor.Proofs.Loop.OuterElement
import EnhancedFor.Proofs.Loop.Plan

/-!
What the recorded occurrences of an accepted loop say about its element. Main statement: each gives
an element to one variable, the last one to the element itself, and all of them to the element
exactly if no two give to different variables. A body with two variables of the element type records
both.
-/

namespace EnhancedFor

namespace CompilationUnit

variable {unit : CompilationUnit} {store : TypeStore} {iterator var : VarId} {type : TypeId}
  {body : StmtId} {o : Occurrence} {occurrences : List Occurrence}

/-- The occurrence declares the variable or assigns it. -/
inductive Gives (unit : CompilationUnit) (var : VarId) : Occurrence → Prop where
  | declaration {stmt : StmtId} {decl : Declaration} (h : unit.stmt? stmt = some (.declare decl))
    (hd : decl.Initializes var) : Gives unit var (.declaration stmt var)
  | assignment {id target value : ExprId} (h : unit.expr? id = some (.assign .set target value))
    (hr : unit.Refers var (.expr target)) : Gives unit var (.assignment id target)

theorem Gives.occurrenceVar? (h : unit.Gives var o) : unit.occurrenceVar? o = some var := by
  cases h with
  | declaration => rfl
  | assignment _ hr => exact varOf?_eq_some_iff.2 hr

theorem Recognized.gives (h : unit.Recognized store iterator type o)
    (hvar : unit.occurrenceVar? o = some var) : unit.Gives var o := by
  cases h with
  | declaration hdecl hf hb hi _ _ =>
    obtain rfl := Option.some.inj hvar
    exact .declaration hdecl ⟨_, hf, hb, by simp [hi]⟩
  | assignment hassign _ _ _ => exact .assignment hassign (varOf?_eq_some_iff.1 hvar)

theorem Recognized.exists_gives (h : unit.Recognized store iterator type o) :
    ∃ var, unit.Gives var o := by
  have hvar : ∃ var, unit.occurrenceVar? o = some var := by
    cases h with
    | declaration => exact ⟨_, rfl⟩
    | assignment _ _ _ hvar => exact ⟨_, hvar⟩
  obtain ⟨var, hvar⟩ := hvar
  exact ⟨var, h.gives hvar⟩

/-- The element is the variable of the last occurrence, wherever it is declared. -/
theorem var_of_findElement {element : Option Element}
    (h : unit.findElement store body occurrences = .ok element) :
    element.map (·.var) = occurrences.getLast?.bind unit.occurrenceVar? := by
  rw [findElement] at h
  split at h
  · rename_i hnone
    obtain rfl := Except.ok.inj h
    exact hnone.symm
  · rename_i var hvar
    rw [hvar]
    split at h
    · obtain rfl := Except.ok.inj h
      rfl
    · cases hd : unit.outerDeclaration store body var occurrences with
      | error r => simp [hd, Except.map] at h
      | ok d =>
        rw [hd] at h
        obtain rfl := Except.ok.inj h
        rfl

end CompilationUnit

open CompilationUnit

/-- In every accepted loop: there are occurrences exactly if there is an element; each occurrence
declares or assigns one variable, and the last one the element. All of them give to the element
exactly if they all give to the same variable. -/
theorem Classification.occurrences_give {c : Classification} {unit : CompilationUnit}
    (store : TypeStore) (options : ClassifyOptions) (loop : StmtId)
    (h : unit.classify store options loop = .ok (.ok c)) :
    (c.occurrences = [] ↔ c.element = none) ∧
    (∀ o ∈ c.occurrences, ∃ var, unit.Gives var o ∧ ∀ other, unit.Gives other o → other = var) ∧
    (∀ element, c.element = some element →
      ∃ o, c.occurrences.getLast? = some o ∧ unit.Gives element.var o) ∧
    ((∀ element, c.element = some element → ∀ o ∈ c.occurrences, unit.Gives element.var o) ↔
      ∀ o ∈ c.occurrences, ∀ o' ∈ c.occurrences, ∀ var, unit.Gives var o → unit.Gives var o') := by
  obtain ⟨-, -, inits, condition, updates, body, hacc⟩ := accepts_of_classify h
  have hrec : ∀ o ∈ c.occurrences, unit.Recognized store c.iterator c.elementType o := by
    intro o ho
    rw [hacc.occurrences] at ho
    exact recognized_of_mem_occurrences ho
  have hvar := var_of_findElement hacc.element
  have hlast (element : Element) (he : c.element = some element) :
      ∃ o, c.occurrences.getLast? = some o ∧ unit.Gives element.var o := by
    rw [he] at hvar
    obtain ⟨o, ho, hov⟩ := Option.bind_eq_some_iff.1 hvar.symm
    exact ⟨o, ho, (hrec o (List.mem_of_getLast? ho)).gives hov⟩
  have hempty : c.occurrences = [] ↔ c.element = none := by
    constructor
    · intro hnil
      rw [hnil] at hvar
      simpa using hvar
    · intro hnone
      by_contra hne
      -- The last occurrence has a variable, and that would be the element.
      obtain ⟨var, hg⟩ := (hrec _ (List.getLast_mem hne)).exists_gives
      rw [hnone, List.getLast?_eq_some_getLast hne, Option.bind_some, hg.occurrenceVar?] at hvar
      simp at hvar
  refine ⟨hempty, fun o ho => ?_, hlast, fun hall o ho o' ho' var hg => ?_,
    fun hsame element he o ho => ?_⟩
  · obtain ⟨var, hg⟩ := (hrec o ho).exists_gives
    exact ⟨var, hg, fun other hother =>
      Option.some.inj (hother.occurrenceVar?.symm.trans hg.occurrenceVar?)⟩
  · cases he : c.element with
    | none => simp [hempty.2 he] at ho
    | some element =>
      have heq := (hall element he o ho).occurrenceVar?.symm.trans hg.occurrenceVar?
      exact Option.some.inj heq ▸ hall element he o' ho'
  · obtain ⟨last, hl, hg⟩ := hlast element he
    exact hsame last (List.mem_of_getLast? hl) o ho element.var hg

namespace Strings

/-- The one occurrence in the method is an assignment of `s`, which is the element. -/
theorem assignment_gives_element : ∃ c element,
    unit.classify store ⟨true, ⟨17⟩⟩ ⟨3⟩ = .ok (.ok c) ∧ c.element = some element ∧
      ∃ o, c.occurrences.getLast? = some o ∧ unit.Gives element.var o := by
  refine ⟨_, _, rfl, rfl, ?_⟩
  exact (Classification.occurrences_give store ⟨true, ⟨17⟩⟩ ⟨3⟩ rfl).2.2.1 _ rfl

/-- The store with a second local string `t`. -/
def twoStrings : TypeStore := { store with vars := store.vars.push ⟨"t", some ⟨1⟩, .localVar⟩ }

/-- A method that loops over `xs`, with `String t = null; String s = it.next(); use(t);` for a
body. -/
def twoDeclarations : CompilationUnit :=
  { unit with
    types := [⟨"Main", none, [], [⟨"run", none, [twoStrings.parameter ⟨0⟩], some ⟨5⟩⟩]⟩]
    exprs := #[.name twoStrings ⟨0⟩, .call twoStrings (some ⟨0⟩) ⟨0⟩ [] none,
      .declare twoStrings [(⟨2⟩, some ⟨1⟩)], .name twoStrings ⟨2⟩,
      .call twoStrings (some ⟨3⟩) ⟨1⟩ [] none, .literal .null "null" none, .name twoStrings ⟨2⟩,
      .call twoStrings (some ⟨6⟩) ⟨2⟩ [] none, .name twoStrings ⟨3⟩,
      .unresolvedCall none "use" [⟨8⟩]]
    stmts := #[.declare (twoStrings.declaration [(⟨3⟩, some ⟨5⟩)]),
      .declare (twoStrings.declaration [(⟨1⟩, some ⟨7⟩)]), .eval ⟨9⟩, .block [⟨0⟩, ⟨1⟩, ⟨2⟩],
      .forLoop [⟨2⟩] (some ⟨4⟩) [] ⟨3⟩, .block [⟨4⟩]] }

/-- The element is `s`, and the declaration of `t` is recorded as one of its occurrences and
removed, though a use of `t` stays. -/
theorem other_declaration_recorded : ∃ c element plan,
    twoDeclarations.classify twoStrings ⟨true, ⟨17⟩⟩ ⟨4⟩ = .ok (.ok c) ∧
      c.element = some element ∧ .declaration ⟨0⟩ ⟨3⟩ ∈ c.occurrences ∧
      ¬ twoDeclarations.Gives element.var (.declaration ⟨0⟩ ⟨3⟩) ∧
      c.plan twoDeclarations twoStrings (.ofList ["s"]) = .ok plan ∧
      ⟨0⟩ ∈ plan.removedStatements ∧ ⟨2⟩ ∉ plan.removedStatements := by
  refine ⟨_, _, _, rfl, rfl, by decide, fun h => ?_, rfl, by decide, by decide⟩
  cases h

end Strings
end EnhancedFor
