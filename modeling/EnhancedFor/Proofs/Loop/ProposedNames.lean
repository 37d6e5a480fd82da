import EnhancedFor.Loop.Names
import EnhancedFor.Proofs.Loop.OuterElement
import EnhancedFor.Proofs.Name.Suggestion

/-!
The names proposed for the variable of a converted loop, whatever the surroundings answer. Excluded
names are dropped, the suggestions of the library stand in where nothing is left, and the name of an
element variable comes first. Main statement: there is always a name, none twice, and only the
element variable may have an excluded one; nothing but a variable or type that the store lacks can
come between.
-/

namespace EnhancedFor

namespace Name.Candidates

variable {names : List String} {candidates : Candidates} {name : String}

theorem mem_ofList : name ∈ (ofList names).toList ↔ name ∈ names := List.mem_eraseDups

theorem isEmpty_iff : candidates.isEmpty = true ↔ candidates.toList = [] := List.isEmpty_iff

end Name.Candidates

namespace Classification

open Name

variable {c : Classification} {store : TypeStore} {scopes : Scopes} {suggest : NameSuggester}
  {span : Span} {base defaultName name : String} {excluded : List String} {names : Candidates}

theorem not_mem_of_mem_freeNames
    (h : name ∈ (freeNames suggest base excluded defaultName).toList) : name ∉ excluded := by
  unfold freeNames at h
  dsimp only at h
  split at h
  · exact not_mem_of_mem_suggest (Candidates.mem_ofList.1 h)
  · have hfree := (List.mem_filter.1 (Candidates.mem_ofList.1 h)).2
    simpa using hfree

/-- What the names for a loop are made from: the iterator with its type and type argument, and the
element variable. -/
def nameLookups (c : Classification) (store : TypeStore) : List Binding :=
  let type := (store.var? c.iterator).bind (·.type)
  .var c.iterator :: type.toList.map .type ++
    (type.bind store.firstTypeArgument?).toList.map .type ++
    c.element.toList.map fun e => .var e.var

theorem exists_nameSeed_iff : (∃ seed, c.nameSeed store defaultName = .ok seed) ↔
    store.knows (.var c.iterator) = true ∧
      ∀ type, (store.var? c.iterator).bind (·.type) = some type →
        store.knows (.type type) = true ∧
          ∀ arg, store.firstTypeArgument? type = some arg → store.knows (.type arg) = true := by
  unfold nameSeed TypeStore.var TypeStore.type TypeStore.knows TypeStore.firstTypeArgument?
  cases hv : store.var? c.iterator with
  | none => simp [hv, bind, Except.bind]
  | some v =>
    cases htype : v.type with
    | none => simp [hv, htype, bind, Except.bind, pure, Except.pure]
    | some type =>
      cases hb : store.type? type with
      | none => simp [hv, htype, hb, bind, Except.bind]
      | some b =>
        cases harg : b.typeArguments.head? with
        | none => simp [hv, htype, hb, harg, bind, Except.bind, pure, Except.pure]
        | some arg =>
          cases hlast : store.type? arg with
          | none => simp [hv, htype, hb, harg, hlast, bind, Except.bind]
          | some => simp [hv, htype, hb, harg, hlast, bind, Except.bind, pure, Except.pure]

/-- Names come from a base that is not excluded, and the element variable stands before them. -/
theorem suggestNames_eq_ok : c.suggestNames store scopes suggest span defaultName = .ok names ↔
    ∃ seed, c.nameSeed store defaultName = .ok seed ∧
      (c.element = none ∧ names = freeNames suggest seed
        (scopes.before span.start ++ scopes.after span.stop) defaultName ∨
      ∃ e v, c.element = some e ∧ store.var? e.var = some v ∧ names = (freeNames suggest seed
        (scopes.before span.start ++ scopes.after span.stop) defaultName).forceFront v.name) := by
  unfold suggestNames
  rw [bind_eq_ok]
  refine exists_congr fun seed => and_congr_right fun _ => ?_
  cases c.element with
  | none => simp [pure, Except.pure, eq_comm]
  | some e =>
    dsimp only
    rw [bind_eq_ok]
    simp only [TypeStore.var_eq_ok, pure, Except.pure, Except.ok.injEq, Option.some.injEq,
      reduceCtorEq, false_and, false_or]
    constructor
    · rintro ⟨v, hv, rfl⟩
      exact ⟨e, v, rfl, hv, rfl⟩
    · rintro ⟨_, v, rfl, hv, rfl⟩
      exact ⟨v, hv, rfl⟩

/-- There are names exactly if nothing that they are made from is lacking. -/
theorem exists_suggestNames_iff :
    (∃ names, c.suggestNames store scopes suggest span defaultName = .ok names) ↔
      ∀ b ∈ c.nameLookups store, store.knows b = true := by
  have hlookups : (∀ b ∈ c.nameLookups store, store.knows b = true) ↔
      (∃ seed, c.nameSeed store defaultName = .ok seed) ∧
        ∀ e, c.element = some e → store.knows (.var e.var) = true := by
    rw [exists_nameSeed_iff, nameLookups]
    cases hv : (store.var? c.iterator).bind (·.type) with
    | none => simp [or_imp, forall_and]
    | some type =>
      cases harg : store.firstTypeArgument? type with
      | none => simp [harg, or_imp, forall_and, and_assoc]
      | some arg => simp [harg, or_imp, forall_and, and_assoc]
  simp only [suggestNames_eq_ok, hlookups]
  constructor
  · rintro ⟨names, seed, hseed, hnone | ⟨e, v, he, hv, -⟩⟩
    · exact ⟨⟨seed, hseed⟩, fun e he => by simp [hnone.1] at he⟩
    · refine ⟨⟨seed, hseed⟩, fun e' he' => ?_⟩
      obtain rfl := Option.some.inj (he.symm.trans he')
      simp [TypeStore.knows, hv]
  · rintro ⟨⟨seed, hseed⟩, helement⟩
    cases he : c.element with
    | none => exact ⟨_, seed, hseed, .inl ⟨rfl, rfl⟩⟩
    | some e =>
      obtain ⟨v, hv⟩ := TypeStore.exists_var (helement e he)
      exact ⟨_, seed, hseed, .inr ⟨e, v, rfl, hv, rfl⟩⟩

/-- Nothing is lacking for an accepted loop of a unit that is bound in a closed store. -/
theorem nameLookups_known {unit : CompilationUnit} {strict : Bool} {inits updates : List ExprId}
    {condition : Option ExprId} {body : StmtId} {b : Binding}
    (h : unit.Accepts store strict inits condition updates body c) (hbound : unit.BoundIn store)
    (hclosed : store.Closed) (hb : b ∈ c.nameLookups store) : store.knows b = true := by
  simp only [nameLookups, List.cons_append, List.mem_cons, List.mem_append, List.mem_map,
    Option.mem_toList] at hb
  rcases hb with rfl | (⟨type, htype, rfl⟩ | ⟨arg, harg, rfl⟩) | ⟨e, he, rfl⟩
  · have hmem := (List.mem_filter.1 (List.mem_of_getLast? h.iterator)).1
    obtain ⟨f, hf, hbinding⟩ := List.mem_filterMap.1 hmem
    exact hbound.fragment hf hbinding
  · obtain ⟨v, hv, htype⟩ := Option.bind_eq_some_iff.1 htype
    exact hclosed.vars_known c.iterator v hv type htype
  · obtain ⟨type, -, harg⟩ := Option.bind_eq_some_iff.1 harg
    exact hclosed.firstTypeArgument_known harg
  · have hlast := CompilationUnit.occurrenceVar_of_findElement h.element he
    rw [h.occurrences] at hlast
    exact hbound.lastOccurrence hlast

end Classification

namespace Strings

end Strings
end EnhancedFor
