import EnhancedFor.Loop.Classification
import EnhancedFor.Proofs.Loop.VariableUse
import EnhancedFor.Proofs.Types.Lookup

/-!
How a loop is classified, step by step: what the search for the element finds in the body, and which
nodes the two partial walks see.
-/

namespace EnhancedFor

/-- Where an occurrence stands. -/
def Occurrence.node : Occurrence → Node
  | .declaration stmt _ => .stmt stmt
  | .assignment id _ => .expr id

namespace CompilationUnit

variable {unit : CompilationUnit} {store : TypeStore} {iterator : VarId} {type : TypeId}
  {body loop : StmtId} {o : Occurrence} {node : Node}

/-- The rules for occurrences: a variable of the element type is declared with `null` or an advance
call, or is assigned one of them. -/
inductive Recognized (unit : CompilationUnit) (store : TypeStore) (iterator : VarId)
    (type : TypeId) : Occurrence → Prop where
  | declaration {id : StmtId} {decl : Declaration} {f : Fragment} {var : VarId} {init : ExprId}
    (h : unit.stmt? id = some (.declare decl)) (hf : f ∈ decl.fragments)
    (hb : f.binding = some var) (hi : f.init = some init)
    (hfeeds : unit.feedsElement store iterator init = true)
    (htype : (store.var? var).bind (·.type) = some type) :
    Recognized unit store iterator type (.declaration id var)
  | assignment {id target value : ExprId} {var : VarId}
    (h : unit.expr? id = some (.assign .set target value))
    (hfeeds : unit.feedsElement store iterator value = true)
    (htype : unit.exprType? target = some type) (hvar : unit.varOf? target = some var) :
    Recognized unit store iterator type (.assignment id target)

theorem mem_occurrencesAt : o ∈ unit.occurrencesAt store iterator type node ↔
    o.node = node ∧ unit.Recognized store iterator type o := by
  constructor
  · intro h
    cases node with
    | stmt id =>
      rw [occurrencesAt] at h
      split at h
      · rename_i decl hdecl
        obtain ⟨f, hf, h⟩ := List.mem_filterMap.1 h
        obtain ⟨var, hvar, h⟩ := Option.bind_eq_some_iff.1 h
        obtain ⟨init, hinit, h⟩ := Option.bind_eq_some_iff.1 h
        split at h
        · rename_i hcond
          obtain rfl := Option.some.inj h
          rw [Bool.and_eq_true, beq_iff_eq] at hcond
          exact ⟨rfl, .declaration hdecl hf hvar hinit hcond.1 hcond.2⟩
        · simp at h
      · simp at h
    | expr id =>
      rw [occurrencesAt] at h
      split at h
      · rename_i target value hassign
        split at h
        · rename_i hcond
          obtain rfl := List.mem_singleton.1 h
          rw [Bool.and_eq_true, Bool.and_eq_true, beq_iff_eq] at hcond
          obtain ⟨var, hvar⟩ := Option.isSome_iff_exists.1 hcond.2
          exact ⟨rfl, .assignment hassign hcond.1.1 hcond.1.2 hvar⟩
        · simp at h
      · simp at h
  · rintro ⟨rfl, h⟩
    cases h with
    | @declaration id decl f var init hdecl hf hb hi hfeeds htype =>
      rw [Occurrence.node, occurrencesAt, hdecl]
      exact List.mem_filterMap.2 ⟨f, hf, by simp [hb, hi, hfeeds, htype]⟩
    | assignment hassign hfeeds htype hvar =>
      simp [Occurrence.node, occurrencesAt, hassign, hfeeds, htype, hvar]

theorem recognized_of_mem_occurrences (h : o ∈ unit.occurrences store iterator type body) :
    unit.Recognized store iterator type o := by
  obtain ⟨node, -, ho⟩ := List.mem_flatMap.1 h
  exact (mem_occurrencesAt.1 ho).2

theorem reaches_of_mem_occurrences (hb : unit.Grounded (.stmt body))
    (h : o ∈ unit.occurrences store iterator type body) :
    unit.Reaches (unit.searched store iterator type) (.stmt body) o.node := by
  rw [occurrences] at h
  obtain ⟨node, hn, ho⟩ := List.mem_flatMap.1 h
  rw [(mem_occurrencesAt.1 ho).1]
  exact hb.mem_nodesBelow.1 hn

theorem below_of_mem_occurrences (hb : unit.Grounded (.stmt body))
    (h : o ∈ unit.occurrences store iterator type body) : unit.Below (.stmt body) o.node :=
  (reaches_of_mem_occurrences hb h).below

/-- The node is one of the given assignments or below one. -/
def InAssignment (unit : CompilationUnit) (occurrences : List Occurrence) (node : Node) : Prop :=
  ∃ id target, .assignment id target ∈ occurrences ∧ unit.Below (.expr id) node

theorem mem_nodesOutside (hu : unit.SingleUse) (hc : unit.Complete) :
    node ∈ unit.nodesOutside body ↔ unit.Rooted node ∧ ¬ unit.Below (.stmt body) node := by
  have hcut : (fun n : Node => n != .stmt body) = fun n => !(n == .stmt body) := rfl
  rw [nodesOutside, hcut, List.filter_flatMap, List.mem_flatMap]
  constructor
  · rintro ⟨root, hr, hn⟩
    rw [hu.mem_nodesBelow_filter (hu.grounded hc ⟨root, hr, .refl⟩)] at hn
    refine ⟨⟨root, hr, hn.1⟩, fun hb => ?_⟩
    have hrb : unit.Below root (.stmt body) := by
      rcases hu.below_linear hn.1 hb with h | h
      · exact h
      · exact hu.eq_of_below_root hr h ▸ .refl
    simpa using hn.2 _ hrb hb
  · rintro ⟨⟨root, hr, hn⟩, hb⟩
    refine ⟨root, hr, ?_⟩
    rw [hu.mem_nodesBelow_filter (hu.grounded hc ⟨root, hr, .refl⟩)]
    refine ⟨hn, fun m _ hmn => beq_eq_false_iff_ne.2 ?_⟩
    rintro rfl
    exact hb hmn

theorem nodesOutside_nodup (hu : unit.SingleUse) (hc : unit.Complete) :
    (unit.nodesOutside body).Nodup :=
  (hu.roots_walk_nodup hc).filter _

theorem mem_nodesInside (hu : unit.SingleUse) (hb : unit.Grounded (.stmt body))
    {occurrences : List Occurrence}
    (ho : ∀ o ∈ occurrences, unit.Below (.stmt body) o.node) :
    node ∈ unit.nodesInside body occurrences ↔
      unit.Below (.stmt body) node ∧ ¬ unit.InAssignment occurrences node := by
  have hany (m : Node) : occurrences.any (·.isAssignment m) = true ↔
      ∃ id target, .assignment id target ∈ occurrences ∧ m = .expr id := by
    rw [List.any_eq_true]
    constructor
    · rintro ⟨o, ho, hm⟩
      cases o with
      | declaration stmt var => simp [Occurrence.isAssignment] at hm
      | assignment id target => exact ⟨id, target, ho, by simpa [Occurrence.isAssignment] using hm⟩
    · rintro ⟨id, target, ho, rfl⟩
      exact ⟨_, ho, by simp [Occurrence.isAssignment]⟩
  rw [nodesInside, hu.mem_nodesBelow_filter hb]
  refine and_congr_right fun hn => ⟨?_, ?_⟩
  · rintro hcut ⟨id, target, hmem, hid⟩
    have hfalse := hcut (.expr id) (ho _ hmem) hid
    have htrue := (hany (.expr id)).2 ⟨id, target, hmem, rfl⟩
    exact Bool.false_ne_true (hfalse.symm.trans htrue)
  · intro hout m _ hmn
    refine Bool.eq_false_iff.2 fun htrue => ?_
    obtain ⟨id, target, hmem, rfl⟩ := (hany m).1 htrue
    exact hout ⟨id, target, hmem, hmn⟩

/-- A variable that could be the element is neither written nor read outside the body. -/
theorem unused_of_outerUse? {occurrences : List Occurrence} {var : VarId}
    (h : unit.outerUse? body var occurrences = none) :
    (unit.nodesOutside body).any (unit.writesAt var) = false ∧
      (unit.nodesOutside body).any (unit.refersAt var) = false := by
  rw [outerUse?] at h
  split at h
  · simp at h
  · rename_i hassigned
    simp only [Bool.or_eq_true, not_or, Bool.not_eq_true] at hassigned
    split at h
    · simp at h
    · rename_i hread
      exact ⟨hassigned.1.2, Bool.not_eq_true _ ▸ hread⟩

/-- A declaration to drop stands outside the body and declares one variable, without initialiser. -/
theorem outerDeclaration_eq_some {occurrences : List Occurrence} {var : VarId} {stmt : StmtId}
    (h : unit.outerDeclaration store body var occurrences = .ok (some stmt)) :
    .stmt stmt ∈ unit.nodesOutside body ∧
      ∃ type fragment, unit.stmt? stmt = some (.declare ⟨type, [fragment]⟩) ∧
        fragment.init = none := by
  rw [outerDeclaration] at h
  split at h
  · simp at h
  rename_i huse
  have hunwritten := (unused_of_outerUse? huse).1
  split at h
  · simp at h
  · split at h
    · rename_i id hlist
      split at h
      · rename_i hone
        obtain rfl := Option.some.inj (Except.ok.inj h)
        obtain ⟨⟨type, fragments⟩, hd, hlen⟩ := (Option.any_eq_true _ _).1 hone
        obtain ⟨fragment, rfl⟩ := List.length_eq_one_iff.1 (by simpa using hlen)
        obtain ⟨hout, hdeclares⟩ := List.mem_filter.1 (hlist ▸ List.mem_singleton_self _)
        refine ⟨hout, type, fragment, ?_, ?_⟩
        · cases declarationAt?_eq_some_iff.1 hd with
          | stmt h => exact h
        · -- With an initialiser the declaration would be a write.
          by_contra hinit
          have hbinding : fragment.binding = some var := by
            simpa [declaresAt, hd, Declaration.declares] using hdeclares
          have hwrites : unit.writesAt var (.stmt id) = true := by
            simp [writesAt, hd, Declaration.initializes, hbinding, Option.isSome_iff_ne_none, hinit]
          exact List.any_eq_false.1 hunwritten _ hout hwrites
      · simp at h
    · simp at h
  · simp at h

theorem findElement_eq_some {occurrences : List Occurrence} {element : Option Element}
    {stmt : StmtId} (h : unit.findElement store body occurrences = .ok element)
    (hs : element.bind (·.outerDeclaration) = some stmt) :
    .stmt stmt ∈ unit.nodesOutside body ∧
      ∃ type fragment, unit.stmt? stmt = some (.declare ⟨type, [fragment]⟩) ∧
        fragment.init = none := by
  rw [findElement] at h
  split at h
  · obtain rfl := Except.ok.inj h
    simp at hs
  · rename_i var _
    split at h
    · obtain rfl := Except.ok.inj h
      simp at hs
    · cases hd : unit.outerDeclaration store body var occurrences with
      | error r => simp [hd, Except.map] at h
      | ok d =>
        rw [hd] at h
        obtain rfl := Except.ok.inj h
        obtain rfl : d = some stmt := hs
        exact outerDeclaration_eq_some hd

/-- The element is the last variable that takes one. -/
theorem occurrenceVar_of_findElement {occurrences : List Occurrence} {element : Option Element}
    {e : Element} (h : unit.findElement store body occurrences = .ok element)
    (he : element = some e) :
    occurrences.getLast?.bind unit.occurrenceVar? = some e.var := by
  subst he
  rw [findElement] at h
  split at h
  · simp at h
  · rename_i var hvar
    rw [hvar]
    split at h
    · obtain rfl := Option.some.inj (Except.ok.inj h)
      rfl
    · cases hd : unit.outerDeclaration store body var occurrences with
      | error r => simp [hd, Except.map] at h
      | ok d =>
        rw [hd] at h
        obtain rfl := Option.some.inj (Except.ok.inj h)
        rfl

theorem strictRejection?_mem {condition : Option ExprId} {updates calls : List ExprId}
    {r : Rejection}
    (h : unit.strictRejection? store iterator condition updates body calls = some r) :
    r ∈ [.unsupportedCondition, .multipleAdvanceCalls, .iteratorUsedInBody] := by
  unfold strictRejection? at h
  split at h
  · obtain rfl := Option.some.inj h
    decide
  · split at h
    · obtain rfl := Option.some.inj h
      decide
    · split at h
      · obtain rfl := Option.some.inj h
        decide
      · simp at h

theorem strictRejection?_eq_none_iff {condition : Option ExprId} {updates calls : List ExprId} :
    unit.strictRejection? store iterator condition updates body calls = none ↔
      (updates.isEmpty && condition.any fun c => unit.isCallOn store iterator testMethods
        (unit.strip c)) = true ∧
      calls.length ≤ 1 ∧ unit.iteratorEscapes iterator body calls = false := by
  unfold strictRejection?
  constructor
  · intro h
    split at h
    · contradiction
    · split at h
      · contradiction
      · split at h
        · contradiction
        · rename_i hcondition hcalls hescapes
          exact ⟨by simpa using hcondition, by omega, Bool.eq_false_iff.2 hescapes⟩
  · rintro ⟨hcondition, hlength, hescapes⟩
    have hcalls : ¬ calls.length > 1 := by omega
    simp [hcondition, hcalls, hescapes]

section

variable {options : ClassifyOptions} {inits updates : List ExprId} {condition : Option ExprId}
  (hlevel : options.level.supports .enhancedFor = true)
  (hloop : unit.stmt? loop = some (.forLoop inits condition updates body))

include hlevel hloop

/-- A counted loop is classified where the store lacks nothing that is looked up, and the unit no
code that matters. -/
theorem classify_eq_ok_iff {answer : Except Rejection Classification} :
    unit.classify store options loop = .ok answer ↔
      (∀ b ∈ unit.classifyLookups store options.strict inits condition updates body,
        store.knows b = true) ∧
      (unit.looksOutside store inits body = true → unit.complete = .ok unit) ∧
      unit.classifyParts store options.strict loop inits condition updates body = answer := by
  simp only [classify, hlevel, hloop, Bool.not_true, Bool.false_eq_true, if_false]
  rw [bind_eq_ok, ← TypeStore.require_eq_ok]
  constructor
  · rintro ⟨⟨⟩, hrequire, h⟩
    refine ⟨hrequire, ?_⟩
    split at h
    · obtain ⟨other, hcomplete, h⟩ := bind_eq_ok.1 h
      obtain rfl := eq_of_complete hcomplete
      exact ⟨fun _ => hcomplete, Except.ok.inj h⟩
    · rename_i hinside
      exact ⟨fun houtside => (hinside houtside).elim, Except.ok.inj h⟩
  · rintro ⟨hrequire, hcomplete, rfl⟩
    refine ⟨(), hrequire, ?_⟩
    split
    · rename_i houtside
      exact bind_eq_ok.2 ⟨unit, hcomplete houtside, rfl⟩
    · rfl

theorem classify_eq (hc : unit.complete = .ok unit)
    (hknown : ∀ b ∈ unit.classifyLookups store options.strict inits condition updates body,
      store.knows b = true) :
    unit.classify store options loop =
      .ok (unit.classifyParts store options.strict loop inits condition updates body) :=
  (classify_eq_ok_iff hlevel hloop).2 ⟨hknown, fun _ => hc, rfl⟩

theorem eq_classifyParts_of_classify {answer : Except Rejection Classification}
    (h : unit.classify store options loop = .ok answer) :
    answer = unit.classifyParts store options.strict loop inits condition updates body :=
  ((classify_eq_ok_iff hlevel hloop).1 h).2.2.symm

end

/-- Once iterator and iterable are found, the element and the strict rules decide. -/
theorem classifyParts_eq {strict : Bool} {inits updates : List ExprId} {condition : Option ExprId}
    {iterableExpr : ExprId} {iterable : IterableSource}
    (hiterator : unit.iteratorIn? store inits = some iterator)
    (hiterable : unit.iterableIn? store inits = some (iterableExpr, some iterable)) :
    unit.classifyParts store strict loop inits condition updates body =
      (unit.findElement store body (unit.occurrences store iterator
        (unit.elementType store iterator iterableExpr) body)).bind fun element =>
        match if strict then unit.strictRejection? store iterator condition updates body
          (unit.advanceCalls store iterator body) else none with
        | some r => .error r
        | none => .ok {
            loop, iterator, iterable, iterableExpr, element
            occurrences := unit.occurrences store iterator
              (unit.elementType store iterator iterableExpr) body
            advanceCalls := unit.advanceCalls store iterator body
            elementType := unit.elementType store iterator iterableExpr } := by
  simp only [classifyParts, hiterator, hiterable]
  cases unit.findElement store body (unit.occurrences store iterator
    (unit.elementType store iterator iterableExpr) body) with
  | error r => rfl
  | ok element =>
    cases strict with
    | false => rfl
    | true =>
      simp only [if_true, bind, Except.bind]
      cases unit.strictRejection? store iterator condition updates body
        (unit.advanceCalls store iterator body) <;> rfl

theorem exists_call_of_mem_advanceCalls {id : ExprId}
    (h : id ∈ unit.advanceCalls store iterator body) : ∃ receiver name args binding,
      unit.expr? id = some (.call receiver name args binding) := by
  obtain ⟨node, -, hnode⟩ := List.mem_filterMap.1 h
  cases node with
  | stmt s => simp at hnode
  | expr e =>
    obtain ⟨hadvance, he⟩ := Option.ite_none_right_eq_some.1 hnode
    obtain rfl := Option.some.inj he
    rw [isAdvance, isCallOn] at hadvance
    split at hadvance
    · rename_i hcall
      exact ⟨_, _, _, _, hcall⟩
    · contradiction

/-- All that an accepted loop went through. -/
structure Accepts (unit : CompilationUnit) (store : TypeStore) (strict : Bool)
    (inits : List ExprId) (condition : Option ExprId) (updates : List ExprId) (body : StmtId)
    (c : Classification) : Prop where
  isLoop : unit.stmt? c.loop = some (.forLoop inits condition updates body)
  iterator : unit.iteratorIn? store inits = some c.iterator
  iterable : unit.iterableIn? store inits = some (c.iterableExpr, some c.iterable)
  elementType : c.elementType = unit.elementType store c.iterator c.iterableExpr
  occurrences : c.occurrences = unit.occurrences store c.iterator c.elementType body
  advanceCalls : c.advanceCalls = unit.advanceCalls store c.iterator body
  element : unit.findElement store body c.occurrences = .ok c.element
  rules : strict = true → unit.strictRejection? store c.iterator condition updates body
    c.advanceCalls = none

theorem accepts_of_classifyParts {strict : Bool} {inits updates : List ExprId}
    {condition : Option ExprId} {c : Classification}
    (hloop : unit.stmt? loop = some (.forLoop inits condition updates body))
    (h : unit.classifyParts store strict loop inits condition updates body = .ok c) :
    c.loop = loop ∧ unit.Accepts store strict inits condition updates body c := by
  cases hiterator : unit.iteratorIn? store inits with
  | none => simp [classifyParts, hiterator, throw, throwThe, MonadExceptOf.throw] at h
  | some iterator =>
    cases hiterable : unit.iterableIn? store inits with
    | none =>
      simp [classifyParts, hiterator, hiterable, throw, throwThe, MonadExceptOf.throw] at h
    | some found =>
      obtain ⟨iterableExpr, iterable⟩ := found
      cases iterable with
      | none =>
        simp [classifyParts, hiterator, hiterable, throw, throwThe, MonadExceptOf.throw] at h
      | some iterable =>
        rw [classifyParts_eq hiterator hiterable] at h
        cases hfind : unit.findElement store body (unit.occurrences store iterator
            (unit.elementType store iterator iterableExpr) body) with
        | error r => simp [hfind, Except.bind] at h
        | ok element =>
          simp only [hfind, Except.bind] at h
          split at h
          · simp at h
          · rename_i hrules
            obtain rfl := Except.ok.inj h
            refine ⟨rfl, hloop, hiterator, hiterable, rfl, rfl, rfl, hfind, fun hs => ?_⟩
            rwa [if_pos hs] at hrules

/-- The strict rules take loops away and change nothing else. -/
theorem classifyParts_strict_iff {inits updates : List ExprId} {condition : Option ExprId}
    {c : Classification} :
    unit.classifyParts store true loop inits condition updates body = .ok c ↔
      unit.classifyParts store false loop inits condition updates body = .ok c ∧
        unit.strictRejection? store c.iterator condition updates body c.advanceCalls = none := by
  cases hiterator : unit.iteratorIn? store inits with
  | none => simp [classifyParts, hiterator, throw, throwThe, MonadExceptOf.throw]
  | some iterator =>
    cases hiterable : unit.iterableIn? store inits with
    | none => simp [classifyParts, hiterator, hiterable, throw, throwThe, MonadExceptOf.throw]
    | some found =>
      obtain ⟨iterableExpr, iterable⟩ := found
      cases iterable with
      | none => simp [classifyParts, hiterator, hiterable, throw, throwThe, MonadExceptOf.throw]
      | some iterable =>
        rw [classifyParts_eq hiterator hiterable, classifyParts_eq hiterator hiterable]
        cases unit.findElement store body (unit.occurrences store iterator
            (unit.elementType store iterator iterableExpr) body) with
        | error r => simp [Except.bind]
        | ok element =>
          simp only [Except.bind, if_true, Bool.false_eq_true, if_false]
          constructor
          · intro h
            split at h
            · simp at h
            · rename_i hrules
              obtain rfl := Except.ok.inj h
              exact ⟨rfl, hrules⟩
          · rintro ⟨h, hrules⟩
            obtain rfl := Except.ok.inj h
            dsimp only at hrules
            rw [hrules]

theorem calledAt_known_of_isCallOn {names : List String} {id : ExprId} {b : Binding}
    (h : unit.isCallOn store iterator names id = true) (hb : b ∈ unit.calledAt (.expr id)) :
    store.knows b = true := by
  rw [isCallOn] at h
  split at h
  · rename_i receiver name args method hcall
    simp only [Bool.and_eq_true, List.isEmpty_iff] at h
    obtain ⟨⟨rfl, hmethod⟩, -⟩ := h
    rw [calledAt, hcall, List.mem_singleton] at hb
    obtain ⟨m, hm, -⟩ := (Option.any_eq_true _ _).1 hmethod
    simp [hb, TypeStore.knows, hm]
  · contradiction

/-- Beyond the rest, the strict rules look up the method that the condition calls. -/
theorem mem_classifyLookups_strict {inits updates : List ExprId} {condition : Option ExprId}
    {b : Binding} (h : b ∈ unit.classifyLookups store true inits condition updates body) :
    b ∈ unit.classifyLookups store false inits condition updates body ∨
      ∃ e, condition = some e ∧ b ∈ unit.calledAt (.expr (unit.strip e)) := by
  rw [classifyLookups] at h ⊢
  rcases List.mem_append.1 h with h | h
  · exact .inl (List.mem_append_left _ h)
  · cases hiterator : unit.iteratorIn? store inits with
    | none => simp [hiterator] at h
    | some iterator =>
      simp only [hiterator] at h
      split at h
      · rename_i hsome hiterable
        obtain rfl := Option.some.inj hsome
        rcases List.mem_append.1 h with h | h
        · refine .inl (List.mem_append_right _ ?_)
          exact List.mem_append_left _ h
        · split at h
          · obtain ⟨e, he, hb⟩ := List.mem_flatMap.1 h
            exact .inr ⟨e, Option.mem_toList.1 he, hb⟩
          · exact (List.not_mem_nil h).elim
      · exact (List.not_mem_nil h).elim

theorem mem_classifyLookups_of_lenient {inits updates : List ExprId} {condition : Option ExprId}
    {b : Binding} (h : b ∈ unit.classifyLookups store false inits condition updates body)
    (strict : Bool) : b ∈ unit.classifyLookups store strict inits condition updates body := by
  rw [classifyLookups] at h ⊢
  rcases List.mem_append.1 h with h | h
  · exact List.mem_append_left _ h
  · refine List.mem_append_right _ ?_
    split at h
    · rcases List.mem_append.1 h with h | h
      · exact List.mem_append_left _ h
      · exact (List.not_mem_nil h).elim
    · exact (List.not_mem_nil h).elim

/-- A loop is accepted under the strict rules exactly if it is accepted without them and no strict
rule rejects it. -/
theorem classify_strict_iff {level : Java.Level} {inits updates : List ExprId}
    {condition : Option ExprId} {c : Classification}
    (hloop : unit.stmt? loop = some (.forLoop inits condition updates body)) :
    unit.classify store ⟨true, level⟩ loop = .ok (.ok c) ↔
      unit.classify store ⟨false, level⟩ loop = .ok (.ok c) ∧
        unit.strictRejection? store c.iterator condition updates body c.advanceCalls = none := by
  cases hlevel : level.supports .enhancedFor with
  | false => simp [classify, hlevel]
  | true =>
    have hanswer (strict : Bool) : unit.classify store ⟨strict, level⟩ loop = .ok (.ok c) ↔ _ :=
      classify_eq_ok_iff hlevel hloop
    rw [hanswer true, hanswer false, classifyParts_strict_iff]
    constructor
    · rintro ⟨hknown, hcomplete, haccepted, hrules⟩
      exact ⟨⟨fun b hb => hknown b (mem_classifyLookups_of_lenient hb true), hcomplete, haccepted⟩,
        hrules⟩
    · rintro ⟨⟨hknown, hcomplete, haccepted⟩, hrules⟩
      refine ⟨fun b hb => ?_, hcomplete, haccepted, hrules⟩
      rcases mem_classifyLookups_strict hb with hlenient | ⟨e, rfl, hcalled⟩
      · exact hknown b hlenient
      · obtain ⟨hcondition, -⟩ := strictRejection?_eq_none_iff.1 hrules
        exact calledAt_known_of_isCallOn (Bool.and_eq_true_iff.1 hcondition).2 hcalled

/-- Only counted loops are accepted, at a level that has the other kind of loop. -/
theorem accepts_of_classify {options : ClassifyOptions} {c : Classification}
    (h : unit.classify store options loop = .ok (.ok c)) :
    options.level.supports .enhancedFor = true ∧ c.loop = loop ∧
      ∃ inits condition updates body,
        unit.Accepts store options.strict inits condition updates body c := by
  cases hlevel : options.level.supports .enhancedFor with
  | false => simp [classify, hlevel] at h
  | true =>
    refine ⟨rfl, ?_⟩
    cases hstmt : unit.stmt? loop with
    | none => simp [classify, hlevel, hstmt] at h
    | some s =>
      cases s with
      | forLoop inits condition updates body =>
        have hparts := eq_classifyParts_of_classify hlevel hstmt h
        obtain ⟨hl, hacc⟩ := accepts_of_classifyParts hstmt hparts.symm
        exact ⟨hl, inits, condition, updates, body, hacc⟩
      | _ => simp [classify, hlevel, hstmt] at h

theorem accepts_of_classify_loop {options : ClassifyOptions} {c : Classification}
    {inits updates : List ExprId} {condition : Option ExprId}
    (h : unit.classify store options loop = .ok (.ok c))
    (hloop : unit.stmt? loop = some (.forLoop inits condition updates body)) :
    c.loop = loop ∧ unit.Accepts store options.strict inits condition updates body c := by
  obtain ⟨-, rfl, inits', condition', updates', body', hacc⟩ := accepts_of_classify h
  obtain ⟨rfl, rfl, rfl, rfl⟩ :
      inits' = inits ∧ condition' = condition ∧ updates' = updates ∧ body' = body := by
    simpa using hacc.isLoop.symm.trans hloop
  exact ⟨rfl, hacc⟩

end CompilationUnit
end EnhancedFor
