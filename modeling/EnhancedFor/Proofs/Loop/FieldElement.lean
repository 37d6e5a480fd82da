import EnhancedFor.Proofs.Loop.HeaderName

/-!
Elements that are fields. The classifier takes `s` and `this.s` for the same variable, while the new
head declares a variable that hides the simple name only. Main statement: every reference to the
field that stays in the body is a simple name exactly if each field access goes with a statement or
with an advance call.
-/

namespace EnhancedFor

namespace CompilationUnit

variable {unit : CompilationUnit} {store : TypeStore} {var : VarId} {node : Node} {body : StmtId}
  {occurrences : List Occurrence}

/-- A simple name of the variable. -/
inductive Names (unit : CompilationUnit) (var : VarId) : Node → Prop where
  | name {id : ExprId} {text : String} (h : unit.expr? id = some (.name text (some var))) :
    Names unit var (.expr id)

/-- An access of the variable as a field, with any receiver. -/
inductive Accesses (unit : CompilationUnit) (var : VarId) : Node → Prop where
  | field {id receiver : ExprId} {text : String}
    (h : unit.expr? id = some (.field receiver text (some var))) : Accesses unit var (.expr id)

theorem refers_iff : unit.Refers var node ↔ unit.Names var node ∨ unit.Accesses var node := by
  constructor
  · intro h
    cases h with
    | name h => exact .inl (.name h)
    | field h => exact .inr (.field h)
  · intro h
    rcases h with hname | haccess
    · cases hname with
      | name h => exact .name h
    · cases haccess with
      | field h => exact .field h

theorem Accesses.not_names (h : unit.Accesses var node) : ¬ unit.Names var node := by
  intro hname
  cases h with
  | field h =>
    cases hname with
    | name h' => simp [h] at h'

/-- An element that is accepted from outside is read in the body only, and a field leaves nothing to
drop. -/
theorem outerDeclaration_eq_ok {d : Option StmtId}
    (h : unit.outerDeclaration store body var occurrences = .ok d) :
    (∀ node ∈ unit.nodesOutside body, ¬ unit.Refers var node) ∧
      ∀ v, store.var? var = some v → v.kind = .field → d = none := by
  unfold outerDeclaration at h
  split at h
  · contradiction
  rename_i huse
  constructor
  · intro node hnode hrefers
    exact List.any_eq_false.1 (unused_of_outerUse? huse).2 node hnode (refersAt_iff.2 hrefers)
  · rintro ⟨name, type, kind⟩ hv hkind
    obtain rfl : kind = .field := hkind
    rw [hv] at h
    exact (Except.ok.inj h).symm

theorem outerDeclaration_of_findElement {e : Element}
    (h : unit.findElement store body occurrences = .ok (some e)) (he : e.declaredInLoop = false) :
    unit.outerDeclaration store body e.var occurrences = .ok e.outerDeclaration := by
  unfold findElement at h
  split at h
  · simp at h
  · rename_i var hvar
    split at h
    · obtain rfl := Option.some.inj (Except.ok.inj h)
      simp at he
    · cases hd : unit.outerDeclaration store body var occurrences with
      | error r => simp [hd, Except.map] at h
      | ok d =>
        rw [hd] at h
        obtain rfl := Option.some.inj (Except.ok.inj h)
        exact hd

end CompilationUnit

namespace Classification

open CompilationUnit

variable {c : Classification} {unit : CompilationUnit} {store : TypeStore} {strict : Bool}
  {inits updates : List ExprId} {condition : Option ExprId} {body : StmtId}
  {names : Name.Candidates} {header : Header} {imports : ImportChanges} {node : Node} {var : VarId}

theorem reaches_keepsParts_planBody (hg : unit.Grounded (.stmt body)) :
    unit.Reaches (c.planBody unit names body header imports).keepsParts (.stmt body) node ↔
      unit.Reaches (c.keepsParts (c.removedStatements unit body)) (.stmt body) node := by
  constructor
  · exact reaches_keepsParts hg
  · apply Relation.ReflTransGen.mono
    rintro up kid ⟨hkeeps, hkid⟩
    refine ⟨?_, hkid⟩
    cases up with
    | stmt id => simpa [Plan.keepsParts, removedStatements_planBody, keepsParts] using hkeeps
    | expr id =>
      -- Only advance calls are replaced.
      rw [Plan.keepsParts, replacedCalls_planBody, replacedCalls]
      simp [keepsParts] at hkeeps
      simp [hkeeps]

/-- A reference to a variable stays unless it goes with a statement or with an advance call. -/
theorem mem_nodesBelow_of_refers (hacc : unit.Accepts store strict inits condition updates body c)
    (hu : unit.SingleUse) (hc : unit.Complete) (hg : unit.Grounded (.stmt body))
    (hrefers : unit.Refers var node) :
    node ∈ unit.nodesBelow (.stmt body) (c.planBody unit names body header imports).keepsParts ↔
      unit.Below (.stmt body) node ∧
        ¬ (c.GoesWithStatement unit body node ∨ c.GoesWithCall unit node) := by
  rw [hg.mem_nodesBelow, reaches_keepsParts_iff hacc hu hc hg]
  apply and_congr_right
  intro hb
  constructor
  · rintro ⟨hstmts, hcalls⟩ (⟨stmt, htakes, hn⟩ | ⟨call, hcall, hn⟩)
    · cases hstmts stmt htakes hn
      cases hrefers
    · cases hcalls call hcall hn
      obtain ⟨receiver, name, args, method, hexpr⟩ :=
        exists_call_of_mem_advanceCalls (hacc.advanceCalls ▸ hcall)
      cases hrefers <;> simp_all
  · intro hstays
    constructor
    · intro stmt htakes hn
      exact absurd (.inl ⟨stmt, htakes, hn⟩) hstays
    · intro call hcall hn
      exact absurd (.inr ⟨call, hcall, hn⟩) hstays

theorem isElementName_iff {e : Element} (he : c.element = some e) {id : ExprId} :
    c.isElementName unit id = true ↔ unit.Names e.var (.expr id) := by
  unfold isElementName
  constructor
  · intro h
    split at h
    · rename_i text var hname
      obtain rfl : e.var = var := by simpa [he] using h
      exact .name hname
    · contradiction
  · intro h
    cases h with
    | name h => simp [h, he]

/-- The linked references are the simple names of the element that stay. -/
theorem reference_mem_positions (hacc : unit.Accepts store strict inits condition updates body c)
    (hg : unit.Grounded (.stmt body)) {e : Element} (he : c.element = some e) (id : ExprId) :
    .reference id ∈ (c.planBody unit names body header imports).positions ↔
      .expr id ∈ unit.nodesBelow (.stmt body)
        (c.planBody unit names body header imports).keepsParts ∧ unit.Names e.var (.expr id) := by
  have hposition : .reference id ∈ (c.planBody unit names body header imports).positions ↔
      id ∈ c.references unit body := by
    simp [planBody]
  rw [hposition, references, List.mem_filter, List.mem_filter, mem_remainingExprs hg,
    isElementName_iff he, hg.mem_nodesBelow, reaches_keepsParts_planBody hg]
  constructor
  · rintro ⟨⟨hreach, -⟩, hname⟩
    exact ⟨hreach, hname⟩
  · rintro ⟨hreach, hname⟩
    refine ⟨⟨hreach, ?_⟩, hname⟩
    -- A name is no call.
    simp only [Bool.not_eq_true', ← Bool.not_eq_true, List.contains_iff_mem]
    intro hcall
    obtain ⟨receiver, name, args, method, hexpr⟩ :=
      exists_call_of_mem_advanceCalls (hacc.advanceCalls ▸ hcall)
    cases hname with
    | name h => simp [hexpr] at h

/-- For an accepted loop whose element is a field, with a body that is finite and known, and its
plan: no declaration is dropped, nothing outside the body refers to the field, the head of a
proposal has the name of the field, and the linked references are the simple names of the field that
stay. All references to the field that stay are such names exactly if each field access in the body
goes with a statement of the body block that gives an element, or with an advance call. -/
theorem field_element_named_iff (store : TypeStore) (options : ClassifyOptions) (loop : StmtId)
    {plan : Plan} {e : Element} {v : VariableBinding} (hu : unit.SingleUse)
    (hclass : unit.classify store options loop = .ok (.ok c))
    (hloop : unit.stmt? loop = some (.forLoop inits condition updates body))
    (hg : unit.Grounded (.stmt body)) (hplan : c.plan unit store names = .ok plan)
    (he : c.element = some e) (houter : e.declaredInLoop = false)
    (hv : store.var? e.var = some v) (hkind : v.kind = .field) :
    e.outerDeclaration = none ∧
    (∀ node, unit.Outside body node → ¬ unit.Refers e.var node) ∧
    (∀ scopes suggest span defaultName,
      (∀ names, c.suggestNames store scopes suggest span defaultName = .ok names →
        names.first? = some v.name) ∧
      (unit.BoundIn store → store.Closed →
        ∃ names, c.suggestNames store scopes suggest span defaultName = .ok names)) ∧
    (∀ id, .reference id ∈ plan.positions ↔
      .expr id ∈ unit.nodesBelow (.stmt body) plan.keepsParts ∧ unit.Names e.var (.expr id)) ∧
    ((∀ node ∈ unit.nodesBelow (.stmt body) plan.keepsParts,
        unit.Refers e.var node → unit.Names e.var node) ↔
      ∀ node, unit.Below (.stmt body) node → unit.Accesses e.var node →
        c.GoesWithStatement unit body node ∨ c.GoesWithCall unit node) := by
  obtain ⟨rfl, hacc⟩ := accepts_of_classify_loop hclass hloop
  obtain ⟨hcomplete, header, -, rfl⟩ := plan_eq_ok hloop hplan
  have hc := hu.complete_iff.1 hcomplete
  have helement := hacc.element
  rw [he] at helement
  obtain ⟨hunread, hdrop⟩ := outerDeclaration_eq_ok
    (outerDeclaration_of_findElement helement houter)
  refine ⟨hdrop v hv hkind, ?_, ?_, reference_mem_positions hacc hg he, ?_⟩
  · intro node hout
    exact hunread node ((mem_nodesOutside hu hc).2 hout)
  · intro scopes suggest span defaultName
    refine ⟨fun _ => first?_suggestNames he hv, fun hbound hclosed => ?_⟩
    exact exists_suggestNames_iff.2 fun _ => nameLookups_known hacc hbound hclosed
  constructor
  · intro h node hb haccess
    by_contra hstays
    have hrefers := refers_iff.2 (.inr haccess)
    apply haccess.not_names
    apply h node _ hrefers
    exact (mem_nodesBelow_of_refers hacc hu hc hg hrefers).2 ⟨hb, hstays⟩
  · intro h node hmem hrefers
    obtain ⟨hb, hstays⟩ := (mem_nodesBelow_of_refers hacc hu hc hg hrefers).1 hmem
    rcases refers_iff.1 hrefers with hname | haccess
    · exact hname
    · exact absurd (h node hb haccess) hstays

end Classification

namespace Strings

open CompilationUnit

/-- The store with `s` as a field. -/
def fieldStore : TypeStore :=
  { store with vars := #[⟨"xs", some ⟨3⟩, .parameter⟩, ⟨"s", some ⟨1⟩, .field⟩,
      ⟨"it", some ⟨2⟩, .localVar⟩] }

/-- A class with the field `s` and a method that loops over `xs`. The body assigns `it.next()` to
one reference to the field and uses another; `this.s` and `s` are for these two. -/
def fieldLoop (target used : ExprId) : CompilationUnit :=
  { unit with
    types := [⟨"Main", none, [fieldStore.declaration [(⟨1⟩, none)]],
      [⟨"run", none, [fieldStore.parameter ⟨0⟩], some ⟨4⟩⟩]⟩]
    exprs := #[.name fieldStore ⟨0⟩, .call fieldStore (some ⟨0⟩) ⟨0⟩ [] none,
      .declare fieldStore [(⟨2⟩, some ⟨1⟩)], .name fieldStore ⟨2⟩,
      .call fieldStore (some ⟨3⟩) ⟨1⟩ [] none, .self none, .field fieldStore ⟨5⟩ ⟨1⟩,
      .name fieldStore ⟨1⟩, .name fieldStore ⟨2⟩, .call fieldStore (some ⟨8⟩) ⟨2⟩ [] none,
      ⟨.assign .set target ⟨9⟩, some ⟨1⟩⟩, .unresolvedCall none "use" [used]]
    stmts := #[.eval ⟨10⟩, .eval ⟨11⟩, .block [⟨0⟩, ⟨1⟩], .forLoop [⟨2⟩] (some ⟨4⟩) [] ⟨2⟩,
      .block [⟨3⟩]] }

/-- The body is `this.s = it.next(); use(s);`. -/
def fieldAssigned : CompilationUnit := fieldLoop ⟨6⟩ ⟨7⟩

/-- The body is `s = it.next(); use(this.s);`. -/
def fieldRead : CompilationUnit := fieldLoop ⟨7⟩ ⟨6⟩

/-- The field access goes with the assignment, so that the field is read by its simple name only. -/
theorem access_gone_with_assignment : ∃ c plan,
    fieldAssigned.classify fieldStore ⟨true, ⟨17⟩⟩ ⟨3⟩ = .ok (.ok c) ∧
      c.plan fieldAssigned fieldStore (.ofList ["s"]) = .ok plan ∧
      c.element = some ⟨⟨1⟩, false, none⟩ ∧ fieldAssigned.Accesses ⟨1⟩ (.expr ⟨6⟩) ∧
      .reference ⟨7⟩ ∈ plan.positions ∧
      ∀ node ∈ fieldAssigned.nodesBelow (.stmt ⟨2⟩) plan.keepsParts,
        fieldAssigned.Refers ⟨1⟩ node → fieldAssigned.Names ⟨1⟩ node := by
  have hbackward : fieldAssigned.Backward := by decide
  have hgrounded : fieldAssigned.Grounded (.stmt ⟨2⟩) := hbackward.grounded rfl
  refine ⟨_, _, rfl, rfl, rfl, .field rfl, by decide, ?_⟩
  refine (Classification.field_element_named_iff fieldStore ⟨true, ⟨17⟩⟩ ⟨3⟩ (by decide) rfl rfl
    hgrounded rfl rfl rfl rfl rfl).2.2.2.2.2 ?_
  intro node hb haccess
  have hplace : ∀ n ∈ fieldAssigned.subtree (.stmt ⟨2⟩), fieldAssigned.refersAt ⟨1⟩ n = true →
      n = .expr ⟨6⟩ ∨ n = .expr ⟨7⟩ := by decide
  rcases hplace node (hgrounded.mem_subtree.2 hb) (refersAt_iff.2 (refers_iff.2 (.inr haccess)))
    with rfl | rfl
  · have hbelow : fieldAssigned.Below (.stmt ⟨0⟩) (.expr ⟨6⟩) :=
      .head (b := .expr ⟨10⟩) (by decide) (.single (by decide))
    have hrooted : fieldAssigned.Rooted (.stmt ⟨0⟩) :=
      ⟨.stmt ⟨4⟩, by decide, .head (b := .stmt ⟨3⟩) (by decide)
        (.head (b := .stmt ⟨2⟩) (by decide) (.single (by decide)))⟩
    exact .inl ⟨⟨0⟩, ⟨⟨_, rfl, by decide⟩, .assignment ⟨10⟩ ⟨6⟩, by decide,
      .assignment hrooted (e := ⟨10⟩) (by decide) .refl⟩, hbelow⟩
  · exact absurd (.name rfl) haccess.not_names

/-- Here the body still reads the field, which nothing assigns any more. -/
theorem field_read_after_conversion : fieldRead.SingleUse ∧ ∃ c plan v,
    fieldRead.classify fieldStore ⟨true, ⟨17⟩⟩ ⟨3⟩ = .ok (.ok c) ∧
      c.plan fieldRead fieldStore (.ofList ["s"]) = .ok plan ∧
      c.element = some ⟨⟨1⟩, false, none⟩ ∧ fieldStore.var? ⟨1⟩ = some v ∧ v.kind = .field ∧
      .expr ⟨6⟩ ∈ fieldRead.nodesBelow (.stmt ⟨2⟩) plan.keepsParts ∧
      fieldRead.Refers ⟨1⟩ (.expr ⟨6⟩) ∧ ¬ fieldRead.Names ⟨1⟩ (.expr ⟨6⟩) :=
  ⟨by decide, _, _, _, rfl, rfl, rfl, rfl, rfl, by decide, .field rfl,
    Accesses.not_names (.field rfl)⟩

end Strings
end EnhancedFor
