import EnhancedFor.Proofs.Loop.IteratorUse

/-!
Variables that the head of a loop declares beside the iterator. The new head declares none of them,
and no rule of the classifier asks for them. Main statement: what stays of the body refers to none
exactly if every reference to one goes with a statement or with an advance call.
-/

namespace EnhancedFor

/-- One of the first parts of a loop declares the variable. -/
def CompilationUnit.HeadDeclares (unit : CompilationUnit) (inits : List ExprId) (var : VarId) :
    Prop :=
  ∃ e ∈ inits, unit.Declares var (.expr e)

namespace Classification

open CompilationUnit

variable {c : Classification} {unit : CompilationUnit} {store : TypeStore} {strict : Bool}
  {inits updates : List ExprId} {condition : Option ExprId} {body stmt : StmtId}
  {names : Name.Candidates} {header : Header} {imports : ImportChanges} {node : Node}

/-- A statement of the body block that an occurrence stands in. -/
def Takes (c : Classification) (unit : CompilationUnit) (body stmt : StmtId) : Prop :=
  unit.InBlock body stmt ∧ ∃ o ∈ c.occurrences, unit.StandsIn o stmt

/-- The node goes with a statement of the body block. -/
def GoesWithStatement (c : Classification) (unit : CompilationUnit) (body : StmtId) (node : Node) :
    Prop :=
  ∃ stmt, c.Takes unit body stmt ∧ unit.Below (.stmt stmt) node

/-- The node goes with an advance call. -/
def GoesWithCall (c : Classification) (unit : CompilationUnit) (node : Node) : Prop :=
  ∃ call ∈ c.advanceCalls, unit.Below (.expr call) node

section

variable (hacc : unit.Accepts store strict inits condition updates body c) (hu : unit.SingleUse)
  (hc : unit.Complete)

include hacc hu hc

/-- In the body only statements of its block go: the outer declaration of the element is
elsewhere. -/
theorem mem_removedStatements_of_below (hb : unit.Below (.stmt body) (.stmt stmt)) :
    stmt ∈ c.removedStatements unit body ↔ c.Takes unit body stmt := by
  rw [mem_removedStatements hu hc]
  refine or_iff_right fun houter => ?_
  have hout := (findElement_eq_some hacc.element houter).1
  exact ((mem_nodesOutside hu hc).1 hout).2 hb

/-- What a walk through the parts that stay meets: nodes of the body that are neither in a statement
that goes nor in an advance call, and these statements and calls themselves. -/
theorem reaches_keepsParts_iff (hg : unit.Grounded (.stmt body)) :
    unit.Reaches (c.planBody unit names body header imports).keepsParts (.stmt body) node ↔
      unit.Below (.stmt body) node ∧
        (∀ stmt, c.Takes unit body stmt → unit.Below (.stmt stmt) node → .stmt stmt = node) ∧
        ∀ call ∈ c.advanceCalls, unit.Below (.expr call) node → .expr call = node := by
  constructor
  · intro h
    obtain ⟨hb, hkeeps⟩ := (hu.reaches_iff hg).1 (reaches_keepsParts hg h)
    refine ⟨hb, fun stmt htakes hs => ?_, fun call hcall hn => ?_⟩
    · by_contra hne
      have hin : unit.Below (.stmt body) (.stmt stmt) := .single htakes.1.mem_kids
      have hremoved := (mem_removedStatements_of_below hacc hu hc hin).2 htakes
      simpa [keepsParts, hremoved] using hkeeps _ hin hs hne
    · by_contra hne
      have hin := ((mem_advanceCalls hg).1 (hacc.advanceCalls ▸ hcall)).1
      simpa [keepsParts, hcall] using hkeeps _ hin hn hne
  · rintro ⟨hb, hstmts, hcalls⟩
    refine (hu.reaches_iff hg).2 ⟨hb, fun m hm hn hne => ?_⟩
    cases m with
    | stmt stmt =>
      rw [Plan.keepsParts, removedStatements_planBody, Bool.not_eq_true', ← Bool.not_eq_true,
        List.contains_iff_mem, mem_removedStatements_of_below hacc hu hc hm]
      exact fun htakes => hne (hstmts stmt htakes hn)
    | expr call =>
      rw [Plan.keepsParts, replacedCalls_planBody, Bool.not_eq_true', ← Bool.not_eq_true,
        List.contains_iff_mem, mem_replacedCalls hu hg]
      exact fun hreplaced => hne (hcalls call hreplaced.1 hn)

end

/-- For an accepted loop with a body that is finite and known, and its plan: no reference that stays
in the body is to a variable of the head other than the iterator exactly if each such reference goes
with a statement of the body block that gives an element, or with an advance call. -/
theorem not_refers_head_iff (store : TypeStore) (options : ClassifyOptions) (loop : StmtId)
    {plan : Plan} (hu : unit.SingleUse)
    (hclass : unit.classify store options loop = .ok (.ok c))
    (hloop : unit.stmt? loop = some (.forLoop inits condition updates body))
    (hg : unit.Grounded (.stmt body)) (hplan : c.plan unit store names = .ok plan) :
    (∀ node ∈ unit.nodesBelow (.stmt body) plan.keepsParts, ∀ var, unit.HeadDeclares inits var →
      var ≠ c.iterator → ¬ unit.Refers var node) ↔
    ∀ node, unit.Below (.stmt body) node → ∀ var, unit.HeadDeclares inits var → var ≠ c.iterator →
      unit.Refers var node → c.GoesWithStatement unit body node ∨ c.GoesWithCall unit node := by
  obtain ⟨rfl, hacc⟩ := accepts_of_classify_loop hclass hloop
  obtain ⟨hcomplete, header, -, rfl⟩ := plan_eq_ok hloop hplan
  have hc := hu.complete_iff.1 hcomplete
  constructor
  · intro h node hb var hvar hne hrefers
    by_contra hgoes
    obtain ⟨hstmts, hcalls⟩ := not_or.1 hgoes
    refine h node (hg.mem_nodesBelow.2 ((reaches_keepsParts_iff hacc hu hc hg).2 ⟨hb, ?_, ?_⟩)) var
      hvar hne hrefers
    · exact fun stmt htakes hn => (hstmts ⟨stmt, htakes, hn⟩).elim
    · exact fun call hcall hn => (hcalls ⟨call, hcall, hn⟩).elim
  · intro h node hnode var hvar hne hrefers
    obtain ⟨hb, hstmts, hcalls⟩ :=
      (reaches_keepsParts_iff hacc hu hc hg).1 (hg.mem_nodesBelow.1 hnode)
    -- A name or a field access is neither a statement nor a call, so it stands strictly inside.
    rcases h node hb var hvar hne hrefers with ⟨stmt, htakes, hn⟩ | ⟨call, hcall, hn⟩
    · cases hstmts stmt htakes hn
      cases hrefers
    · cases hcalls call hcall hn
      obtain ⟨receiver, name, args, method, hexpr⟩ :=
        exists_call_of_mem_advanceCalls (hacc.advanceCalls ▸ hcall)
      cases hrefers <;> simp_all

end Classification

namespace Strings

open CompilationUnit

/-- The store with the iterator `first` and the string `t`. -/
def withFirst : TypeStore :=
  { store with vars := store.vars ++ #[⟨"first", some ⟨2⟩, .localVar⟩, ⟨"t", some ⟨1⟩, .localVar⟩] }

/-- A method with the head `for (Iterator<String> first = xs.iterator(), it = xs.iterator();
it.hasNext();)`. The body is a declaration, another statement and `use(s);`; the calls `it.next()`
and `use(first)` are for these two. -/
def twoIterators (declared : List (VarId × Option ExprId)) (other : Stmt) : CompilationUnit :=
  { unit with
    types := [⟨"Main", none, [], [⟨"run", none, [withFirst.parameter ⟨0⟩], some ⟨5⟩⟩]⟩]
    exprs := #[.name withFirst ⟨0⟩, .call withFirst (some ⟨0⟩) ⟨0⟩ [] none, .name withFirst ⟨0⟩,
      .call withFirst (some ⟨2⟩) ⟨0⟩ [] none,
      .declare withFirst [(⟨3⟩, some ⟨1⟩), (⟨2⟩, some ⟨3⟩)], .name withFirst ⟨2⟩,
      .call withFirst (some ⟨5⟩) ⟨1⟩ [] none, .name withFirst ⟨2⟩,
      .call withFirst (some ⟨7⟩) ⟨2⟩ [] none, .name withFirst ⟨3⟩,
      .unresolvedCall none "use" [⟨9⟩], .name withFirst ⟨1⟩, .unresolvedCall none "use" [⟨11⟩]]
    stmts := #[.declare (withFirst.declaration declared), other, .eval ⟨12⟩, .block [⟨0⟩, ⟨1⟩, ⟨2⟩],
      .forLoop [⟨4⟩] (some ⟨6⟩) [] ⟨3⟩, .block [⟨4⟩]] }

theorem headDeclares_first {declared : List (VarId × Option ExprId)} {other : Stmt} :
    (twoIterators declared other).HeadDeclares [⟨4⟩] ⟨3⟩ :=
  ⟨⟨4⟩, List.mem_singleton.2 rfl, _, .expr rfl, ⟨"first", some ⟨3⟩, some ⟨1⟩⟩, List.mem_cons_self,
    rfl⟩

/-- The body is `String s = it.next(), t = use(first); ; use(s);`. -/
def firstTaken : CompilationUnit := twoIterators [(⟨1⟩, some ⟨8⟩), (⟨4⟩, some ⟨10⟩)] .empty

/-- The body is `String s = it.next(); use(first); use(s);`. -/
def firstUsed : CompilationUnit := twoIterators [(⟨1⟩, some ⟨8⟩)] (.eval ⟨10⟩)

/-- The reference to `first` goes with the declaration of the element. -/
theorem first_gone_with_declaration : ∃ c plan,
    firstTaken.classify withFirst ⟨true, ⟨17⟩⟩ ⟨4⟩ = .ok (.ok c) ∧
      c.plan firstTaken withFirst (.ofList ["s"]) = .ok plan ∧
      firstTaken.HeadDeclares [⟨4⟩] ⟨3⟩ ∧ ⟨3⟩ ≠ c.iterator ∧ firstTaken.Refers ⟨3⟩ (.expr ⟨9⟩) ∧
      ∀ node ∈ firstTaken.nodesBelow (.stmt ⟨3⟩) plan.keepsParts, ∀ var,
        firstTaken.HeadDeclares [⟨4⟩] var → var ≠ c.iterator → ¬ firstTaken.Refers var node := by
  have hbackward : firstTaken.Backward := by decide
  have hgrounded : firstTaken.Grounded (.stmt ⟨3⟩) := hbackward.grounded rfl
  refine ⟨_, _, rfl, rfl, headDeclares_first, by decide, .name rfl, ?_⟩
  refine (Classification.not_refers_head_iff withFirst ⟨true, ⟨17⟩⟩ ⟨4⟩ (by decide) rfl rfl
    hgrounded rfl).2 ?_
  rintro node hb var ⟨e, he, decl, hdeclaring, f, hf, hbinding⟩ hne hrefers
  obtain rfl : var = ⟨3⟩ := by
    obtain rfl := List.mem_singleton.1 he
    cases hdeclaring with
    | expr h =>
      obtain rfl := Expr.declare.inj (Option.some.inj h)
      rcases List.mem_cons.1 hf with rfl | hf
      · exact (Option.some.inj hbinding).symm
      · obtain rfl := List.mem_singleton.1 hf
        exact (hne (Option.some.inj hbinding).symm).elim
  have hplace : ∀ n ∈ firstTaken.subtree (.stmt ⟨3⟩),
      firstTaken.refersAt ⟨3⟩ n = true → n = .expr ⟨9⟩ := by decide
  obtain rfl := hplace node (hgrounded.mem_subtree.2 hb) (refersAt_iff.2 hrefers)
  have hbelow : firstTaken.Below (.stmt ⟨0⟩) (.expr ⟨9⟩) :=
    .head (b := .expr ⟨10⟩) (by decide) (.single (by decide))
  exact .inl ⟨⟨0⟩, ⟨⟨_, rfl, by decide⟩, .declaration ⟨0⟩ ⟨1⟩, by decide, .declaration⟩, hbelow⟩

/-- The body still uses `first`, which no head declares any more. -/
theorem undeclared_after_conversion : firstUsed.SingleUse ∧ ∃ c plan,
    firstUsed.classify withFirst ⟨true, ⟨17⟩⟩ ⟨4⟩ = .ok (.ok c) ∧
      c.plan firstUsed withFirst (.ofList ["s"]) = .ok plan ∧
      firstUsed.HeadDeclares [⟨4⟩] ⟨3⟩ ∧ ⟨3⟩ ≠ c.iterator ∧ firstUsed.Refers ⟨3⟩ (.expr ⟨9⟩) ∧
      .expr ⟨9⟩ ∈ firstUsed.nodesBelow (.stmt ⟨3⟩) plan.keepsParts :=
  ⟨by decide, _, _, rfl, rfl, headDeclares_first, by decide, .name rfl, by decide⟩

end Strings
end EnhancedFor
