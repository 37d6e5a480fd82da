import EnhancedFor.Proofs.Loop.Conversion
import EnhancedFor.Proofs.Loop.HeadVariables
import EnhancedFor.Proofs.Name.Suggestion

/-!
The name in the head of a converted loop, and the variables that the body still declares. The
variable of the elements keeps its name; a new name differs from the names before and after the
loop, and nothing looks at those in the body. Main statement: no declaration that stays in the body
has the name of the head exactly if each one with that name goes with a statement of the body block.
-/

namespace EnhancedFor

namespace Classification

open CompilationUnit

variable {c : Classification} {unit : CompilationUnit} {store : TypeStore} {scopes : Scopes}
  {suggest : NameSuggester} {span : Span} {defaultName name : String} {names : Name.Candidates}
  {body : StmtId}

/-- The variable of the elements keeps its name. -/
theorem first?_suggestNames {e : Element} {v : VariableBinding} (he : c.element = some e)
    (hv : store.var? e.var = some v)
    (h : c.suggestNames store scopes suggest span defaultName = .ok names) :
    names.first? = some v.name := by
  obtain ⟨seed, -, ⟨hnone, -⟩ | ⟨e', v', he', hv', rfl⟩⟩ := suggestNames_eq_ok.1 h
  · simp [he] at hnone
  · obtain rfl := Option.some.inj (he.symm.trans he')
    obtain rfl := Option.some.inj (hv.symm.trans hv')
    rfl

/-- Where there is none, a proposed name differs from the names around the loop. -/
theorem not_mem_of_first?_suggestNames (hnone : c.element = none)
    (h : c.suggestNames store scopes suggest span defaultName = .ok names)
    (hfirst : names.first? = some name) :
    name ∉ scopes.before span.start ++ scopes.after span.stop := by
  obtain ⟨seed, -, ⟨-, rfl⟩ | ⟨e, v, he, -, -⟩⟩ := suggestNames_eq_ok.1 h
  · exact not_mem_of_mem_freeNames (List.mem_of_head? hfirst)
  · simp [hnone] at he

/-- What goes with a removed statement is what goes with a statement of the body block: a
declaration that is dropped outside the loop has no parts. -/
theorem goesWithStatement_iff {strict : Bool} {inits updates : List ExprId}
    {condition : Option ExprId} {node : Node}
    (hacc : unit.Accepts store strict inits condition updates body c) (hu : unit.SingleUse)
    (hc : unit.Complete) (hb : unit.Below (.stmt body) node) :
    c.GoesWithStatement unit body node ↔
      ∃ s ∈ c.removedStatements unit body, unit.Below (.stmt s) node := by
  constructor
  · rintro ⟨s, htakes, hs⟩
    exact ⟨s, (mem_removedStatements hu hc).2 (.inr htakes), hs⟩
  · rintro ⟨s, hremoved, hs⟩
    rcases hacc.removed_cases hu hc hremoved with hin | hbare
    · have htakes := (mem_removedStatements_of_below hacc hu hc (.single hin.mem_kids)).1 hremoved
      exact ⟨s, htakes, hs⟩
    · rcases Relation.ReflTransGen.cases_head hs with rfl | ⟨kid, hk, -⟩
      · exact (hbare.outside hb).elim
      · rw [hbare.kids_eq] at hk
        exact (List.not_mem_nil hk).elim

end Classification

namespace CompilationUnit

variable {unit : CompilationUnit} {store : TypeStore} {options : ConvertOptions}
  {services : Services} {loop body : StmtId} {p : Proposal}

/-- An element from outside is not declared in the body. -/
theorem not_binds_of_findElement {occurrences : List Occurrence} {e : Element}
    (h : unit.findElement store body occurrences = .ok (some e)) (he : e.declaredInLoop = false) :
    ∀ node ∈ unit.subtree (.stmt body), ¬ unit.Binds e.var node := by
  rw [findElement] at h
  split at h
  · simp at h
  · rename_i var hvar
    split at h
    · obtain rfl := Option.some.inj (Except.ok.inj h)
      simp at he
    · rename_i hbinds
      cases hd : unit.outerDeclaration store body var occurrences with
      | error r => simp [hd, Except.map] at h
      | ok d =>
        rw [hd] at h
        obtain rfl := Option.some.inj (Except.ok.inj h)
        intro node hnode hb
        exact hbinds (List.any_eq_true.2 ⟨node, hnode, bindsAt_iff.2 hb⟩)

end CompilationUnit

open CompilationUnit

/-- For every proposal: an element keeps its name, and if it is from outside no declaration of the
body is its own; without an element the name is none of those before and after the loop. No
declaration that stays in the body has the name of the head exactly if each one that has it goes
with a statement of the body block that gives an element. -/
theorem Proposal.header_name_unique_iff {p : Proposal} {unit : CompilationUnit} (store : TypeStore)
    (options : ConvertOptions) (services : Services) (loop : StmtId) {body : StmtId}
    {inits updates : List ExprId} {condition : Option ExprId} (hu : unit.SingleUse)
    (hloop : unit.stmt? loop = some (.forLoop inits condition updates body))
    (h : unit.convertLoop store options services loop = .ok (some p)) :
    ∃ header, p.plan.header? = some header ∧
      (∀ e v, p.classification.element = some e → store.var? e.var = some v →
        header.name = v.name ∧ (e.declaredInLoop = false →
          ∀ node ∈ unit.subtree (.stmt body), ¬ unit.Binds e.var node)) ∧
      (p.classification.element = none → ∀ name, p.names.first? = some name →
        header.name = name ∧ name ∉ services.scopes.before (unit.stmtSpan loop).start ++
          services.scopes.after (unit.stmtSpan loop).stop) ∧
      ((∀ node, unit.Below (.stmt body) node →
          (∀ s ∈ p.plan.removedStatements, ¬ unit.Below (.stmt s) node) →
          header.name ∉ unit.namesDeclaredAt node) ↔
        ∀ node, unit.Below (.stmt body) node → header.name ∈ unit.namesDeclaredAt node →
          p.classification.GoesWithStatement unit body node) := by
  obtain ⟨hclass, hnames, hplan, -⟩ := proposal_of_convertLoop h
  generalize p.classification = c at hclass hnames hplan ⊢
  obtain ⟨rfl, hacc⟩ := accepts_of_classify_loop hclass hloop
  obtain ⟨hcomplete, header, hheader, hbody⟩ := Classification.plan_eq_ok hloop hplan
  obtain ⟨-, -, -, -, hname, -⟩ := Classification.header_eq_ok hheader
  have hc := hu.complete_iff.1 hcomplete
  refine ⟨header, ?_, ?_, ?_, ?_⟩
  · rw [hbody, Classification.header?_planBody]
  · intro e v he hv
    have hfirst := Classification.first?_suggestNames he hv hnames
    refine ⟨by simp [hname, hfirst], fun houter => ?_⟩
    exact not_binds_of_findElement (he ▸ hacc.element) houter
  · intro hnone name hfirst
    refine ⟨by simp [hname, hfirst], ?_⟩
    exact Classification.not_mem_of_first?_suggestNames hnone hnames hfirst
  · rw [hbody, Classification.removedStatements_planBody]
    constructor
    · intro hfree node hb hnode
      by_contra hstays
      rw [Classification.goesWithStatement_iff hacc hu hc hb] at hstays
      exact hfree node hb (fun s hs hn => hstays ⟨s, hs, hn⟩) hnode
    · intro hgoes node hb hstays hnode
      obtain ⟨s, hs, hn⟩ :=
        (Classification.goesWithStatement_iff hacc hu hc hb).1 (hgoes node hb hnode)
      exact hstays s hs hn

namespace Strings

theorem closed_withFirst : withFirst.Closed :=
  TypeStore.closed_of_all (by decide) (by decide) (by decide) (by decide)

theorem reprint_firstTaken : firstTaken.reprint = .ok firstTaken.print := by
  have hback : firstTaken.Backward := by decide
  exact hback.reprint_eq (hback.complete (by decide))

/-- The one declaration with the name of the head goes. -/
theorem element_declaration_gone : ∃ p header,
    firstTaken.print.convertLoop withFirst ⟨true, ⟨17⟩, "element"⟩ firstTaken.print.services ⟨4⟩ =
      .ok (some p) ∧ p.plan.header? = some header ∧ header.name = "s" ∧
    ∀ node, firstTaken.print.Below (.stmt ⟨3⟩) node →
      (∀ s ∈ p.plan.removedStatements, ¬ firstTaken.print.Below (.stmt s) node) →
      header.name ∉ firstTaken.print.namesDeclaredAt node := by
  have hu : firstTaken.print.SingleUse := by decide
  have hbackward : firstTaken.print.Backward := by decide
  have hgrounded : firstTaken.print.Grounded (.stmt ⟨3⟩) := hbackward.grounded rfl
  obtain ⟨p, -, hconvert, hclass, -⟩ := exists_proposal reprint_firstTaken hu
    (named_of_hasText (by decide)) (by decide) (by decide) closed_withFirst
    ⟨true, ⟨17⟩, "element"⟩ firstTaken.print.services (by decide)
    (rfl : firstTaken.print.classify withFirst ⟨true, ⟨17⟩⟩ ⟨4⟩ = _)
  obtain ⟨header, hheader, hname, -, hiff⟩ := Proposal.header_name_unique_iff withFirst
    ⟨true, ⟨17⟩, "element"⟩ firstTaken.print.services ⟨4⟩ hu rfl hconvert
  rw [hclass] at hname hiff
  have hs : header.name = "s" := (hname _ _ rfl rfl).1
  refine ⟨p, header, hconvert, hheader, hs, hiff.2 fun node hb hnode => ?_⟩
  have hplace : ∀ n ∈ firstTaken.print.subtree (.stmt ⟨3⟩),
      "s" ∈ firstTaken.print.namesDeclaredAt n → n = .stmt ⟨0⟩ := by decide
  obtain rfl := hplace node (hgrounded.mem_subtree.2 hb) (hs ▸ hnode)
  exact ⟨⟨0⟩, ⟨⟨_, rfl, by decide⟩, .declaration ⟨0⟩ ⟨1⟩, by decide, .declaration⟩, .refl⟩

/-- The store with a local object `string`. -/
def withString : TypeStore :=
  { store with vars := store.vars.push ⟨"string", some ⟨0⟩, .localVar⟩ }

/-- A method that loops over `xs`, with `Object string = ready(); use(it.next(), string);` for a
body. -/
def stringDeclared : CompilationUnit :=
  { unit with
    types := [⟨"Main", none, [], [⟨"run", none, [withString.parameter ⟨0⟩], some ⟨4⟩⟩]⟩]
    exprs := #[.name withString ⟨0⟩, .call withString (some ⟨0⟩) ⟨0⟩ [] none,
      .declare withString [(⟨2⟩, some ⟨1⟩)], .name withString ⟨2⟩,
      .call withString (some ⟨3⟩) ⟨1⟩ [] none, .unresolvedCall none "ready" [],
      .name withString ⟨2⟩, .call withString (some ⟨6⟩) ⟨2⟩ [] none, .name withString ⟨3⟩,
      .unresolvedCall none "use" [⟨7⟩, ⟨8⟩]]
    stmts := #[.declare (withString.declaration [(⟨3⟩, some ⟨5⟩)]), .eval ⟨9⟩, .block [⟨0⟩, ⟨1⟩],
      .forLoop [⟨2⟩] (some ⟨4⟩) [] ⟨2⟩, .block [⟨3⟩]] }

theorem closed_withString : withString.Closed :=
  TypeStore.closed_of_all (by decide) (by decide) (by decide) (by decide)

theorem reprint_stringDeclared : stringDeclared.reprint = .ok stringDeclared.print := by
  have hback : stringDeclared.Backward := by decide
  exact hback.reprint_eq (hback.complete (by decide))

/-- The new head declares `string`, and so does the body, all of which stays. -/
theorem head_repeats_local : stringDeclared.print.SingleUse ∧ ∃ p header,
    stringDeclared.print.convertLoop withString ⟨true, ⟨17⟩, "element"⟩
      stringDeclared.print.services ⟨3⟩ = .ok (some p) ∧
    p.plan.header? = some header ∧ header.name = "string" ∧
    stringDeclared.print.Below (.stmt ⟨2⟩) (.stmt ⟨0⟩) ∧
    "string" ∈ stringDeclared.print.namesDeclaredAt (.stmt ⟨0⟩) ∧
    p.plan.removedStatements = [] := by
  have hu : stringDeclared.print.SingleUse := by decide
  obtain ⟨p, -, hconvert, hclass, -⟩ := exists_proposal reprint_stringDeclared hu
    (named_of_hasText (by decide)) (by decide) (by decide) closed_withString
    ⟨true, ⟨17⟩, "element"⟩ stringDeclared.print.services (by decide)
    (rfl : stringDeclared.print.classify withString ⟨true, ⟨17⟩⟩ ⟨3⟩ = _)
  obtain ⟨-, hnames, hplan, -⟩ := proposal_of_convertLoop hconvert
  rw [hclass] at hnames hplan
  obtain ⟨-, header, hheader, hbody⟩ := Classification.plan_eq_ok rfl hplan
  obtain ⟨-, -, -, -, hname, -⟩ := Classification.header_eq_ok hheader
  have hfirst : p.names.first? = some "string" := by
    have hmap := congrArg (Except.map (·.first?)) hnames
    exact Except.ok.inj (hmap.symm.trans (by decide))
  refine ⟨hu, p, header, hconvert, by rw [hbody, Classification.header?_planBody], ?_,
    .single (by decide), by decide, ?_⟩
  · simp [hname, hfirst]
  · rw [hbody, Classification.removedStatements_planBody]
    decide

end Strings
end EnhancedFor
