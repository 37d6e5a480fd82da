import EnhancedFor.Loop.Convert
import EnhancedFor.Proofs.Loop.PlannedImports
import EnhancedFor.Proofs.Loop.ProposedNames
import EnhancedFor.Proofs.Loop.SourceChange

/-!
The conversion of a loop from its classification to the changed text. Main statements: an accepted
loop of a printed unit can always be converted, and the edits give the text that the printer gives
for the changed tree.
-/

namespace EnhancedFor

/-- The expression is no empty simple name. -/
def Expr.hasText : Expr → Bool
  | .name text _ => text != ""
  | _ => true

namespace CompilationUnit

variable {unit : CompilationUnit} {store : TypeStore} {inits updates : List ExprId}
  {condition : Option ExprId} {body : StmtId} {strict : Bool} {c : Classification}

/-- No simple name in the code of the unit is empty. -/
def Named (unit : CompilationUnit) : Prop :=
  ∀ id e, unit.Rooted (.expr id) → unit.expr? id = some e → e.hasText = true

theorem named_of_hasText (h : ∀ n ∈ unit.exprs.toList, n.expr.hasText = true) : unit.Named := by
  intro id e _ he
  obtain ⟨n, hn, rfl⟩ := Option.map_eq_some_iff.1 he
  exact h n (Array.mem_toList_iff.2 (Array.mem_of_getElem? hn))

/-- Every declaration statement in the code of the unit stands in a block. -/
def LocalsInBlocks (unit : CompilationUnit) : Prop :=
  ∀ id decl, unit.Rooted (.stmt id) → unit.stmt? id = some (.declare decl) →
    ∃ block, unit.InBlock block id

/-- What an iterable can be: a variable, a field or the result of a call. -/
inductive IsIterable (unit : CompilationUnit) (id : ExprId) : Prop where
  | name {name : String} {binding : Option VarId} (h : unit.expr? id = some (.name name binding)) :
    IsIterable unit id
  | field {receiver : ExprId} {name : String} {binding : Option VarId}
    (h : unit.expr? id = some (.field receiver name binding)) : IsIterable unit id
  | call {receiver : Option ExprId} {name : String} {args : List ExprId} {binding : Option MethodId}
    (h : unit.expr? id = some (.call receiver name args binding)) : IsIterable unit id

theorem iterableAt?_eq_some {node : Node} {id : ExprId} {source : IterableSource}
    (h : unit.iterableAt? store node = some (id, some source)) :
    .expr id ∈ unit.kids node ∧ unit.IsIterable id := by
  cases node with
  | stmt s => simp [iterableAt?] at h
  | expr e =>
    rw [iterableAt?] at h
    split at h
    · rename_i receiver name args method hcall
      obtain ⟨-, h⟩ := Option.ite_none_right_eq_some.1 h
      obtain ⟨rfl, hsource⟩ := Prod.mk.inj (Option.some.inj h)
      refine ⟨?_, ?_⟩
      · rw [kids_expr hcall]
        exact List.mem_map_of_mem (List.mem_append_left _ List.mem_cons_self)
      · split at hsource
        · rename_i hname
          exact .name hname
        · rename_i hfield
          exact .field hfield
        · rename_i hinner
          exact .call hinner
        · simp at hsource
    · simp at h

/-- The iterable stands in an initialiser of the loop. -/
theorem iterableIn?_eq_some {id : ExprId} {source : IterableSource}
    (hg : ∀ e ∈ inits, unit.Grounded (.expr e))
    (h : unit.iterableIn? store inits = some (id, some source)) :
    (∃ e ∈ inits, unit.Below (.expr e) (.expr id)) ∧ unit.IsIterable id := by
  obtain ⟨node, hnode, hat⟩ := List.mem_filterMap.1 (List.mem_of_getLast? h)
  obtain ⟨init, hinit, hbelow⟩ := List.mem_flatMap.1 hnode
  obtain ⟨f, hf, hfinit⟩ := List.mem_filterMap.1 hinit
  obtain ⟨e, he, hfragments⟩ := List.mem_flatMap.1 hf
  obtain ⟨hkid, hiterable⟩ := iterableAt?_eq_some hat
  refine ⟨⟨e, he, ?_⟩, hiterable⟩
  split at hfragments
  · rename_i decl hdecl
    have hpart : .expr init ∈ unit.kids (.expr e) := by
      rw [kids_expr hdecl]
      exact List.mem_map_of_mem (List.mem_filterMap.2 ⟨f, hfragments, hfinit⟩)
    have hin := (((hg e he).kid hpart).mem_subtree.1 hbelow)
    exact (hin.head hpart).tail hkid
  · simp at hfragments

/-- A name, field or call is never written as nothing. -/
theorem IsIterable.exprLayout_ne_nil (hn : unit.Named) {id : ExprId} (h : unit.IsIterable id)
    (hr : unit.Rooted (.expr id)) (hg : unit.Grounded (.expr id)) :
    (unit.exprLayout id).chars ≠ [] := by
  cases h with
  | name h =>
    rw [hg.exprLayout_eq h]
    simpa [exprShape, Expr.hasText] using hn id _ hr h
  | field h | call h =>
    rw [hg.exprLayout_eq h]
    simp [exprShape]

namespace Accepts

variable (h : unit.Accepts store strict inits condition updates body c) (hu : unit.SingleUse)
  (hc : unit.Complete) (hr : unit.Rooted (.stmt c.loop))

include h hr in
theorem rooted_body : unit.Rooted (.stmt body) := by
  refine hr.kid ?_
  rw [kids_stmt h.isLoop]
  exact List.mem_append_right _ (List.mem_singleton_self _)

include h hu hc hr in
theorem grounded_body : unit.Grounded (.stmt body) := hu.grounded hc (h.rooted_body hr)

include h hr in
theorem rooted_init {e : ExprId} (he : e ∈ inits) : unit.Rooted (.expr e) := by
  refine hr.kid ?_
  rw [kids_stmt h.isLoop]
  exact List.mem_append_left _ (List.mem_map_of_mem (by simp [he]))

include h hu hc in
/-- What goes stands in the body block, or declares the element outside of the body. -/
theorem removed_cases {s : StmtId} (hs : s ∈ c.removedStatements unit body) :
    unit.InBlock body s ∨ unit.BareDeclaration body s := by
  rcases (Classification.mem_removedStatements hu hc).1 hs with houter | ⟨hin, -⟩
  · obtain ⟨hout, type, ⟨name, binding, init⟩, hdecl, rfl⟩ := findElement_eq_some h.element houter
    obtain ⟨hrooted, hbelow⟩ := (mem_nodesOutside hu hc).1 hout
    exact .inr ⟨hrooted, hbelow, type, name, binding, hdecl⟩
  · exact .inl hin

include h hu hc in
/-- An expression that a walk through the parts that stay gets to is in no statement that goes. -/
theorem reached_stays {s : StmtId} (hs : s ∈ c.removedStatements unit body) {e : ExprId}
    (hg : unit.Grounded (.stmt body))
    (he : unit.Reaches (c.keepsParts (c.removedStatements unit body)) (.stmt body) (.expr e)) :
    ¬ unit.Below (.stmt s) (.expr e) := by
  intro hb
  rcases h.removed_cases hu hc hs with hin | hbare
  · have hkept := ((hu.reaches_iff hg).1 he).2 (.stmt s) (.single hin.mem_kids) hb (by simp)
    simp [Classification.keepsParts, hs] at hkept
  · rcases Relation.ReflTransGen.cases_head hb with heq | ⟨kid, hk, -⟩
    · contradiction
    · rw [hbare.kids_eq] at hk
      exact List.not_mem_nil hk

include h hu hc hr in
theorem replaced_stays {s : StmtId} (hs : s ∈ c.removedStatements unit body) {e : ExprId}
    (he : e ∈ c.replacedCalls unit body) : ¬ unit.Below (.stmt s) (.expr e) := by
  have hg := h.grounded_body hu hc hr
  exact h.reached_stays hu hc hs hg
    ((Classification.mem_remainingExprs hg).1 (List.mem_of_mem_filter he))

/-- The conversion of an accepted loop, with a head over its iterable. -/
def rewriting (header : Header) (hheader : header.iterable.expr = c.iterableExpr) :
    Rewriting unit where
  loop := c.loop
  inits := inits
  condition := condition
  updates := updates
  body := body
  header := header
  removed := c.removedStatements unit body
  replaced := c.replacedCalls unit body
  isLoop := h.isLoop
  rooted := hr
  fromHead := by
    rw [hheader]
    exact (iterableIn?_eq_some (fun e he => hu.grounded hc (h.rooted_init hr he)) h.iterable).1
  removed_nodup := nodup_eraseDups _
  removed_cases s hs := h.removed_cases hu hc hs
  replaced_nodup := Classification.replacedCalls_nodup hu (h.grounded_body hu hc hr)
  replaced_below e he :=
    ((Classification.mem_replacedCalls hu (h.grounded_body hu hc hr)).1 he).2.1
  replaced_call e he := by
    have hadvance := ((Classification.mem_replacedCalls hu (h.grounded_body hu hc hr)).1 he).1
    exact exists_call_of_mem_advanceCalls (h.advanceCalls ▸ hadvance)
  replaced_apart e he e' he' hb := by
    have hbody := h.grounded_body hu hc hr
    obtain ⟨hadvance, hbelow, -⟩ := (Classification.mem_replacedCalls hu hbody).1 he
    by_contra hne
    have hkept := ((Classification.mem_replacedCalls hu hbody).1 he').2.2 (.expr e) hbelow hb
      fun heq => hne (Node.expr.inj heq).symm
    simp [Classification.keepsParts, hadvance] at hkept
  replaced_stays s hs e he := h.replaced_stays hu hc hr hs he

variable (hn : unit.Named)

include h hu hc hr hn

/-- Every name of the element that stays has a place in the text. -/
theorem requireSpan_reference (hshows : unit.Shows [] unit.layout) {e : ExprId}
    (he : e ∈ c.references unit body) : ∃ span, unit.requireSpan (.expr e) = .ok span := by
  obtain ⟨hremains, hname⟩ := List.mem_filter.1 he
  have hreach := (Classification.mem_remainingExprs (h.grounded_body hu hc hr)).1
    (List.mem_of_mem_filter hremains)
  have hrooted := (h.rooted_body hr).below hreach.below
  have hg := hu.grounded hc hrooted
  rw [Classification.isElementName] at hname
  split at hname
  · rename_i hexpr
    have hne := (IsIterable.name hexpr).exprLayout_ne_nil hn hrooted hg
    obtain ⟨level, before, hshown⟩ := hshows.rooted_node hu hc hrooted
    exact ⟨_, Shows.requireSpan_eq (.expr e) level hshown hg hne⟩
  · contradiction

theorem iterable_ne_nil : (unit.exprLayout c.iterableExpr).chars ≠ [] := by
  obtain ⟨⟨e, he, hb⟩, hiterable⟩ :=
    iterableIn?_eq_some (fun e he => hu.grounded hc (h.rooted_init hr he)) h.iterable
  have hrooted := (h.rooted_init hr he).below hb
  exact hiterable.exprLayout_ne_nil hn hrooted (hu.grounded hc hrooted)

omit hr hn in
/-- In a unit with all declarations in blocks, everything that goes stands in a block. -/
theorem inBlock_of_removed (hl : unit.LocalsInBlocks) {s : StmtId}
    (hs : s ∈ c.removedStatements unit body) : ∃ block, unit.InBlock block s := by
  rcases h.removed_cases hu hc hs with hin | hbare
  · exact ⟨body, hin⟩
  · obtain ⟨type, name, binding, hdecl⟩ := hbare.declares
    exact hl s _ hbare.rooted hdecl

/-- The plan of an accepted loop becomes edits; these give the text of the changed unit. -/
theorem planBody_spec (htext : unit.text.toList = unit.layout.chars)
    (hshows : unit.Shows [] unit.layout) (names : Name.Candidates) {header : Header}
    (hheader : header.iterable.expr = c.iterableExpr) {imports : ImportChanges} {plan : Plan}
    (hplan : plan = c.planBody unit names body header imports) :
    ∃ change new, plan.toSourceChange unit = .ok change ∧ change.apply unit.text = .ok new ∧
      (unit.LocalsInBlocks → ∃ printed,
        (plan.rewrite unit c.loop header body).reprint = .ok printed ∧ printed.text = new) := by
  let r := h.rewriting hu hc hr header hheader
  have hreferences (e : ExprId) (he : .reference e ∈ plan.positions) :
      ∃ span, unit.requireSpan (.expr e) = .ok span := by
    refine h.requireSpan_reference hu hc hr hn hshows ?_
    simpa [hplan, Classification.planBody] using he
  have hne : (unit.exprLayout r.header.iterable.expr).chars ≠ [] :=
    hheader ▸ h.iterable_ne_nil hu hc hr hn
  have hrewrite : plan.rewrite unit c.loop r.header body =
      r.rewrite (plan.imports.newImports unit.importLines) := by
    rw [Plan.rewrite, hplan, Classification.removedStatements_planBody,
      Classification.replacedCalls_planBody]
    rfl
  obtain ⟨change, new, hchange, happly, hnew⟩ :=
    Rewriting.toSourceChange_spec hu hc htext hshows hne
      (fun hl s hs => h.inBlock_of_removed hu hc hl hs) (hplan ▸ rfl) hreferences
  refine ⟨change, String.ofList new, hchange, happly, fun hl => ?_⟩
  have hprinted := r.reprint_rewrite (plan.imports.newImports unit.importLines) hu hc
  rw [← hrewrite] at hprinted hnew
  exact ⟨_, hprinted, by rw [text_print, hnew hl]⟩

end Accepts

variable {options : ConvertOptions} {services : Services} {loop : StmtId}

theorem convertLoop_eq {names : Name.Candidates} {plan : Plan} {change : SourceChange}
    (hname : Java.isIdentifier options.defaultName = true)
    (hclass : unit.classify store ⟨options.strict, options.level⟩ loop = .ok (.ok c))
    (hnames : c.suggestNames store services.scopes services.suggest (unit.stmtSpan loop)
      options.defaultName = .ok names)
    (hplan : c.plan unit store names = .ok plan) (hchange : plan.toSourceChange unit = .ok change) :
    unit.convertLoop store options services loop = .ok (some ⟨c, names, plan, change⟩) := by
  simp only [convertLoop, hname, hclass, hnames, hplan, hchange, Bool.not_true, Bool.false_eq_true,
    if_false, Except.mapError, bind, Except.bind, pure, Except.pure]

/-- What a proposal is made of. -/
theorem proposal_of_convertLoop {p : Proposal}
    (h : unit.convertLoop store options services loop = .ok (some p)) :
    unit.classify store ⟨options.strict, options.level⟩ loop = .ok (.ok p.classification) ∧
      p.classification.suggestNames store services.scopes services.suggest (unit.stmtSpan loop)
        options.defaultName = .ok p.names ∧
      p.classification.plan unit store p.names = .ok p.plan ∧
      p.plan.toSourceChange unit = .ok p.change := by
  cases hname : Java.isIdentifier options.defaultName with
  | false =>
    simp [convertLoop, hname, bind, Except.bind, throw, throwThe, MonadExceptOf.throw] at h
  | true =>
    simp only [convertLoop, hname, Bool.not_true, Bool.false_eq_true, if_false] at h
    obtain ⟨answer, hclass, h⟩ := bind_eq_ok.1 h
    split at h
    · simp [pure, Except.pure] at h
    · obtain ⟨names, hnames, h⟩ := bind_eq_ok.1 h
      obtain ⟨plan, hplan, h⟩ := bind_eq_ok.1 h
      obtain ⟨change, hchange, h⟩ := bind_eq_ok.1 h
      obtain rfl := Option.some.inj (Except.ok.inj h)
      exact ⟨mapError_eq_ok.1 hclass, mapError_eq_ok.1 hnames, mapError_eq_ok.1 hplan,
        mapError_eq_ok.1 hchange⟩

theorem rooted_of_mem_countedLoops (hu : unit.SingleUse) (hc : unit.Complete)
    (h : loop ∈ unit.countedLoops) : unit.Rooted (.stmt loop) := by
  obtain ⟨node, hn, hnode⟩ := List.mem_filterMap.1 h
  cases node with
  | expr e => simp at hnode
  | stmt s =>
    obtain ⟨-, hs⟩ := Option.ite_none_right_eq_some.1 hnode
    exact Option.some.inj hs ▸ (hu.mem_allNodes hc).1 hn

/-- A plan adds no import that is there already. -/
theorem ne_ofName_of_plan {names : Name.Candidates} {plan : Plan}
    (hbody : unit.stmt? c.loop = some (.forLoop inits condition updates body))
    (hplan : c.plan unit store names = .ok plan) {name : String} (hname : name ∈ plan.imports.added)
    {l : ImportLine} (hl : l ∈ unit.importLines) : l.line ≠ .ofName name := by
  obtain ⟨-, header, -, rfl⟩ := Classification.plan_eq_ok hbody hplan
  obtain ⟨-, -, hunknown⟩ :=
    NodeChanges.mem_neededImports.1 (NodeChanges.mem_added_applyTo.1 hname)
  intro heq
  have himport : l.line ∈ unit.imports := unit.map_line_importLines ▸ List.mem_map_of_mem hl
  exact hunknown ⟨l.line, himport, heq ▸ .single⟩

section

variable {draft : CompilationUnit} (hprint : draft.reprint = .ok unit) (hu : unit.SingleUse)
  (hn : unit.Named) (hloop : loop ∈ unit.countedLoops)

include hprint hu hn hloop

/-- What comes of the plan of an accepted loop of a printed unit. -/
theorem toSourceChange_of_plan {options : ClassifyOptions} {names : Name.Candidates} {plan : Plan}
    (hbody : unit.stmt? loop = some (.forLoop inits condition updates body))
    (hclass : unit.classify store options loop = .ok (.ok c))
    (hplan : c.plan unit store names = .ok plan) :
    ∃ change text header, plan.toSourceChange unit = .ok change ∧
      change.apply unit.text = .ok text ∧ plan.header? = some header ∧
      header.iterable.expr = c.iterableExpr ∧
      (unit.LocalsInBlocks → ∃ printed,
        (plan.rewrite unit loop header body).reprint = .ok printed ∧ printed.text = text) := by
  obtain ⟨hc, htext, hshows⟩ := shows_of_reprint hprint hu
  have hr := rooted_of_mem_countedLoops hu hc hloop
  obtain ⟨rfl, hacc⟩ := accepts_of_classify_loop hclass hbody
  obtain ⟨-, header, hheader, rfl⟩ := Classification.plan_eq_ok hbody hplan
  obtain ⟨-, -, -, -, -, hiterable⟩ := Classification.header_eq_ok hheader
  obtain ⟨change, text, hchange, happly, hprinted⟩ :=
    hacc.planBody_spec hu hc hr hn htext hshows names hiterable rfl
  exact ⟨change, text, header, hchange, happly, Classification.header?_planBody, hiterable,
    hprinted⟩

omit hn in
/-- The changed tree can be printed, whatever imports it has. -/
theorem exists_reprint_rewriteLoop {options : ClassifyOptions} {names : Name.Candidates}
    {plan : Plan} {header : Header}
    (hbody : unit.stmt? loop = some (.forLoop inits condition updates body))
    (hclass : unit.classify store options loop = .ok (.ok c))
    (hplan : c.plan unit store names = .ok plan) (hheader : plan.header? = some header)
    (imports : List Import) : ∃ printed, (unit.rewriteLoop loop header body plan.removedStatements
      plan.replacedCalls imports).reprint = .ok printed := by
  obtain ⟨hc, -, -⟩ := shows_of_reprint hprint hu
  have hr := rooted_of_mem_countedLoops hu hc hloop
  obtain ⟨rfl, hacc⟩ := accepts_of_classify_loop hclass hbody
  obtain ⟨-, header', hheader', rfl⟩ := Classification.plan_eq_ok hbody hplan
  obtain rfl : header' = header :=
    Option.some.inj (Classification.header?_planBody.symm.trans hheader)
  obtain ⟨-, -, -, -, -, hiterable⟩ := Classification.header_eq_ok hheader'
  rw [Classification.removedStatements_planBody, Classification.replacedCalls_planBody]
  exact ⟨_, (hacc.rewriting hu hc hr header' hiterable).reprint_rewrite imports hu hc⟩

/-- A loop that can be converted always is, in a printed unit that is bound in a closed store. -/
theorem exists_proposal (hbound : unit.BoundIn store) (hclosed : store.Closed)
    (options : ConvertOptions) (services : Services)
    (hname : Java.isIdentifier options.defaultName = true)
    (hclass : unit.classify store ⟨options.strict, options.level⟩ loop = .ok (.ok c)) :
    ∃ p text, unit.convertLoop store options services loop = .ok (some p) ∧
      p.classification = c ∧ p.change.apply unit.text = .ok text := by
  obtain ⟨hc, -, -⟩ := shows_of_reprint hprint hu
  obtain ⟨-, rfl, inits, condition, updates, body, hacc⟩ := accepts_of_classify hclass
  obtain ⟨names, hnames⟩ := Classification.exists_suggestNames_iff.2 fun _ =>
    Classification.nameLookups_known hacc hbound hclosed
  obtain ⟨plan, hplan⟩ := hacc.exists_plan (hu.complete_iff.2 hc) hbound hclosed names
  obtain ⟨change, text, -, hchange, happly, -⟩ :=
    toSourceChange_of_plan hprint hu hn hloop hacc.isLoop hclass hplan
  exact ⟨_, text, convertLoop_eq hname hclass hnames hplan hchange, rfl, happly⟩

/-- The edits of a proposal give the text that the printer gives for the changed tree: the loop has
the proposed head over the same iterable and the same body, the removed statements have left their
blocks, the name stands in place of the replaced calls, and the import list is the new one. This
list has each new name placed among all lines of the unit; placed among the lines that stay, the
names give the same list exactly if each keeps its place when lines go. -/
theorem convertLoop_text_eq_print (store : TypeStore) (options : ConvertOptions)
    (services : Services) {p : Proposal} (hl : unit.LocalsInBlocks)
    (hbody : unit.stmt? loop = some (.forLoop inits condition updates body))
    (h : unit.convertLoop store options services loop = .ok (some p)) :
    ∃ header printed, p.plan.header? = some header ∧
      header.iterable.expr = p.classification.iterableExpr ∧
      (p.plan.rewrite unit loop header body).reprint = .ok printed ∧
      p.change.apply unit.text = .ok printed.text ∧
      (p.plan.rewrite unit loop header body = p.plan.rewritePlaced unit loop header body ↔
        ∀ name ∈ p.plan.imports.added, MarkedImport.KeepsPlace
          (ImportLine.marked p.plan.imports.removed.contains unit.importLines) name) := by
  obtain ⟨hclass, -, hplan, hchange⟩ := proposal_of_convertLoop h
  obtain ⟨change, text, header, hchange', happly, hheader, hiterable, hprinted⟩ :=
    toSourceChange_of_plan hprint hu hn hloop hbody hclass hplan
  obtain rfl : p.change = change := Except.ok.inj (hchange.symm.trans hchange')
  obtain ⟨printed, hreprint, rfl⟩ := hprinted hl
  obtain ⟨hsame, -⟩ := accepts_of_classify_loop hclass hbody
  have hplaces := ImportChanges.newImports_eq_placedImports_iff fun name hname l =>
    ne_ofName_of_plan (hsame ▸ hbody) hplan hname (l := l)
  exact ⟨header, printed, hheader, hiterable, hreprint, happly,
    Plan.rewrite_eq_rewritePlaced_iff.trans hplaces⟩

end

end CompilationUnit

namespace Strings

/-- The method with a second advance call in the loop, below two imports. -/
def imported : CompilationUnit :=
  { unit with
    imports := [⟨"java.util.Iterator", false, false⟩, ⟨"java.util.List", false, false⟩]
    exprs := unit.exprs ++ #[.name store ⟨2⟩, .call store (some ⟨9⟩) ⟨2⟩ [] none]
    stmts := #[.declare (store.declaration [(⟨1⟩, none)]), .eval ⟨8⟩, .block [⟨1⟩, ⟨5⟩],
      .forLoop [⟨2⟩] (some ⟨4⟩) [] ⟨2⟩, .block [⟨0⟩, ⟨3⟩], .eval ⟨10⟩] }

theorem reprint_imported : imported.reprint = .ok imported.print := by
  have hu : imported.SingleUse := by decide
  exact hu.reprint_eq (hu.complete_iff.1 rfl)

theorem singleUse_imported : imported.print.SingleUse := by decide

theorem named_imported : imported.print.Named := CompilationUnit.named_of_hasText (by decide)

theorem localsInBlocks_imported : imported.print.LocalsInBlocks := by
  rintro ⟨i⟩ decl - hdecl
  rcases i with _ | _ | _ | _ | _ | _ | i
  · exact ⟨⟨4⟩, _, rfl, by decide⟩
  all_goals cases hdecl

theorem mem_countedLoops_imported : ⟨3⟩ ∈ imported.print.countedLoops := by decide

/-- Both advance calls are left to the conversion, one to go and one to become the name. -/
theorem accepted_imported : ∃ c,
    imported.print.classify store ⟨false, ⟨17⟩⟩ ⟨3⟩ = .ok (.ok c) ∧ c.advanceCalls = [⟨7⟩, ⟨10⟩] :=
  ⟨_, rfl, rfl⟩

/-- The text of the converted method is that of the changed tree. -/
theorem two_calls_printed : ∃ p header printed,
    imported.print.convertLoop store ⟨false, ⟨17⟩, "element"⟩ imported.print.services ⟨3⟩ =
      .ok (some p) ∧ p.plan.header? = some header ∧
    (p.plan.rewrite imported.print ⟨3⟩ header ⟨2⟩).reprint = .ok printed ∧
    p.change.apply imported.print.text = .ok printed.text := by
  obtain ⟨c, hclass, -⟩ := accepted_imported
  obtain ⟨p, -, hconvert, -⟩ := CompilationUnit.exists_proposal reprint_imported
    singleUse_imported named_imported mem_countedLoops_imported (by decide) closed_store
    ⟨false, ⟨17⟩, "element"⟩ imported.print.services (by decide) hclass
  obtain ⟨header, printed, hheader, -, hreprint, happly, -⟩ :=
    CompilationUnit.convertLoop_text_eq_print reprint_imported singleUse_imported named_imported
      mem_countedLoops_imported store ⟨false, ⟨17⟩, "element"⟩ imported.print.services
      localsInBlocks_imported rfl hconvert
  exact ⟨p, header, printed, hconvert, hheader, hreprint, happly⟩

end Strings

namespace Dates

/-- Dates, and iterators and iterables over them. -/
def store : TypeStore where
  types := #[.declared .classType TypeStore.objectName, .declared .classType "java.util.Date",
    { kind := .interfaceType, qualifiedName := "java.util.Iterator<java.util.Date>"
      name := "Iterator<Date>", typeArguments := [⟨1⟩] },
    { kind := .interfaceType, qualifiedName := "java.lang.Iterable<java.util.Date>"
      name := "Iterable<Date>", typeArguments := [⟨1⟩] }]
  methods := #[⟨"iterator", ⟨3⟩, some ⟨2⟩⟩, ⟨"hasNext", ⟨2⟩, none⟩, ⟨"next", ⟨2⟩, some ⟨1⟩⟩]
  vars := #[⟨"xs", some ⟨3⟩, .parameter⟩, ⟨"it", some ⟨2⟩, .localVar⟩]

/-- A method that loops over `xs`, with `use(it.next());` for a body. Of the imports, that of the
iterator stands first. -/
def unit : CompilationUnit :=
  { CompilationUnit.initial "Main.java" with
    imports := [⟨"java.util.Iterator", false, false⟩, ⟨"java.util.ArrayList", false, false⟩,
      ⟨"java.util.List", false, false⟩]
    types := [⟨"Main", none, [], [⟨"run", none, [store.parameter ⟨0⟩], some ⟨3⟩⟩]⟩]
    exprs := #[.name store ⟨0⟩, .call store (some ⟨0⟩) ⟨0⟩ [] none,
      .declare store [(⟨1⟩, some ⟨1⟩)], .name store ⟨1⟩, .call store (some ⟨3⟩) ⟨1⟩ [] none,
      .name store ⟨1⟩, .call store (some ⟨5⟩) ⟨2⟩ [] none, .unresolvedCall none "use" [⟨6⟩]]
    stmts := #[.eval ⟨7⟩, .block [⟨0⟩], .forLoop [⟨2⟩] (some ⟨4⟩) [] ⟨1⟩, .block [⟨2⟩]] }

theorem reprint_unit : unit.reprint = .ok unit.print := by
  have hback : unit.Backward := by decide
  exact hback.reprint_eq (hback.complete (by decide))

theorem closed_store : store.Closed :=
  TypeStore.closed_of_all (by decide) (by decide) (by decide) (by decide)

theorem localsInBlocks_unit : unit.print.LocalsInBlocks := by
  rintro ⟨i⟩ decl - hdecl
  rcases i with _ | _ | _ | _ | i
  all_goals cases hdecl

/-- Without a package line a printed text begins with the imports. -/
theorem importsChars_prefix (other : CompilationUnit) (h : other.package = none) :
    importsChars other.imports <+: other.print.text.toList := by
  show importsChars other.imports <+: other.layout.toText.toList
  rw [Layout.toList_toText, CompilationUnit.layout, Layout.chars_append,
    CompilationUnit.chars_headerLayout, h, List.append_assoc]
  exact List.prefix_append _ _

/-- The import of the iterator goes, and that of dates comes to its place. Among the lines that stay
it would stand between the others. -/
theorem added_import_misplaced : unit.print.SingleUse ∧ unit.print.Named ∧
    unit.print.LocalsInBlocks ∧ ⟨2⟩ ∈ unit.print.countedLoops ∧ ∃ p header printed,
    unit.print.convertLoop store ⟨true, ⟨17⟩, "element"⟩ unit.print.services ⟨2⟩ = .ok (some p) ∧
    p.plan.header? = some header ∧
    (p.plan.rewrite unit.print ⟨2⟩ header ⟨1⟩).imports.map (·.path) =
      ["java.util.Date", "java.util.ArrayList", "java.util.List"] ∧
    (p.plan.rewritePlaced unit.print ⟨2⟩ header ⟨1⟩).imports.map (·.path) =
      ["java.util.ArrayList", "java.util.Date", "java.util.List"] ∧
    (p.plan.rewritePlaced unit.print ⟨2⟩ header ⟨1⟩).reprint = .ok printed ∧
    p.change.apply unit.print.text ≠ .ok printed.text := by
  have hu : unit.print.SingleUse := by decide
  have hn : unit.print.Named := CompilationUnit.named_of_hasText (by decide)
  have hmem : ⟨2⟩ ∈ unit.print.countedLoops := by decide
  have haccepted : ∃ c, unit.print.classify store ⟨true, ⟨17⟩⟩ ⟨2⟩ = .ok (.ok c) := ⟨_, rfl⟩
  obtain ⟨c, hclass⟩ := haccepted
  obtain ⟨p, -, hconvert, rfl, -⟩ := CompilationUnit.exists_proposal reprint_unit hu hn hmem
    (by decide) closed_store ⟨true, ⟨17⟩, "element"⟩ unit.print.services (by decide) hclass
  obtain ⟨-, -, hplan, hchange⟩ := CompilationUnit.proposal_of_convertLoop hconvert
  obtain ⟨change, text, header, hchange', happly, hheader, -, hprinted⟩ :=
    CompilationUnit.toSourceChange_of_plan reprint_unit hu hn hmem rfl hclass hplan
  obtain rfl : p.change = change := Except.ok.inj (hchange.symm.trans hchange')
  obtain ⟨_, hreprint, rfl⟩ := hprinted localsInBlocks_unit
  obtain ⟨-, rfl⟩ := CompilationUnit.eq_print_of_reprint hreprint
  obtain ⟨-, hacc⟩ := CompilationUnit.accepts_of_classify_loop hclass rfl
  obtain ⟨-, _, -, hbody⟩ := Classification.plan_eq_ok hacc.isLoop hplan
  have himports : p.plan.imports = ⟨["java.util.Date"],
      [⟨⟨"java.util.Iterator", false, false⟩, ⟨0, 26⟩⟩]⟩ := by
    rw [hbody]
    show p.classification.plannedImports unit.print store ⟨1⟩ = _
    rw [← Except.ok.inj (Except.ok.inj hclass)]
    decide +kernel
  have hnew : p.plan.imports.newImports unit.print.importLines =
      [.ofName "java.util.Date", .ofName "java.util.ArrayList", .ofName "java.util.List"] := by
    rw [himports]
    decide +kernel
  have hplaced : p.plan.imports.placedImports unit.print.importLines =
      [.ofName "java.util.ArrayList", .ofName "java.util.Date", .ofName "java.util.List"] := by
    rw [himports]
    decide +kernel
  obtain ⟨printed, hprinted⟩ := CompilationUnit.exists_reprint_rewriteLoop reprint_unit hu hmem rfl
    hclass hplan hheader (p.plan.imports.placedImports unit.print.importLines)
  refine ⟨hu, hn, localsInBlocks_unit, hmem, p, header, printed, hconvert, hheader,
    congrArg (List.map (·.path)) hnew, congrArg (List.map (·.path)) hplaced, hprinted, ?_⟩
  rw [happly]
  intro htext
  obtain ⟨-, rfl⟩ := CompilationUnit.eq_print_of_reprint hprinted
  -- Both texts would begin with the lines of the other list.
  have hfirst : importsChars (p.plan.imports.newImports unit.print.importLines) <+: _ :=
    importsChars_prefix (p.plan.rewrite unit.print ⟨2⟩ header ⟨1⟩) rfl
  have hsecond : importsChars (p.plan.imports.placedImports unit.print.importLines) <+: _ :=
    importsChars_prefix (p.plan.rewritePlaced unit.print ⟨2⟩ header ⟨1⟩) rfl
  rw [hnew, congrArg String.toList (Except.ok.inj htext)] at hfirst
  rw [hplaced] at hsecond
  have hlength := List.prefix_of_prefix_length_le hfirst hsecond (by decide)
  exact absurd hlength (by decide +kernel)

end Dates
end EnhancedFor
