import EnhancedFor.Proofs.Loop.TypeSpelling

/-!
The imports that go with a conversion. Whether a node goes is decided by the nearest marked node on
the way up, and the marks are nested: the loop goes, its body and its iterable stay, and statements
and calls in the body go. Main statement: an import goes exactly if code that is discarded mentions
its type and nothing in the converted unit does.
-/

namespace EnhancedFor

namespace CompilationUnit

variable {unit : CompilationUnit} {store : TypeStore} {node : Node} {name : String} {ref : TypeRef}

/-- The types that statements and expressions write out. -/
inductive WritesOut (unit : CompilationUnit) : Node → TypeRef → Prop where
  | declaration {id : StmtId} {decl : Declaration} (h : unit.stmt? id = some (.declare decl)) :
    WritesOut unit (.stmt id) decl.type
  | loopVariable {id body : StmtId} {param : Parameter} {iterable : ExprId}
    (h : unit.stmt? id = some (.forEach param iterable body)) : WritesOut unit (.stmt id) param.type
  | headDeclaration {id : ExprId} {decl : Declaration} (h : unit.expr? id = some (.declare decl)) :
    WritesOut unit (.expr id) decl.type
  | cast {id inner : ExprId} {type : TypeRef} (h : unit.expr? id = some (.cast type inner)) :
    WritesOut unit (.expr id) type
  | create {id : ExprId} {type : TypeRef} {args : List ExprId}
    (h : unit.expr? id = some (.create type args)) : WritesOut unit (.expr id) type

/-- The types that the declarations of fields and methods write out. -/
inductive MemberType (unit : CompilationUnit) : TypeRef → Prop where
  | field {t : TypeDecl} {decl : Declaration} (ht : t ∈ unit.types) (hf : decl ∈ t.fields) :
    MemberType unit decl.type
  | result {t : TypeDecl} {m : Method} {type : TypeRef} (ht : t ∈ unit.types) (hm : m ∈ t.methods)
    (hr : m.returnType = some type) : MemberType unit type
  | parameter {t : TypeDecl} {m : Method} {param : Parameter} (ht : t ∈ unit.types)
    (hm : m ∈ t.methods) (hp : param ∈ m.params) : MemberType unit param.type

/-- The node writes out a type that mentions the declaration of that name. -/
def MentionsAt (unit : CompilationUnit) (store : TypeStore) (node : Node) (name : String) : Prop :=
  ∃ ref, unit.WritesOut node ref ∧ ref.Mentions store name

theorem typeRefAt?_eq_some_iff : unit.typeRefAt? node = some ref ↔ unit.WritesOut node ref := by
  constructor
  · intro h
    cases node with
    | stmt id =>
      rw [typeRefAt?] at h
      split at h
      · rename_i hs
        obtain rfl := Option.some.inj h
        exact .declaration hs
      · rename_i hs
        obtain rfl := Option.some.inj h
        exact .loopVariable hs
      · simp at h
    | expr id =>
      rw [typeRefAt?] at h
      split at h
      · rename_i he
        obtain rfl := Option.some.inj h
        exact .headDeclaration he
      · rename_i he
        obtain rfl := Option.some.inj h
        exact .cast he
      · rename_i he
        obtain rfl := Option.some.inj h
        exact .create he
      · simp at h
  · intro h
    cases h with
    | declaration h | loopVariable h | headDeclaration h | cast h | create h => simp [typeRefAt?, h]

theorem mem_memberTypeRefs : ref ∈ unit.memberTypeRefs ↔ unit.MemberType ref := by
  unfold memberTypeRefs
  simp only [List.mem_flatMap, List.mem_append, List.mem_map, Option.mem_toList]
  constructor
  · rintro ⟨t, ht, ⟨decl, hf, rfl⟩ | ⟨m, hm, hr | ⟨param, hp, rfl⟩⟩⟩
    · exact .field ht hf
    · exact .result ht hm hr
    · exact .parameter ht hm hp
  · intro h
    cases h with
    | field ht hf => exact ⟨_, ht, .inl ⟨_, hf, rfl⟩⟩
    | result ht hm hr => exact ⟨_, ht, .inr ⟨_, hm, .inl hr⟩⟩
    | parameter ht hm hp => exact ⟨_, ht, .inr ⟨_, hm, .inr ⟨_, hp, rfl⟩⟩⟩

/-- The names mentioned at those nodes of the unit that a test picks. -/
theorem mem_mentions_allNodes (hu : unit.SingleUse) (hc : unit.Complete) {p : Node → Bool}
    {P : Node → Prop} (h : ∀ node, unit.Rooted node → (p node = true ↔ P node)) :
    name ∈ ((unit.allNodes.filter p).filterMap unit.typeRefAt?).flatMap (·.mentions store) ↔
      ∃ node, unit.Rooted node ∧ P node ∧ unit.MentionsAt store node name := by
  simp only [List.mem_flatMap, List.mem_filterMap, List.mem_filter, hu.mem_allNodes hc,
    TypeRef.mem_mentions, typeRefAt?_eq_some_iff]
  constructor
  · rintro ⟨ref, ⟨node, ⟨hr, hp⟩, hw⟩, hm⟩
    exact ⟨node, hr, (h node hr).1 hp, ref, hw, hm⟩
  · rintro ⟨node, hr, hp, ref, hw, hm⟩
    exact ⟨ref, ⟨node, ⟨hr, (h node hr).2 hp⟩, hw⟩, hm⟩

end CompilationUnit

open CompilationUnit

namespace NodeChanges

variable {changes : NodeChanges} {unit : CompilationUnit} {store : TypeStore} {node : Node}

/-- The node is below one that is to go, with none that is to stay in between. -/
def Takes (changes : NodeChanges) (unit : CompilationUnit) (node : Node) : Prop :=
  ∃ m ∈ changes.removed, unit.Below m node ∧
    ∀ r ∈ changes.retained, unit.Below m r → ¬ unit.Below r node

section

variable (hu : unit.SingleUse) (hc : unit.Complete)

include hu hc

/-- A mark on the node decides; without one the node goes with the one that it is a part of. -/
theorem removes_step : changes.removes (Parents.ofUnit unit) node = true ↔
    node ∉ changes.retained ∧ (node ∈ changes.removed ∨ ∃ parent, unit.Rooted parent ∧
      node ∈ unit.kids parent ∧ changes.removes (Parents.ofUnit unit) parent = true) := by
  have hup : (∃ parent, unit.Rooted parent ∧ node ∈ unit.kids parent ∧
        changes.removes (Parents.ofUnit unit) parent = true) ↔
      ∃ parent, (Parents.ofUnit unit).parent? node = some parent ∧
        changes.removes (Parents.ofUnit unit) parent = true := by
    simp only [Parents.parent?_eq_some_iff hu hc, and_assoc]
  rw [hup, removes, Parents.path_eq hu hc, List.findSome?_cons]
  by_cases hretained : node ∈ changes.retained
  · simp [hretained]
  · by_cases hremoved : node ∈ changes.removed
    · simp [hretained, hremoved]
    · cases hparent : (Parents.ofUnit unit).parent? node with
      | none => simp [hretained, hremoved]
      | some parent => simp [hretained, hremoved, removes]

/-- The rule for one node, from the rule for the one that it is a part of. -/
theorem removes_iff_of_parent (hr : unit.Rooted node)
    (ih : ∀ parent, node ∈ unit.kids parent →
      (changes.removes (Parents.ofUnit unit) parent = true ↔ changes.Takes unit parent)) :
    changes.removes (Parents.ofUnit unit) node = true ↔ changes.Takes unit node := by
  have hg := hu.grounded hc hr
  rw [removes_step hu hc]
  constructor
  · rintro ⟨hretained, hremoved | ⟨parent, -, hkid, hparent⟩⟩
    · refine ⟨node, hremoved, .refl, ?_⟩
      intro r hmem hdown hup
      rcases Relation.ReflTransGen.cases_head hdown with rfl | ⟨kid, hk, hb⟩
      · exact hretained hmem
      · exact hg.not_below hk (hb.trans hup)
    · obtain ⟨m, hremoved, hb, hclear⟩ := (ih parent hkid).1 hparent
      refine ⟨m, hremoved, hb.tail hkid, ?_⟩
      intro r hmem hdown hup
      by_cases heq : r = node
      · exact hretained (heq ▸ hmem)
      · exact hclear r hmem hdown (hu.below_parent hup heq hkid)
  · rintro ⟨m, hremoved, hb, hclear⟩
    refine ⟨fun hretained => hclear node hretained hb .refl, ?_⟩
    rcases Relation.ReflTransGen.cases_tail hb with rfl | ⟨parent, hb, hkid⟩
    · exact .inl hremoved
    · refine .inr ⟨parent, hu.rooted_parent hr hkid, hkid, (ih parent hkid).2 ⟨m, hremoved, hb, ?_⟩⟩
      intro r hmem hdown hup
      exact hclear r hmem hdown (hup.tail hkid)

theorem removes_iff (hr : unit.Rooted node) :
    changes.removes (Parents.ofUnit unit) node = true ↔ changes.Takes unit node := by
  obtain ⟨k, hl⟩ := hr.level
  clear hr
  -- The levels above a node end at a root, which is a part of nothing.
  induction hl with
  | root h =>
    apply removes_iff_of_parent hu hc ⟨_, h, .refl⟩
    intro parent hkid
    exact (hu.not_mem_roots hkid h).elim
  | kid hl hk ih =>
    apply removes_iff_of_parent hu hc (hl.rooted.kid hk)
    intro parent hkid
    exact hu.parent_unique hk hkid ▸ ih

/-- An import of one type goes if its type is mentioned where code goes, and nowhere else. -/
theorem mem_deadImports {line : ImportLine} : line ∈ changes.deadImports unit store ↔
    line ∈ unit.importLines ∧ line.line.isStatic = false ∧ line.line.isOnDemand = false ∧
      (∃ node, unit.Rooted node ∧ changes.Takes unit node ∧
        unit.MentionsAt store node line.line.path) ∧
      ¬ ((∃ ref, unit.MemberType ref ∧ ref.Mentions store line.line.path) ∨
        (∃ node, unit.Rooted node ∧ ¬ changes.Takes unit node ∧
          unit.MentionsAt store node line.line.path) ∨ line.line.path ∈ changes.added) := by
  have hgoes (node : Node) (hr : unit.Rooted node) :
      changes.removes (Parents.ofUnit unit) node = true ↔ changes.Takes unit node :=
    removes_iff hu hc hr
  have hstays (node : Node) (hr : unit.Rooted node) :
      (not ∘ changes.removes (Parents.ofUnit unit)) node = true ↔ ¬ changes.Takes unit node := by
    rw [← hgoes node hr]
    simp
  simp only [deadImports, List.partition_eq_filter_filter, List.mem_filter, Bool.and_eq_true,
    Bool.not_eq_true', List.contains_eq_mem, decide_eq_true_eq, decide_eq_false_iff_not,
    List.mem_append, List.mem_flatMap, mem_memberTypeRefs, TypeRef.mem_mentions,
    mem_mentions_allNodes hu hc hgoes, mem_mentions_allNodes hu hc hstays, and_assoc, not_or]

end

end NodeChanges

/-- The code that a conversion discards: the loop without its body and its iterable, the removed
statements, and the replaced calls. -/
inductive Plan.Discards (plan : Plan) (unit : CompilationUnit) (loop body : StmtId)
    (iterable : ExprId) (node : Node) : Prop where
  | head (hl : unit.Below (.stmt loop) node) (hb : ¬ unit.Below (.stmt body) node)
    (hi : ¬ unit.Below (.expr iterable) node) : Discards plan unit loop body iterable node
  | statement {stmt : StmtId} (hs : stmt ∈ plan.removedStatements)
    (hb : unit.Below (.stmt stmt) node) : Discards plan unit loop body iterable node
  | call {call : ExprId} (hc : call ∈ plan.replacedCalls) (hb : unit.Below (.expr call) node) :
    Discards plan unit loop body iterable node

namespace Rewriting

variable {unit : CompilationUnit} (r : Rewriting unit) (hu : unit.SingleUse) (hc : unit.Complete)

include hu hc

/-- The iterable is in the loop and outside its body. -/
theorem iterable_in_head : unit.Below (.stmt r.loop) (.expr r.header.iterable.expr) ∧
    ¬ unit.Below (.stmt r.body) (.expr r.header.iterable.expr) := by
  obtain ⟨e, he, hb⟩ := r.fromHead
  have hinit : e ∈ r.inits ++ r.condition.toList ++ r.updates := by simp [he]
  refine ⟨.head (r.head_mem hinit) hb, ?_⟩
  intro hbody
  have heq := hu.kids_apart (hu.grounded hc r.rooted) (r.head_mem hinit) r.body_mem hb hbody
  contradiction

/-- Apart from the loop, no node that the conversion changes has a part that is to stay. -/
theorem retained_apart {m kept : Node} (hm : m ∈ r.nodes) (hne : m ≠ .stmt r.loop)
    (hkept : kept = .stmt r.body ∨ kept = .expr r.header.iterable.expr) :
    ¬ unit.Below m kept := by
  have hiterable := (r.iterable_in_head hu hc).2
  have hbody := hu.grounded hc r.rooted_body
  intro hb
  rcases r.mem_nodes.1 hm with rfl | ⟨s, hs, rfl⟩ | ⟨e, he, rfl⟩
  · exact hne rfl
  · rcases r.removed_cases s hs with hin | hbare
    · rcases hkept with rfl | rfl
      · exact hbody.not_below hin.mem_kids hb
      · exact hiterable (.head hin.mem_kids hb)
    · rcases Relation.ReflTransGen.cases_head hb with rfl | ⟨kid, hk, -⟩
      · rcases hkept with heq | heq
        · exact hbare.outside (heq ▸ .refl)
        · contradiction
      · simp [hbare.kids_eq] at hk
  · rcases hkept with rfl | rfl
    · obtain ⟨inner, heq⟩ := exists_expr_of_below hb
      contradiction
    · exact hiterable ((r.replaced_below e he).trans hb)

end Rewriting

namespace Classification

variable {c : Classification} {unit : CompilationUnit} {store : TypeStore} {names : Name.Candidates}
  {strict : Bool} {inits updates : List ExprId} {condition : Option ExprId} {body : StmtId}
  {node : Node} {name : String} {header : Header} {imports : ImportChanges}

/-- The converted unit mentions the declaration of that name: in a field or method, in code that is
not discarded, or in the new head if this is spelt simply. -/
@[mk_iff]
inductive StillMentions (c : Classification) (unit : CompilationUnit) (store : TypeStore)
    (body : StmtId) (plan : Plan) (name : String) : Prop where
  | member {ref : TypeRef} (h : unit.MemberType ref) (hm : ref.Mentions store name) :
    StillMentions c unit store body plan name
  | code {node : Node} (hr : unit.Rooted node)
    (hd : ¬ plan.Discards unit c.loop body c.iterableExpr node)
    (hm : unit.MentionsAt store node name) : StillMentions c unit store body plan name
  | header (hs : c.SpeltSimply unit store) (hm : store.MentionsName c.elementType name) :
    StillMentions c unit store body plan name

section

variable (hacc : unit.Accepts store strict inits condition updates body c) (hu : unit.SingleUse)
  (hc : unit.Complete) (hr : unit.Rooted (.stmt c.loop))
  (hheader : header.iterable.expr = c.iterableExpr)

include hacc hu hc hr hheader

theorem mem_removed_nodeChanges {m : Node} : m ∈ (c.nodeChanges unit store body).removed ↔
    m ∈ (hacc.rewriting hu hc hr header hheader).nodes :=
  List.perm_middle.mem_iff

/-- The marks take what is discarded. -/
theorem takes_iff : (c.nodeChanges unit store body).Takes unit node ↔
    (c.planBody unit names body header imports).Discards unit c.loop body c.iterableExpr node := by
  let r := hacc.rewriting hu hc hr header hheader
  have hiterable : r.header.iterable.expr = c.iterableExpr := hheader
  have hmem (m : Node) : m ∈ (c.nodeChanges unit store body).removed ↔ m ∈ r.nodes :=
    mem_removed_nodeChanges hacc hu hc hr hheader
  have hkept (kept : Node) : kept ∈ (c.nodeChanges unit store body).retained ↔
      kept = .stmt body ∨ kept = .expr r.header.iterable.expr := by
    simp [nodeChanges, hiterable]
  have htakes {m : Node} (hm : m ∈ r.nodes) (hne : m ≠ .stmt c.loop) (hb : unit.Below m node) :
      (c.nodeChanges unit store body).Takes unit node := by
    refine ⟨m, (hmem m).2 hm, hb, ?_⟩
    intro kept hret hdown
    exact (r.retained_apart hu hc hm hne ((hkept kept).1 hret) hdown).elim
  constructor
  · rintro ⟨m, hm, hb, hclear⟩
    rcases r.mem_nodes.1 ((hmem m).1 hm) with rfl | ⟨s, hs, rfl⟩ | ⟨e, he, rfl⟩
    · have hinner := (r.iterable_in_head hu hc).1
      apply Plan.Discards.head hb
      · exact hclear _ ((hkept _).2 (.inl rfl)) (.single r.body_mem)
      · exact hiterable ▸ hclear _ ((hkept _).2 (.inr rfl)) hinner
    · exact .statement (removedStatements_planBody ▸ hs) hb
    · exact .call (replacedCalls_planBody ▸ he) hb
  · intro h
    cases h with
    | head hl hb hi =>
      refine ⟨.stmt c.loop, (hmem _).2 (r.mem_nodes.2 (.inl rfl)), hl, ?_⟩
      intro kept hret _
      rcases (hkept kept).1 hret with rfl | rfl
      · exact hb
      · exact hiterable ▸ hi
    | @statement s hs hb =>
      rw [removedStatements_planBody] at hs
      apply htakes (r.removed_mem hs) _ hb
      intro heq
      obtain rfl := Node.stmt.inj heq
      exact r.loop_not_removed hu hc hs
    | call he hb =>
      rw [replacedCalls_planBody] at he
      exact htakes (r.mem_nodes.2 (.inr (.inr ⟨_, he, rfl⟩))) (by simp) hb

/-- Everything that is discarded is code of the unit. -/
theorem rooted_of_discards
    (h : (c.planBody unit names body header imports).Discards unit c.loop body c.iterableExpr
      node) :
    unit.Rooted node := by
  obtain ⟨m, hm, hb, -⟩ := (takes_iff hacc hu hc hr hheader).2 h
  let r := hacc.rewriting hu hc hr header hheader
  exact (r.rooted_of_mem_nodes ((mem_removed_nodeChanges hacc hu hc hr hheader).1 hm)).below hb

/-- An import goes exactly if its type is mentioned in what is discarded and no longer otherwise. -/
theorem mem_removed_plannedImports (names : Name.Candidates) (imports : ImportChanges)
    {line : ImportLine} :
    line ∈ (c.plannedImports unit store body).removed ↔ line ∈ unit.importLines ∧
      line.line.isStatic = false ∧ line.line.isOnDemand = false ∧
      (∃ node, (c.planBody unit names body header imports).Discards unit c.loop body c.iterableExpr
        node ∧ unit.MentionsAt store node line.line.path) ∧
      ¬ c.StillMentions unit store body
        (c.planBody unit names body header imports) line.line.path := by
  have htakes (node : Node) : (c.nodeChanges unit store body).Takes unit node ↔
      (c.planBody unit names body header imports).Discards unit c.loop body c.iterableExpr node :=
    takes_iff hacc hu hc hr hheader
  have hgone : (∃ node, unit.Rooted node ∧ (c.nodeChanges unit store body).Takes unit node ∧
        unit.MentionsAt store node line.line.path) ↔
      ∃ node, (c.planBody unit names body header imports).Discards unit c.loop body c.iterableExpr
        node ∧ unit.MentionsAt store node line.line.path := by
    simp only [htakes]
    constructor
    · rintro ⟨node, -, hd, hm⟩
      exact ⟨node, hd, hm⟩
    · rintro ⟨node, hd, hm⟩
      exact ⟨node, rooted_of_discards hacc hu hc hr hheader hd, hd, hm⟩
  rw [plannedImports, NodeChanges.mem_removed_applyTo, NodeChanges.mem_deadImports hu hc, hgone,
    mem_added_nodeChanges, stillMentions_iff]
  simp only [htakes]

/-- An import that provides a type of the new head stays. -/
theorem provider_stays (hs : c.SpeltSimply unit store)
    (hm : store.MentionsName c.elementType name) {line : ImportLine}
    (hp : line.line.Provides name) :
    line ∉ (c.plannedImports unit store body).removed := by
  obtain ⟨i, span⟩ := line
  rw [mem_removed_plannedImports hacc hu hc hr hheader (.ofList []) .empty]
  rintro ⟨-, -, hsingle, -, hgone⟩
  cases hp with
  | single => exact hgone (.header hs hm)
  | onDemand h => simp at hsingle

end

/-- For an accepted loop in the code of the unit and its plan: an import goes exactly if it is one
of a single type, code that is discarded mentions the type, and the converted unit does not. If the
head is spelt simply, each type in it is known without an import, by one that stays, or by one that
is added; and only types that need it are added. -/
theorem import_changes_exact (store : TypeStore) (options : ClassifyOptions) (loop : StmtId)
    {plan : Plan} (hu : unit.SingleUse) (hclass : unit.classify store options loop = .ok (.ok c))
    (hloop : unit.stmt? loop = some (.forLoop inits condition updates body))
    (hr : unit.Rooted (.stmt loop)) (hplan : c.plan unit store names = .ok plan) :
    (∀ line, line ∈ plan.imports.removed ↔ line ∈ unit.importLines ∧
      line.line.isStatic = false ∧ line.line.isOnDemand = false ∧
      (∃ node, plan.Discards unit loop body c.iterableExpr node ∧
        unit.MentionsAt store node line.line.path) ∧
      ¬ c.StillMentions unit store body plan line.line.path) ∧
    (c.SpeltSimply unit store → ∀ name, store.MentionsName c.elementType name →
      unit.Implicit name ∨
        (∃ line ∈ unit.importLines, line ∉ plan.imports.removed ∧ line.line.Provides name) ∨
        name ∈ plan.imports.added) ∧
    (∀ name ∈ plan.imports.added, store.MentionsName c.elementType name ∧ ¬ unit.Implicit name ∧
      ¬ ∃ i ∈ unit.imports, i.Provides name) ∧
    ∃ header, plan.header? = some header ∧ ∀ b, store.type? c.elementType = some b →
      (c.SpeltSimply unit store → header.typeText = b.name) ∧
        (¬ c.SpeltSimply unit store → header.typeText = b.qualifiedName) := by
  obtain ⟨rfl, hacc⟩ := accepts_of_classify_loop hclass hloop
  obtain ⟨hcomplete, header, hheader, rfl⟩ := plan_eq_ok hloop hplan
  obtain ⟨-, -, -, -, -, hiterable⟩ := header_eq_ok hheader
  have hc := hu.complete_iff.1 hcomplete
  refine ⟨fun line => mem_removed_plannedImports hacc hu hc hr hiterable names _, ?_, ?_, header,
    header?_planBody, fun b hb => typeText_header hheader hb⟩
  · intro hs name hm
    by_cases himplicit : unit.Implicit name
    · exact .inl himplicit
    · by_cases hprovided : ∃ i ∈ unit.imports, i.Provides name
      · obtain ⟨i, hi, hp⟩ := hprovided
        rw [← unit.map_line_importLines] at hi
        obtain ⟨line, hline, rfl⟩ := List.mem_map.1 hi
        exact .inr (.inl ⟨line, hline, provider_stays hacc hu hc hr hiterable hs hm hp, hp⟩)
      · exact .inr (.inr (mem_added_plannedImports.2 ⟨⟨hs, hm⟩, himplicit, hprovided⟩))
  · intro name hadded
    obtain ⟨⟨-, hm⟩, himplicit, hprovided⟩ := mem_added_plannedImports.1 hadded
    exact ⟨hm, himplicit, hprovided⟩

end Classification

namespace Strings

/-- After the conversion nothing mentions the iterator, whose import goes; the other one was not
used by the loop. -/
theorem iterator_import_unused : imported.SingleUse ∧ imported.Rooted (.stmt ⟨3⟩) ∧ ∃ c plan line,
    imported.classify store ⟨false, ⟨17⟩⟩ ⟨3⟩ = .ok (.ok c) ∧
      c.plan imported store (.ofList ["s"]) = .ok plan ∧ plan.imports.removed = [line] ∧
      line.line = ⟨"java.util.Iterator", false, false⟩ ∧
      imported.MentionsAt store (.expr ⟨2⟩) "java.util.Iterator" ∧
      ¬ c.StillMentions imported store ⟨2⟩ plan "java.util.Iterator" := by
  have hu : imported.SingleUse := by decide
  have hr : imported.Rooted (.stmt ⟨3⟩) := ⟨.stmt ⟨4⟩, by decide, .single (by decide)⟩
  have haccepted : ∃ c plan, imported.classify store ⟨false, ⟨17⟩⟩ ⟨3⟩ = .ok (.ok c) ∧
      c.plan imported store (.ofList ["s"]) = .ok plan ∧
      plan.imports.removed = [⟨⟨"java.util.Iterator", false, false⟩, ⟨0, 0⟩⟩] :=
    ⟨_, _, rfl, rfl, by decide⟩
  obtain ⟨c, plan, hclass, hplan, hremoved⟩ := haccepted
  have hexact := Classification.import_changes_exact store ⟨false, ⟨17⟩⟩ ⟨3⟩ hu hclass rfl hr hplan
  have hunused := (hexact.1 _).1 (hremoved ▸ List.mem_singleton_self _)
  exact ⟨hu, hr, c, plan, _, hclass, hplan, hremoved, rfl,
    ⟨_, .headDeclaration rfl, _, rfl, TypeStore.mem_mentionedNames.1 (by decide)⟩, hunused.2.2.2.2⟩

end Strings
end EnhancedFor
