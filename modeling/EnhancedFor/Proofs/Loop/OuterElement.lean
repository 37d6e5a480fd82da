import EnhancedFor.Proofs.Loop.Lookups

/-!
Elements that live outside the loop body. Main statement: such a loop is refused for its element
exactly if the variable is written anywhere but in the recognised assignments, is used outside the
body, or cannot be declared anew by the head of the loop.
-/

namespace EnhancedFor
namespace CompilationUnit

variable {unit : CompilationUnit} {store : TypeStore} {body : StmtId} {var : VarId}
  {occurrences : List Occurrence} {binding : VariableBinding}

/-- The variable is written by a field initialiser, or by a node of the unit that is in none of the
assignments. -/
inductive AssignedElsewhere (unit : CompilationUnit) (occurrences : List Occurrence) (var : VarId) :
    Prop where
  | field {f : Fragment} (hf : f ∈ unit.fieldFragments) (hb : f.binding = some var)
    (hi : f.init.isSome = true) : AssignedElsewhere unit occurrences var
  | write {node : Node} (hr : unit.Rooted node) (ho : ¬ unit.InAssignment occurrences node)
    (hw : unit.Writes var node) : AssignedElsewhere unit occurrences var

/-- The node is part of the unit but not of the body. -/
def Outside (unit : CompilationUnit) (body : StmtId) (node : Node) : Prop :=
  unit.Rooted node ∧ ¬ unit.Below (.stmt body) node

/-- A statement outside the body that declares the variable and nothing else, when no other node
outside the body declares it. -/
structure OnlyDeclaration (unit : CompilationUnit) (body : StmtId) (var : VarId) (stmt : StmtId) :
    Prop where
  outside : unit.Outside body (.stmt stmt)
  declares : unit.Declares var (.stmt stmt)
  alone : ∃ type fragment, unit.stmt? stmt = some (.declare ⟨type, [fragment]⟩)
  only : ∀ node, unit.Outside body node → unit.Declares var node → node = .stmt stmt

/-- A loop head cannot take the place of the variable. -/
inductive UsedOutside (unit : CompilationUnit) (store : TypeStore) (body : StmtId) (var : VarId) :
    Prop where
  | reference {node : Node} (ho : unit.Outside body node) (hr : unit.Refers var node) :
    UsedOutside unit store body var
  | parameter {binding : VariableBinding} (h : store.var? var = some binding)
    (hk : binding.kind = .parameter) : UsedOutside unit store body var
  | localVar {binding : VariableBinding} (h : store.var? var = some binding)
    (hk : binding.kind = .localVar) (hd : ∀ stmt, ¬ unit.OnlyDeclaration body var stmt) :
    UsedOutside unit store body var

/-- What is dropped with the loop: nothing for a field, the only declaration of a local. -/
inductive Drops (unit : CompilationUnit) (store : TypeStore) (body : StmtId) (var : VarId) :
    Option StmtId → Prop where
  | field {binding : VariableBinding} (h : store.var? var = some binding)
    (hk : binding.kind = .field) : Drops unit store body var none
  | localVar {binding : VariableBinding} {stmt : StmtId} (h : store.var? var = some binding)
    (hk : binding.kind = .localVar) (hd : unit.OnlyDeclaration body var stmt) :
    Drops unit store body var (some stmt)

section

variable (hu : unit.SingleUse) (hc : unit.Complete)

include hu hc

theorem any_nodesOutside {p : Node → Bool} {P : Node → Prop}
    (hp : ∀ node, unit.Rooted node → (p node = true ↔ P node)) :
    (unit.nodesOutside body).any p = true ↔ ∃ node, unit.Outside body node ∧ P node := by
  rw [List.any_eq_true]
  refine exists_congr fun node => ?_
  rw [mem_nodesOutside hu hc]
  exact and_congr_right fun h => hp node h.1

theorem assignedElsewhere_iff (hb : unit.Rooted (.stmt body))
    (ho : ∀ o ∈ occurrences, unit.Below (.stmt body) o.node) :
    (unit.fieldInitialized var || (unit.nodesOutside body).any (unit.writesAt var) ||
      (unit.nodesInside body occurrences).any (unit.writesAt var)) = true ↔
      unit.AssignedElsewhere occurrences var := by
  have hg : ∀ {node}, unit.Rooted node → unit.Grounded node := hu.grounded hc
  rw [Bool.or_eq_true, Bool.or_eq_true, fieldInitialized_iff,
    any_nodesOutside hu hc fun node hr => writesAt_iff (hg hr), List.any_eq_true]
  constructor
  · rintro ((⟨f, hf, hv, hi⟩ | ⟨node, ⟨hr, hout⟩, hw⟩) | ⟨node, hn, hw⟩)
    · exact .field hf hv hi
    · -- The assignments are all in the body, so this node is in none of them.
      refine .write hr ?_ hw
      rintro ⟨id, target, hmem, hid⟩
      exact hout ((ho _ hmem).trans hid)
    · obtain ⟨hbelow, hin⟩ := (mem_nodesInside hu (hg hb) ho).1 hn
      have hr := hb.below hbelow
      exact .write hr hin ((writesAt_iff (hg hr)).1 hw)
  · intro h
    cases h with
    | field hf hv hi => exact .inl (.inl ⟨_, hf, hv, hi⟩)
    | @write node hr hin hw =>
      by_cases hbelow : unit.Below (.stmt body) node
      · exact .inr ⟨node, (mem_nodesInside hu (hg hb) ho).2 ⟨hbelow, hin⟩,
          (writesAt_iff (hg hr)).2 hw⟩
      · exact .inl (.inr ⟨node, ⟨hr, hbelow⟩, hw⟩)

theorem mem_outsideDeclarations {node : Node} :
    node ∈ (unit.nodesOutside body).filter (unit.declaresAt var) ↔
      unit.Outside body node ∧ unit.Declares var node := by
  rw [List.mem_filter, mem_nodesOutside hu hc, declaresAt_iff]
  rfl

/-- The test for a declaration to drop: one node outside the body declares the variable, and it is a
statement with one fragment. -/
theorem onlyDeclaration_iff {stmt : StmtId} :
    ((unit.nodesOutside body).filter (unit.declaresAt var) = [.stmt stmt] ∧
      ((unit.declarationAt? (.stmt stmt)).any fun d => d.fragments.length == 1) = true) ↔
      unit.OnlyDeclaration body var stmt := by
  have hnodup : ((unit.nodesOutside body).filter (unit.declaresAt var)).Nodup :=
    (nodesOutside_nodup hu hc).filter _
  constructor
  · rintro ⟨heq, hone⟩
    have hmem : Node.stmt stmt ∈ (unit.nodesOutside body).filter (unit.declaresAt var) := by
      rw [heq]
      exact List.mem_singleton_self _
    obtain ⟨hout, hdecl⟩ := (mem_outsideDeclarations hu hc).1 hmem
    obtain ⟨⟨type, fragments⟩, hd, hlen⟩ := (Option.any_eq_true _ _).1 hone
    obtain ⟨fragment, rfl⟩ := List.length_eq_one_iff.1 (by simpa using hlen)
    refine ⟨hout, hdecl, ⟨type, fragment, ?_⟩, fun node hn hd => ?_⟩
    · cases declarationAt?_eq_some_iff.1 hd with
      | stmt h => exact h
    · simpa [heq] using (mem_outsideDeclarations hu hc).2 ⟨hn, hd⟩
  · rintro ⟨hout, hdecl, ⟨type, fragment, hstmt⟩, honly⟩
    refine ⟨List.perm_singleton.1 ?_, by simp [declarationAt?, hstmt]⟩
    rw [List.perm_ext_iff_of_nodup hnodup (List.nodup_singleton _)]
    intro node
    rw [mem_outsideDeclarations hu hc, List.mem_singleton]
    constructor
    · exact fun h => honly node h.1 h.2
    · rintro rfl
      exact ⟨hout, hdecl⟩

theorem outerDeclaration_spec (hb : unit.Rooted (.stmt body))
    (ho : ∀ o ∈ occurrences, unit.Below (.stmt body) o.node)
    (hv : store.var? var = some binding) :
    (unit.AssignedElsewhere occurrences var ∧
      unit.outerDeclaration store body var occurrences = .error .elementAssignedElsewhere) ∨
    (¬ unit.AssignedElsewhere occurrences var ∧ unit.UsedOutside store body var ∧
      unit.outerDeclaration store body var occurrences = .error .elementUsedOutsideLoop) ∨
    (¬ unit.AssignedElsewhere occurrences var ∧ ¬ unit.UsedOutside store body var ∧
      ∃ d, unit.Drops store body var d ∧
        unit.outerDeclaration store body var occurrences = .ok d) := by
  by_cases hassigned : unit.AssignedElsewhere occurrences var
  · left
    refine ⟨hassigned, ?_⟩
    rw [outerDeclaration, outerUse?, if_pos ((assignedElsewhere_iff hu hc hb ho).2 hassigned)]
  right
  have hunassigned := mt (assignedElsewhere_iff hu hc hb ho).1 hassigned
  by_cases href : ∃ node, unit.Outside body node ∧ unit.Refers var node
  · left
    refine ⟨hassigned, .reference href.choose_spec.1 href.choose_spec.2, ?_⟩
    rw [outerDeclaration, outerUse?, if_neg hunassigned,
      if_pos ((any_nodesOutside hu hc fun _ _ => refersAt_iff).2 href)]
  have hunread := mt (any_nodesOutside hu hc fun _ _ => refersAt_iff).1 href
  obtain ⟨name, type, kind⟩ := binding
  have huse : unit.outerUse? body var occurrences = none := by
    rw [outerUse?, if_neg hunassigned, if_neg hunread]
  rw [outerDeclaration, huse, hv]
  dsimp only
  cases kind with
  | parameter => exact .inl ⟨hassigned, .parameter hv rfl, rfl⟩
  | field =>
    refine .inr ⟨hassigned, fun hused => ?_, none, .field hv rfl, rfl⟩
    cases hused with
    | reference hout hr => exact href ⟨_, hout, hr⟩
    | parameter h hk | localVar h hk _ => simp_all
  | localVar =>
    by_cases honly : ∃ stmt, unit.OnlyDeclaration body var stmt
    · obtain ⟨stmt, honly⟩ := honly
      obtain ⟨hlist, hone⟩ := (onlyDeclaration_iff hu hc).2 honly
      refine .inr ⟨hassigned, fun hused => ?_, some stmt, .localVar hv rfl honly, ?_⟩
      · cases hused with
        | reference hout hr => exact href ⟨_, hout, hr⟩
        | parameter h hk => simp_all
        | localVar _ _ hd => exact hd stmt honly
      · simp only [hlist]
        rw [if_pos hone]
    · refine .inl ⟨hassigned, .localVar hv rfl fun stmt h => honly ⟨stmt, h⟩, ?_⟩
      dsimp only
      split
      · rename_i id hlist
        rw [if_neg fun hone => honly ⟨id, (onlyDeclaration_iff hu hc).1 ⟨hlist, hone⟩⟩]
      · rfl

end

/-- For a loop of the unit with an iterator, an iterable and an element variable that its body does
not declare, whether or not the strict rules apply: it is refused for another write of the variable
exactly if there is one, else for a use outside exactly if there is one, and an accepted loop drops
the declaration of the variable. There is an answer in every closed store that knows what the unit
is bound to. -/
theorem classify_outer_element (store : TypeStore) (options : ClassifyOptions) {loop : StmtId}
    {inits updates : List ExprId} {condition : Option ExprId} {iterator : VarId}
    {iterableExpr : ExprId} {iterable : IterableSource}
    (hu : unit.SingleUse) (hc : unit.Complete) (hr : unit.Rooted (.stmt loop))
    (hlevel : options.level.supports .enhancedFor = true)
    (hloop : unit.stmt? loop = some (.forLoop inits condition updates body))
    (hiterator : unit.iteratorIn? store inits = some iterator)
    (hiterable : unit.iterableIn? store inits = some (iterableExpr, some iterable))
    (hocc : unit.occurrences store iterator (unit.elementType store iterator iterableExpr) body =
      occurrences)
    (helement : occurrences.getLast?.bind unit.occurrenceVar? = some var)
    (hbody : ∀ node, unit.Below (.stmt body) node → ¬ unit.Binds var node)
    (hv : store.var? var = some binding) :
    (∀ answer, unit.classify store options loop = .ok answer →
      (answer = .error .elementAssignedElsewhere ↔ unit.AssignedElsewhere occurrences var) ∧
      (answer = .error .elementUsedOutsideLoop ↔
        ¬ unit.AssignedElsewhere occurrences var ∧ unit.UsedOutside store body var) ∧
      ∀ c, answer = .ok c → c.occurrences = occurrences ∧
        ∃ d, c.element = some ⟨var, false, d⟩ ∧ unit.Drops store body var d) ∧
    (unit.BoundIn store → unit.TypedIn store → store.Closed →
      ∃ answer, unit.classify store options loop = .ok answer) := by
  refine ⟨fun answer hanswer => ?_, fun hbound htyped hclosed => ⟨_, classify_eq hlevel hloop
    (hu.complete_iff.2 hc) fun _ => hbound.classifyLookups htyped hclosed⟩⟩
  have hb : unit.Rooted (.stmt body) :=
    hr.kid (kids_stmt hloop ▸ List.mem_append_right _ (List.mem_singleton_self _))
  have hg := hu.grounded hc hb
  have ho : ∀ o ∈ occurrences, unit.Below (.stmt body) o.node := by
    intro o ho
    rw [← hocc] at ho
    exact below_of_mem_occurrences hg ho
  have hunbound : (unit.subtree (.stmt body)).any (unit.bindsAt var) = false := by
    rw [List.any_eq_false]
    exact fun node hn => mt bindsAt_iff.1 (hbody node (hg.mem_subtree.1 hn))
  have hfind : unit.findElement store body occurrences =
      (unit.outerDeclaration store body var occurrences).map fun d => some ⟨var, false, d⟩ := by
    simp [findElement, helement, hunbound]
  rw [eq_classifyParts_of_classify hlevel hloop hanswer, classifyParts_eq hiterator hiterable, hocc,
    hfind]
  rcases outerDeclaration_spec hu hc hb ho hv with
    ⟨ha, heq⟩ | ⟨ha, hused, heq⟩ | ⟨ha, hused, d, hd, heq⟩
  · simp [heq, ha, Except.map, Except.bind]
  · simp [heq, ha, hused, Except.map, Except.bind]
  · simp only [heq, Except.map, Except.bind]
    split
    · rename_i r hsome
      cases hs : options.strict with
      | false => simp [hs] at hsome
      | true =>
        have hr := strictRejection?_mem (by simpa [hs] using hsome)
        have hne : r ≠ .elementAssignedElsewhere ∧ r ≠ .elementUsedOutsideLoop := by
          constructor <;> rintro rfl <;> simp at hr
        simp [hne, ha, hused]
    · simp [ha, hused, hd]

end CompilationUnit

namespace Strings

/-- Strings, and iterators and iterables over them. -/
def store : TypeStore where
  types := #[.declared .classType TypeStore.objectName, .declared .classType "java.lang.String",
    { kind := .interfaceType, qualifiedName := "java.util.Iterator<java.lang.String>"
      name := "Iterator<String>", typeArguments := [⟨1⟩] },
    { kind := .interfaceType, qualifiedName := "java.lang.Iterable<java.lang.String>"
      name := "Iterable<String>", typeArguments := [⟨1⟩] }]
  methods := #[⟨"iterator", ⟨3⟩, some ⟨2⟩⟩, ⟨"hasNext", ⟨2⟩, none⟩, ⟨"next", ⟨2⟩, some ⟨1⟩⟩]
  vars := #[⟨"xs", some ⟨3⟩, .parameter⟩, ⟨"s", some ⟨1⟩, .localVar⟩, ⟨"it", some ⟨2⟩, .localVar⟩]

/-- A method that declares `s` and then loops over `xs`, with `s = it.next();` for a body. -/
def unit : CompilationUnit :=
  { CompilationUnit.initial "Main.java" with
    types := [⟨"Main", none, [], [⟨"run", none, [store.parameter ⟨0⟩], some ⟨4⟩⟩]⟩]
    exprs := #[.name store ⟨0⟩, .call store (some ⟨0⟩) ⟨0⟩ [] none,
      .declare store [(⟨2⟩, some ⟨1⟩)], .name store ⟨2⟩, .call store (some ⟨3⟩) ⟨1⟩ [] none,
      .name store ⟨1⟩, .name store ⟨2⟩, .call store (some ⟨6⟩) ⟨2⟩ [] none,
      ⟨.assign .set ⟨5⟩ ⟨7⟩, some ⟨1⟩⟩]
    stmts := #[.declare (store.declaration [(⟨1⟩, none)]), .eval ⟨8⟩, .block [⟨1⟩],
      .forLoop [⟨2⟩] (some ⟨4⟩) [] ⟨2⟩, .block [⟨0⟩, ⟨3⟩]] }

theorem singleUse : unit.SingleUse := by decide

theorem complete : unit.Complete := singleUse.complete_iff.1 rfl

theorem rooted_loop : unit.Rooted (.stmt ⟨3⟩) :=
  ⟨.stmt ⟨4⟩, by decide, .single (by decide)⟩

theorem grounded_body : unit.Grounded (.stmt ⟨2⟩) :=
  (singleUse.grounded complete rooted_loop).kid (by decide)

theorem closed_store : store.Closed :=
  TypeStore.closed_of_all (by decide) (by decide) (by decide) (by decide)

theorem boundIn_unit : unit.BoundIn store := by decide

theorem typedIn_unit : unit.TypedIn store := by
  intro id type h
  have hall : ∀ n ∈ unit.exprs.toList, ∀ type ∈ n.type, store.knows (.type type) = true := by decide
  obtain ⟨n, hn, htype⟩ := Option.bind_eq_some_iff.1 h
  exact hall n (Array.mem_toList_iff.2 (Array.mem_of_getElem? hn)) type htype

/-- The loop is accepted, and the declaration of `s` goes with it. -/
theorem outer_declaration_dropped : unit.BoundIn store ∧ unit.TypedIn store ∧ store.Closed ∧ ∃ c d,
    unit.classify store ⟨true, ⟨17⟩⟩ ⟨3⟩ = .ok (.ok c) ∧ c.element = some ⟨⟨1⟩, false, d⟩ ∧
      unit.Drops store ⟨2⟩ ⟨1⟩ d := by
  have hbody : ∀ node ∈ unit.subtree (.stmt ⟨2⟩), unit.bindsAt ⟨1⟩ node = false := by decide
  obtain ⟨hanswers, hanswered⟩ :=
    CompilationUnit.classify_outer_element store ⟨true, ⟨17⟩⟩ singleUse complete rooted_loop
      (by decide) rfl rfl rfl rfl rfl (fun node hn hb => by
        have := hbody node (grounded_body.mem_subtree.2 hn)
        rw [CompilationUnit.bindsAt_iff.2 hb] at this
        contradiction) rfl
  have haccepted : ∃ c, unit.classify store ⟨true, ⟨17⟩⟩ ⟨3⟩ = .ok (.ok c) := ⟨_, rfl⟩
  obtain ⟨c, hc⟩ := haccepted
  obtain ⟨answer, hanswer⟩ := hanswered boundIn_unit typedIn_unit closed_store
  obtain rfl : answer = .ok c := Except.ok.inj (hanswer.symm.trans hc)
  obtain ⟨-, -, hok⟩ := hanswers _ hanswer
  obtain ⟨-, d, hd, hdrops⟩ := hok c rfl
  exact ⟨boundIn_unit, typedIn_unit, closed_store, c, d, hc, hd, hdrops⟩

end Strings
end EnhancedFor
