import EnhancedFor.Proofs.Loop.OuterElement

/-!
What the head of a loop says about where its iterator comes from. The classifier takes the last
variable with the type of an iterator, and apart from that the receiver of the last call in the text
of the head that makes an iterator from an iterable. Main statement: the two belong together exactly
if the iterator is declared with such a call, without arguments, and none comes after it, neither in
its receiver nor in a later initialiser.
-/

namespace EnhancedFor
namespace CompilationUnit

open Relation

variable {unit : CompilationUnit} {store : TypeStore} {inits updates : List ExprId}
  {condition : Option ExprId} {loop body : StmtId} {id core call receiver : ExprId}
  {args : List ExprId} {node n : Node}

/-- The first expression is the second in any parentheses and casts. -/
inductive Wraps (unit : CompilationUnit) : ExprId → ExprId → Prop where
  | here {id : ExprId} : Wraps unit id id
  | paren {id inner core : ExprId} (h : unit.expr? id = some (.paren inner))
    (hw : Wraps unit inner core) : Wraps unit id core
  | cast {id inner core : ExprId} {type : TypeRef} (h : unit.expr? id = some (.cast type inner))
    (hw : Wraps unit inner core) : Wraps unit id core

/-- A call of a known method on a receiver; its own type, else the one the method returns, is that
of an iterator. -/
inductive GivesIterator (unit : CompilationUnit) (store : TypeStore) (call receiver : ExprId)
    (args : List ExprId) : Prop where
  | mk {name : String} {method : MethodId} {type : TypeId}
    (h : unit.expr? call = some (.call (some receiver) name args (some method)))
    (ht : (unit.exprType? call).or ((store.method? method).bind (·.returnType)) = some type)
    (hi : store.isIteratorLike type = true)

/-- The type of the expression has `Iterable` above it. -/
def IsOver (unit : CompilationUnit) (store : TypeStore) (id : ExprId) : Prop :=
  ∃ type above, unit.exprType? id = some type ∧ store.iterableAbove? type = some above

/-- The node is a call that makes an iterator from an iterable. -/
def MakesIterator (unit : CompilationUnit) (store : TypeStore) (node : Node) : Prop :=
  ∃ call receiver args, node = .expr call ∧ unit.GivesIterator store call receiver args ∧
    unit.IsOver store receiver

/-- No node of the expression makes an iterator. -/
def MakesNone (unit : CompilationUnit) (store : TypeStore) (id : ExprId) : Prop :=
  ∀ n, unit.Below (.expr id) n → ¬ unit.MakesIterator store n

/-- The initialisers of the variables that the head declares. -/
def headInits (unit : CompilationUnit) (inits : List ExprId) : List ExprId :=
  (unit.headerFragments inits).filterMap (·.init)

/-- All nodes of these initialisers in the order of the text. -/
def headNodes (unit : CompilationUnit) (inits : List ExprId) : List Node :=
  (unit.headInits inits).flatMap fun e => unit.subtree (.expr e)

/-- The head declares the iterator with a call on the iterable, without arguments, in any
parentheses and casts. -/
def CreatedFrom (unit : CompilationUnit) (store : TypeStore) (inits : List ExprId)
    (iterator : VarId) (iterable : ExprId) : Prop :=
  ∃ f ∈ unit.headerFragments inits, f.binding = some iterator ∧
    ∃ init call, f.init = some init ∧ unit.Wraps init call ∧
      unit.GivesIterator store call iterable []

/-- The head declares the iterator with a call on an iterable, without arguments, and makes no other
iterator after it: none in the receiver, and none in the initialisers that follow. -/
def CreatedLast (unit : CompilationUnit) (store : TypeStore) (inits : List ExprId)
    (iterator : VarId) : Prop :=
  ∃ f ∈ unit.headerFragments inits, f.binding = some iterator ∧
    ∃ init call receiver, f.init = some init ∧ unit.Wraps init call ∧
      unit.GivesIterator store call receiver [] ∧ unit.IsOver store receiver ∧
      unit.MakesNone store receiver ∧ ∃ before after,
        unit.headInits inits = before ++ init :: after ∧ ∀ e ∈ after, unit.MakesNone store e

theorem GivesIterator.mem_kids (h : unit.GivesIterator store call receiver args) :
    .expr receiver ∈ unit.kids (.expr call) := by
  obtain ⟨h, -, -⟩ := h
  rw [kids_expr h]
  exact List.mem_map_of_mem (List.mem_append_left _ List.mem_cons_self)

/-- What the classifier records at a node. -/
theorem iterableAt?_iff : (∃ source, unit.iterableAt? store node = some (receiver, source)) ↔
    ∃ call args, node = .expr call ∧ unit.GivesIterator store call receiver args ∧
      unit.IsOver store receiver := by
  constructor
  · rintro ⟨source, h⟩
    cases node with
    | stmt s => simp [iterableAt?] at h
    | expr call =>
      rw [iterableAt?] at h
      split at h
      · rename_i found name args method hcall
        obtain ⟨hcond, h⟩ := Option.ite_none_right_eq_some.1 h
        obtain ⟨rfl, -⟩ := Prod.mk.inj (Option.some.inj h)
        rw [Bool.and_eq_true, Option.any_eq_true, Option.any_eq_true] at hcond
        obtain ⟨⟨result, hresult, hlike⟩, type, htype, hover⟩ := hcond
        obtain ⟨above, habove⟩ := Option.isSome_iff_exists.1 hover
        exact ⟨call, args, rfl, ⟨hcall, hresult, hlike⟩, type, above, htype, habove⟩
      · simp at h
  · rintro ⟨call, args, rfl, ⟨hcall, hresult, hlike⟩, type, above, htype, habove⟩
    simp [iterableAt?, resultType?, hcall, hresult, hlike, htype, habove]

theorem iterableAt?_eq_none : unit.iterableAt? store node = none ↔
    ¬ unit.MakesIterator store node := by
  rw [Option.eq_none_iff_forall_ne_some]
  constructor
  · rintro h ⟨call, receiver, args, hcall⟩
    obtain ⟨source, hsource⟩ := iterableAt?_iff.2 ⟨call, args, hcall⟩
    exact h _ hsource
  · rintro h ⟨receiver, source⟩ hsource
    obtain ⟨call, args, hcall⟩ := iterableAt?_iff.1 ⟨source, hsource⟩
    exact h ⟨call, receiver, args, hcall⟩

/-- The recorded iterable is the receiver of the last call in the head that makes an iterator. -/
theorem iterableIn?_eq_some_iff :
    (∃ source, unit.iterableIn? store inits = some (receiver, source)) ↔
      ∃ before call after args, unit.headNodes inits = before ++ .expr call :: after ∧
        unit.GivesIterator store call receiver args ∧ unit.IsOver store receiver ∧
        ∀ later ∈ after, ¬ unit.MakesIterator store later := by
  have hin : unit.iterableIn? store inits =
      ((unit.headNodes inits).filterMap (unit.iterableAt? store)).getLast? := rfl
  rw [hin]
  constructor
  · rintro ⟨source, h⟩
    obtain ⟨earlier, hlast⟩ := List.getLast?_eq_some_iff.1 h
    obtain ⟨first, rest, hnodes, -, hrest⟩ := List.filterMap_eq_append_iff.1 hlast
    obtain ⟨skipped, node, after, rfl, -, hnode, hafter⟩ := List.filterMap_eq_cons_iff.1 hrest
    obtain ⟨call, args, rfl, hcall⟩ := iterableAt?_iff.1 ⟨source, hnode⟩
    refine ⟨first ++ skipped, call, after, args, by simp [hnodes], hcall.1, hcall.2, ?_⟩
    exact fun later hlater => iterableAt?_eq_none.1
      (List.filterMap_eq_nil_iff.1 hafter later hlater)
  · rintro ⟨before, call, after, args, hnodes, hcall, hover, hafter⟩
    obtain ⟨source, hsource⟩ := iterableAt?_iff.2 ⟨call, args, rfl, hcall, hover⟩
    have hnone : after.filterMap (unit.iterableAt? store) = [] :=
      List.filterMap_eq_nil_iff.2 fun later hlater => iterableAt?_eq_none.2 (hafter later hlater)
    exact ⟨source, by simp [hnodes, hsource, hnone]⟩

theorem mem_headerFragments {f : Fragment} : f ∈ unit.headerFragments inits ↔
    ∃ d ∈ inits, ∃ decl, unit.expr? d = some (.declare decl) ∧ f ∈ decl.fragments := by
  rw [headerFragments, List.mem_flatMap]
  refine exists_congr fun d => and_congr_right fun _ => ?_
  split
  · rename_i decl hdecl
    simp [hdecl]
  · rename_i hno
    constructor
    · exact fun hf => (List.not_mem_nil hf).elim
    · rintro ⟨decl, hdecl, -⟩
      exact (hno decl hdecl).elim

theorem mem_headInits {e : ExprId} : e ∈ unit.headInits inits ↔
    ∃ d ∈ inits, ∃ decl, unit.expr? d = some (.declare decl) ∧ e ∈ decl.inits := by
  rw [headInits, List.mem_filterMap]
  constructor
  · rintro ⟨f, hf, he⟩
    obtain ⟨d, hd, decl, hdecl, hf⟩ := mem_headerFragments.1 hf
    exact ⟨d, hd, decl, hdecl, List.mem_filterMap.2 ⟨f, hf, he⟩⟩
  · rintro ⟨d, hd, decl, hdecl, he⟩
    obtain ⟨f, hf, he⟩ := List.mem_filterMap.1 he
    exact ⟨f, mem_headerFragments.2 ⟨d, hd, decl, hdecl, hf⟩, he⟩

section

variable (hu : unit.SingleUse) (hg : unit.Grounded (.stmt loop))
  (hloop : unit.stmt? loop = some (.forLoop inits condition updates body))

include hloop in
theorem init_mem_kids {d : ExprId} (hd : d ∈ inits) : .expr d ∈ unit.kids (.stmt loop) := by
  rw [kids_stmt hloop]
  exact List.mem_append_left _ (List.mem_map_of_mem (by simp [hd]))

include hloop in
/-- An initialiser of a variable is two levels below the loop. -/
theorem exists_kid_of_mem_headInits {e : ExprId} (he : e ∈ unit.headInits inits) :
    ∃ d, d ∈ unit.kids (.stmt loop) ∧ .expr e ∈ unit.kids d := by
  obtain ⟨d, hd, decl, hdecl, he⟩ := mem_headInits.1 he
  refine ⟨.expr d, init_mem_kids hloop hd, ?_⟩
  rw [kids_expr hdecl]
  exact List.mem_map_of_mem he

include hg hloop in
theorem grounded_headInit {e : ExprId} (he : e ∈ unit.headInits inits) :
    unit.Grounded (.expr e) := by
  obtain ⟨d, hd, he⟩ := exists_kid_of_mem_headInits hloop he
  exact (hg.kid hd).kid he

include hu in
/-- The initialisers in one declaration are different parts of it. -/
theorem headInits_singleton (d : ExprId) :
    (unit.headInits [d]).map .expr ⊆ unit.kids (.expr d) ∧ (unit.headInits [d]).Nodup := by
  by_cases hdecl : ∃ decl, unit.expr? d = some (.declare decl)
  · obtain ⟨decl, hdecl⟩ := hdecl
    have heq : unit.headInits [d] = decl.inits := by
      simp [headInits, headerFragments, hdecl, Declaration.inits]
    have hnodup := hu.kids_nodup (.expr d)
    rw [kids_expr hdecl] at hnodup ⊢
    rw [heq]
    exact ⟨List.Subset.refl _, hnodup.of_map⟩
  · have hnil : unit.headInits [d] = [] := by
      rw [List.eq_nil_iff_forall_not_mem]
      intro e he
      obtain ⟨d', hd, decl, h, -⟩ := mem_headInits.1 he
      exact hdecl ⟨decl, List.mem_singleton.1 hd ▸ h⟩
    rw [hnil]
    exact ⟨List.nil_subset _, List.nodup_nil⟩

include hu hloop in
theorem headInits_nodup : (unit.headInits inits).Nodup := by
  have hinits : inits.Nodup := by
    have hkids := hu.kids_nodup (.stmt loop)
    rw [kids_stmt hloop] at hkids
    have hhead := (List.nodup_append.1 hkids).1.of_map
    exact (List.nodup_append.1 (List.nodup_append.1 hhead).1).1
  have hflat : unit.headInits inits = inits.flatMap fun d => unit.headInits [d] := by
    simp [headInits, headerFragments, List.filterMap_flatMap]
  have hkid {d e : ExprId} (he : e ∈ unit.headInits [d]) : .expr e ∈ unit.kids (.expr d) :=
    (headInits_singleton hu d).1 (List.mem_map_of_mem he)
  rw [hflat, List.nodup_flatMap]
  refine ⟨fun d _ => (headInits_singleton hu d).2, hinits.imp fun hne e ha hb => hne ?_⟩
  exact Node.expr.inj (hu.parent_unique (hkid ha) (hkid hb))

include hu hg hloop in
/-- The trees of two initialisers are apart. -/
theorem headInits_apart {a b : ExprId} (ha : a ∈ unit.headInits inits)
    (hb : b ∈ unit.headInits inits) (hna : unit.Below (.expr a) n)
    (hnb : unit.Below (.expr b) n) : a = b := by
  obtain ⟨d, hd, ha⟩ := exists_kid_of_mem_headInits hloop ha
  obtain ⟨d', hd', hb⟩ := exists_kid_of_mem_headInits hloop hb
  obtain rfl : d = d' := hu.kids_apart hg hd hd' (.head ha hna) (.head hb hnb)
  exact Node.expr.inj (hu.kids_apart (hg.kid hd) ha hb hna hnb)

end

theorem Grounded.subtree_eq (h : unit.Grounded node) :
    unit.subtree node = node :: (unit.kids node).flatMap unit.subtree :=
  h.nodesBelow_eq _

theorem Grounded.subtree_of_children (h : unit.Grounded (.expr id)) {e : Expr} {inner : ExprId}
    (he : unit.expr? id = some e) (hc : e.children = [inner]) :
    unit.subtree (.expr id) = .expr id :: unit.subtree (.expr inner) := by
  rw [h.subtree_eq, kids_expr he, hc]
  simp

theorem Wraps.below_core (h : unit.Wraps id core) : unit.Below (.expr id) (.expr core) := by
  induction h with
  | here => exact .refl
  | paren h _ ih | cast h _ ih =>
    refine .head ?_ ih
    rw [kids_expr h]
    exact List.mem_map_of_mem List.mem_cons_self

/-- Parentheses and casts come before what stands in them, and nothing comes after it. -/
theorem Wraps.subtree_suffix (hg : unit.Grounded (.expr id)) (h : unit.Wraps id core) :
    unit.subtree (.expr core) <:+ unit.subtree (.expr id) := by
  induction h with
  | here => exact List.suffix_refl _
  | paren h _ ih | cast h _ ih =>
    rw [hg.subtree_of_children h rfl]
    exact (ih (hg.operand h List.mem_cons_self)).trans (List.suffix_cons _ _)

/-- The head up to a call without arguments that a variable is declared with, and what comes after
it. -/
theorem headNodes_eq (hg : ∀ e ∈ unit.headInits inits, unit.Grounded (.expr e)) {init : ExprId}
    {before after : List ExprId} (hsplit : unit.headInits inits = before ++ init :: after)
    (hw : unit.Wraps init call) (hcall : unit.GivesIterator store call receiver []) :
    ∃ earlier, unit.headNodes inits = earlier ++ .expr call ::
      (unit.subtree (.expr receiver) ++ after.flatMap fun e => unit.subtree (.expr e)) := by
  have hinit := hg init (by simp [hsplit])
  obtain ⟨outer, houter⟩ := hw.subtree_suffix hinit
  have hsubtree : unit.subtree (.expr call) = .expr call :: unit.subtree (.expr receiver) := by
    obtain ⟨hexpr, -, -⟩ := hcall
    exact (hinit.below hw.below_core).subtree_of_children hexpr rfl
  refine ⟨(before.flatMap fun e => unit.subtree (.expr e)) ++ outer, ?_⟩
  rw [headNodes, hsplit, List.flatMap_append, List.flatMap_cons, ← houter, hsubtree]
  simp

theorem makesNone_iff {after : List ExprId} (hreceiver : unit.Grounded (.expr receiver))
    (hafter : ∀ e ∈ after, unit.Grounded (.expr e)) :
    (∀ n ∈ unit.subtree (.expr receiver) ++ after.flatMap fun e => unit.subtree (.expr e),
      ¬ unit.MakesIterator store n) ↔
      unit.MakesNone store receiver ∧ ∀ e ∈ after, unit.MakesNone store e := by
  constructor
  · intro h
    refine ⟨fun n hn => ?_, fun e he n hn => ?_⟩
    · exact h n (List.mem_append_left _ (hreceiver.mem_subtree.2 hn))
    · exact h n (List.mem_append_right _
        (List.mem_flatMap.2 ⟨e, he, (hafter e he).mem_subtree.2 hn⟩))
  · rintro ⟨hinner, hlater⟩ n hn
    rcases List.mem_append.1 hn with hn | hn
    · exact hinner n (hreceiver.mem_subtree.1 hn)
    · obtain ⟨e, he, hn⟩ := List.mem_flatMap.1 hn
      exact hlater e he n ((hafter e he).mem_subtree.1 hn)

/-- Where a member stands for the last time. -/
theorem after_eq_of_not_mem {α : Type} {x : α} {before after before' after' : List α}
    (h : before ++ x :: after = before' ++ x :: after') (hafter : x ∉ after)
    (hafter' : x ∉ after') : after = after' := by
  rcases List.append_eq_append_iff.1 h with ⟨between, -, h⟩ | ⟨between, -, h⟩ <;>
    cases between <;> simp_all

section

variable (hu : unit.SingleUse) (hg : unit.Grounded (.stmt loop))
  (hloop : unit.stmt? loop = some (.forLoop inits condition updates body))

include hu hg hloop

/-- The call that a variable is declared with does not stand again after its own place in the
head. -/
theorem call_not_mem_after {init : ExprId} {before after : List ExprId}
    (hsplit : unit.headInits inits = before ++ init :: after) (hw : unit.Wraps init call)
    (hcall : unit.GivesIterator store call receiver args) :
    .expr call ∉ unit.subtree (.expr receiver) ++
      after.flatMap fun e => unit.subtree (.expr e) := by
  have hgrounded {e : ExprId} (he : e ∈ unit.headInits inits) : unit.Grounded (.expr e) :=
    grounded_headInit hg hloop he
  have hinit : init ∈ unit.headInits inits := by simp [hsplit]
  have hcallGrounded := (hgrounded hinit).below hw.below_core
  rw [List.mem_append, List.mem_flatMap]
  rintro (hin | ⟨e, he, hin⟩)
  · have hkid := hcall.mem_kids
    exact hcallGrounded.not_below hkid ((hcallGrounded.kid hkid).mem_subtree.1 hin)
  · have hmem : e ∈ unit.headInits inits := by simp [hsplit, he]
    obtain rfl := headInits_apart hu hg hloop hmem hinit
      ((hgrounded hmem).mem_subtree.1 hin) hw.below_core
    have hnodup := headInits_nodup hu hloop
    rw [hsplit] at hnodup
    exact (List.nodup_cons.1 (List.nodup_append.1 hnodup).2.1).1 he

/-- The iterator is created from the recorded iterable exactly if nothing after its creation makes
another iterator. -/
theorem createdFrom_iff {iterator : VarId} {iterable : ExprId} {source : Option IterableSource}
    (h : unit.iterableIn? store inits = some (iterable, source)) :
    unit.CreatedFrom store inits iterator iterable ↔ unit.CreatedLast store inits iterator := by
  have hgrounded : ∀ e ∈ unit.headInits inits, unit.Grounded (.expr e) :=
    fun e he => grounded_headInit hg hloop he
  have hafter {init call receiver : ExprId} {before after : List ExprId}
      (hsplit : unit.headInits inits = before ++ init :: after) (hw : unit.Wraps init call)
      (hcall : unit.GivesIterator store call receiver []) :
      (∀ n ∈ unit.subtree (.expr receiver) ++ after.flatMap fun e => unit.subtree (.expr e),
        ¬ unit.MakesIterator store n) ↔
        unit.MakesNone store receiver ∧ ∀ e ∈ after, unit.MakesNone store e := by
    have hinit := hgrounded init (by simp [hsplit])
    exact makesNone_iff ((hinit.below hw.below_core).kid hcall.mem_kids)
      fun e he => hgrounded e (by simp [hsplit, he])
  constructor
  · rintro ⟨f, hf, hb, init, call, hinit, hw, hcall⟩
    obtain ⟨start, last, rest, args, hnodes, hlast, hover, hrest⟩ :=
      iterableIn?_eq_some_iff.1 ⟨source, h⟩
    -- Both calls have the iterable as a part, so they are the same.
    obtain rfl : last = call := Node.expr.inj (hu.parent_unique hlast.mem_kids hcall.mem_kids)
    obtain ⟨before, after, hsplit⟩ :=
      List.append_of_mem (List.mem_filterMap.2 ⟨f, hf, hinit⟩ : init ∈ unit.headInits inits)
    obtain ⟨start', hnodes'⟩ := headNodes_eq hgrounded hsplit hw hcall
    have hnot : .expr last ∉ rest :=
      fun hin => hrest _ hin ⟨last, iterable, args, rfl, hlast, hover⟩
    obtain rfl := after_eq_of_not_mem (hnodes.symm.trans hnodes') hnot
      (call_not_mem_after hu hg hloop hsplit hw hcall)
    obtain ⟨hinner, hlater⟩ := (hafter hsplit hw hcall).1 hrest
    exact ⟨f, hf, hb, init, last, iterable, hinit, hw, hcall, hover, hinner, before, after, hsplit,
      hlater⟩
  · rintro ⟨f, hf, hb, init, call, receiver, hinit, hw, hcall, hover, hinner, before, after, hsplit,
      hlater⟩
    refine ⟨f, hf, hb, init, call, hinit, hw, ?_⟩
    obtain ⟨start, hnodes⟩ := headNodes_eq hgrounded hsplit hw hcall
    obtain ⟨found, hfound⟩ := iterableIn?_eq_some_iff.2 ⟨start, call, _, [], hnodes, hcall, hover,
      (hafter hsplit hw hcall).2 ⟨hinner, hlater⟩⟩
    obtain ⟨rfl, -⟩ := Prod.mk.inj (Option.some.inj (h.symm.trans hfound))
    exact hcall

end

end CompilationUnit

open CompilationUnit

/-- For every accepted loop: the recorded iterable is the receiver of the last call in the text of
the head that makes an iterator from an iterable. Where no node is used twice and the loop is finite
and known, the iterator is created from that iterable, by a call without arguments, exactly if no
call after its creation makes another iterator. -/
theorem Classification.iterable_of_iterator {c : Classification} {unit : CompilationUnit}
    (store : TypeStore) (options : ClassifyOptions) (loop : StmtId) {body : StmtId}
    {inits updates : List ExprId} {condition : Option ExprId}
    (hclass : unit.classify store options loop = .ok (.ok c))
    (hloop : unit.stmt? loop = some (.forLoop inits condition updates body)) :
    (∃ before call after args, unit.headNodes inits = before ++ .expr call :: after ∧
      unit.GivesIterator store call c.iterableExpr args ∧ unit.IsOver store c.iterableExpr ∧
      ∀ later ∈ after, ¬ unit.MakesIterator store later) ∧
    (unit.SingleUse → unit.Grounded (.stmt loop) →
      (unit.CreatedFrom store inits c.iterator c.iterableExpr ↔
        unit.CreatedLast store inits c.iterator)) := by
  obtain ⟨rfl, hacc⟩ := accepts_of_classify_loop hclass hloop
  refine ⟨iterableIn?_eq_some_iff.1 ⟨some c.iterable, hacc.iterable⟩, fun hu hg => ?_⟩
  exact createdFrom_iff hu hg hloop hacc.iterable

namespace Strings

theorem grounded_loop : unit.Grounded (.stmt ⟨3⟩) := singleUse.grounded complete rooted_loop

/-- The head of the method makes one iterator, and that is the one it declares. -/
theorem iterator_created_from_parameter : ∃ c,
    unit.classify store ⟨true, ⟨17⟩⟩ ⟨3⟩ = .ok (.ok c) ∧
      unit.CreatedFrom store [⟨2⟩] c.iterator c.iterableExpr := by
  refine ⟨_, rfl, ?_⟩
  refine ((Classification.iterable_of_iterator store ⟨true, ⟨17⟩⟩ ⟨3⟩ rfl rfl).2 singleUse
    grounded_loop).2 ?_
  have hnone : unit.MakesNone store ⟨0⟩ := by
    intro n hn hmakes
    have hsubtree : unit.subtree (.expr ⟨0⟩) = [.expr ⟨0⟩] := by decide
    have hinit : ⟨1⟩ ∈ unit.headInits [⟨2⟩] := by decide
    have hreceiver : unit.Grounded (.expr ⟨0⟩) :=
      (grounded_headInit grounded_loop rfl hinit).kid (by decide)
    obtain rfl : n = .expr ⟨0⟩ := by simpa [hsubtree] using hreceiver.mem_subtree.2 hn
    exact iterableAt?_eq_none.1 (by decide) hmakes
  refine ⟨⟨"it", some ⟨2⟩, some ⟨1⟩⟩, by decide, rfl, ⟨1⟩, ⟨1⟩, ⟨0⟩, rfl, .here,
    ⟨rfl, rfl, by decide⟩, ⟨_, _, rfl, rfl⟩, hnone, [], [], rfl, by simp⟩

/-- The store with a second parameter `ys`, and a method that makes an iterable from an iterator. -/
def twoLists : TypeStore :=
  { store with
    methods := store.methods.push ⟨"from", ⟨3⟩, some ⟨3⟩⟩
    vars := store.vars.push ⟨"ys", some ⟨3⟩, .parameter⟩ }

/-- A method with the head `for (Iterator<String> it = xs.from(ys.iterator()).iterator();
it.hasNext();)` and the body `String s = it.next(); use(s);`. -/
def nestedCalls : CompilationUnit :=
  { unit with
    types := [⟨"Main", none, [],
      [⟨"run", none, [twoLists.parameter ⟨0⟩, twoLists.parameter ⟨3⟩], some ⟨4⟩⟩]⟩]
    exprs := #[.name twoLists ⟨0⟩, .name twoLists ⟨3⟩, .call twoLists (some ⟨1⟩) ⟨0⟩ [] none,
      .call twoLists (some ⟨0⟩) ⟨3⟩ [⟨2⟩] none, .call twoLists (some ⟨3⟩) ⟨0⟩ [] none,
      .declare twoLists [(⟨2⟩, some ⟨4⟩)], .name twoLists ⟨2⟩,
      .call twoLists (some ⟨6⟩) ⟨1⟩ [] none, .name twoLists ⟨2⟩,
      .call twoLists (some ⟨8⟩) ⟨2⟩ [] none, .name twoLists ⟨1⟩,
      .unresolvedCall none "use" [⟨10⟩]]
    stmts := #[.declare (twoLists.declaration [(⟨1⟩, some ⟨9⟩)]), .eval ⟨11⟩, .block [⟨0⟩, ⟨1⟩],
      .forLoop [⟨5⟩] (some ⟨7⟩) [] ⟨2⟩, .block [⟨3⟩]] }

/-- The iterator is created from `xs.from(ys.iterator())`, but the recorded iterable is `ys`. -/
theorem inner_receiver_recorded : nestedCalls.SingleUse ∧ ∃ c,
    nestedCalls.classify twoLists ⟨true, ⟨17⟩⟩ ⟨3⟩ = .ok (.ok c) ∧ c.iterableExpr = ⟨1⟩ ∧
      nestedCalls.CreatedFrom twoLists [⟨5⟩] c.iterator ⟨3⟩ ∧
      ¬ nestedCalls.CreatedFrom twoLists [⟨5⟩] c.iterator c.iterableExpr := by
  refine ⟨by decide, _, rfl, by decide, ?_, ?_⟩
  · exact ⟨⟨"it", some ⟨2⟩, some ⟨4⟩⟩, by decide, rfl, ⟨4⟩, ⟨4⟩, rfl, .here, ⟨rfl, rfl, by decide⟩⟩
  · rintro ⟨f, hf, -, init, call, hinit, hw, hcall⟩
    obtain rfl : f = ⟨"it", some ⟨2⟩, some ⟨4⟩⟩ := List.mem_singleton.1 hf
    obtain rfl : ⟨4⟩ = init := Option.some.inj hinit
    have hexpr : nestedCalls.expr? ⟨4⟩ = some (.call (some ⟨3⟩) "iterator" [] (some ⟨0⟩)) := rfl
    cases hw with
    | here =>
      obtain ⟨h, -, -⟩ := hcall
      cases hexpr.symm.trans h
    | paren h _ => cases hexpr.symm.trans h
    | cast h _ => cases hexpr.symm.trans h

end Strings
end EnhancedFor
