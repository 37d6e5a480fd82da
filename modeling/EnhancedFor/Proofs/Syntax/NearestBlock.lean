import EnhancedFor.Proofs.Syntax.Scopes

/-!
Names after a statement, found by the offset at which it ends in the text. Main statement: they are
those that the rest of the nearest block declares, also where statements without braces end at the
same offset.
-/

namespace EnhancedFor
namespace CompilationUnit

variable {unit : CompilationUnit} {id kid s : StmtId} {before after : List StmtId}

/-- The offset is strictly inside the statement. -/
def surrounds (unit : CompilationUnit) (offset : Nat) : Node → Bool
  | .stmt id =>
    decide ((unit.stmtSpan id).start < offset) && decide (offset < (unit.stmtSpan id).stop)
  | .expr _ => false

/-- The node itself if it is a block around the offset. -/
def blockAround? (unit : CompilationUnit) (offset : Nat) : Node → Option StmtId
  | .stmt id =>
    if unit.surrounds offset (.stmt id) && (unit.stmt? id).any Stmt.isBlock then some id else none
  | .expr _ => none

/-- The blocks that a walk meets which goes on inside statements around the offset. -/
def blocksAround (unit : CompilationUnit) (offset : Nat) (node : Node) : List StmtId :=
  (unit.nodesBelow node (unit.surrounds offset)).filterMap (unit.blockAround? offset)

theorem innermostBlock?_eq (body : StmtId) (offset : Nat) : unit.innermostBlock? body offset =
    if (unit.stmtSpan body).start < offset && offset ≤ (unit.stmtSpan body).stop then
      (unit.blocksAround offset (.stmt body)).getLast? else none := rfl

def IsBlock (unit : CompilationUnit) (id : StmtId) : Prop :=
  ∃ statements, unit.stmt? id = some (.block statements)

theorem any_isBlock_iff : (unit.stmt? id).any Stmt.isBlock = true ↔ unit.IsBlock id := by
  rw [IsBlock]
  cases unit.stmt? id with
  | none => simp
  | some stmt => cases stmt <;> simp [Stmt.isBlock]

theorem surrounds_eq_false {node : Node} {offset : Nat}
    (h : (unit.nodeSpan node).stop ≤ offset ∨ offset ≤ (unit.nodeSpan node).start) :
    unit.surrounds offset node = false := by
  cases node with
  | expr e => rfl
  | stmt id =>
    simp only [nodeSpan] at h
    simp only [surrounds, Bool.and_eq_false_iff, decide_eq_false_iff_not]
    omega

theorem blockAround?_eq_none {node : Node} {offset : Nat} (h : unit.surrounds offset node = false) :
    unit.blockAround? offset node = none := by
  cases node with
  | expr e => rfl
  | stmt id => simp [blockAround?, h]

theorem Grounded.blocksAround_eq {node : Node} (h : unit.Grounded node) (offset : Nat) :
    unit.blocksAround offset node = (unit.blockAround? offset node).toList ++
      if unit.surrounds offset node then (unit.kids node).flatMap (unit.blocksAround offset)
      else [] := by
  rw [blocksAround, h.nodesBelow_eq, List.filterMap_cons]
  have hrest : (if unit.surrounds offset node then (unit.kids node).flatMap
        (unit.nodesBelow · (unit.surrounds offset)) else []).filterMap (unit.blockAround? offset) =
      if unit.surrounds offset node then (unit.kids node).flatMap (unit.blocksAround offset)
      else [] := by
    split
    · exact List.filterMap_flatMap
    · rfl
  rw [hrest]
  cases unit.blockAround? offset node <;> rfl

theorem Grounded.blocksAround_eq_nil {node : Node} {offset : Nat} (h : unit.Grounded node)
    (hout : unit.surrounds offset node = false) : unit.blocksAround offset node = [] := by
  rw [h.blocksAround_eq, blockAround?_eq_none hout, hout]
  rfl

/-- A block, and the statement of it that is `s` or has it inside, with no block between the two. -/
structure NearestBlock (unit : CompilationUnit) (s block : StmtId) (before : List StmtId)
    (a : StmtId) (after : List StmtId) : Prop where
  block : unit.stmt? block = some (.block (before ++ a :: after))
  inside : unit.Below (.stmt a) (.stmt s)
  nearest : ∀ c, unit.Below (.stmt a) (.stmt c) → unit.Below (.stmt c) (.stmt s) → c ≠ s →
    ¬ unit.IsBlock c

theorem NearestBlock.mem_kids {block a : StmtId} (hn : unit.NearestBlock s block before a after) :
    .stmt a ∈ unit.kids (.stmt block) := by
  rw [kids_stmt hn.block, Stmt.children]
  exact List.mem_map_of_mem (by simp)

namespace Tidy

variable (ht : unit.Tidy)

include ht

/-- The walk goes on in the part with the statement only. -/
theorem blocksAround_step (hr : unit.Rooted (.stmt id)) (hkid : .stmt kid ∈ unit.kids (.stmt id))
    (hb : unit.Below (.stmt kid) (.stmt s)) :
    unit.blocksAround (unit.stmtSpan s).stop (.stmt id) =
      (unit.blockAround? (unit.stmtSpan s).stop (.stmt id)).toList ++
        if unit.surrounds (unit.stmtSpan s).stop (.stmt id) then
          unit.blocksAround (unit.stmtSpan s).stop (.stmt kid) else [] := by
  have hnested := ht.nested hr hkid hb
  have hpairwise := (ht.arranged _ hr).kids.pairwise
  obtain ⟨left, right, hkids⟩ := List.append_of_mem hkid
  rw [hkids] at hpairwise
  obtain ⟨-, hright, hleft⟩ := List.pairwise_append.1 hpairwise
  have hground (n : Node) (hn : n ∈ unit.kids (.stmt id)) : unit.Grounded n :=
    ht.grounded (hr.kid hn)
  have hbefore : left.flatMap (unit.blocksAround (unit.stmtSpan s).stop) = [] := by
    refine List.flatMap_eq_nil_iff.2 fun n hn => ?_
    have hstop : (unit.nodeSpan n).stop ≤ (unit.stmtSpan kid).start :=
      hleft n hn _ List.mem_cons_self
    exact (hground n (by simp [hkids, hn])).blocksAround_eq_nil
      (surrounds_eq_false (.inl (by omega)))
  have hafter : right.flatMap (unit.blocksAround (unit.stmtSpan s).stop) = [] := by
    refine List.flatMap_eq_nil_iff.2 fun n hn => ?_
    have hstart : (unit.stmtSpan kid).stop ≤ (unit.nodeSpan n).start :=
      (List.pairwise_cons.1 hright).1 n hn
    exact (hground n (by simp [hkids, hn])).blocksAround_eq_nil
      (surrounds_eq_false (.inr (by omega)))
  rw [(ht.grounded hr).blocksAround_eq, hkids, List.flatMap_append, List.flatMap_cons, hbefore,
    hafter, List.nil_append, List.append_nil]

theorem blocksAround_self (hr : unit.Rooted (.stmt s)) :
    unit.blocksAround (unit.stmtSpan s).stop (.stmt s) = [] :=
  (ht.grounded hr).blocksAround_eq_nil (surrounds_eq_false (.inl (Nat.le_refl _)))

theorem blocksAround_of_not_isBlock (hb : unit.Below (.stmt id) (.stmt s)) :
    unit.Rooted (.stmt id) →
    (∀ c, unit.Below (.stmt id) (.stmt c) → unit.Below (.stmt c) (.stmt s) → c ≠ s →
      ¬ unit.IsBlock c) →
    unit.blocksAround (unit.stmtSpan s).stop (.stmt id) = [] := by
  induction hb using Below.rec_stmt with
  | self => exact fun hr _ => ht.blocksAround_self hr
  | step id kid hkid hb ih =>
    intro hr hno
    have hne : id ≠ s := by
      rintro rfl
      exact (ht.grounded hr).not_below hkid hb
    have hnone : unit.blockAround? (unit.stmtSpan s).stop (.stmt id) = none := by
      have hblock := mt any_isBlock_iff.1 (hno id .refl (.head hkid hb) hne)
      rw [Bool.not_eq_true] at hblock
      simp [blockAround?, hblock]
    rw [ht.blocksAround_step hr hkid hb, hnone, ih (hr.kid hkid) fun c hc => hno c (.head hkid hc)]
    exact ite_self _

/-- Of the blocks around the end of a statement, the nearest one comes last. -/
theorem getLast?_blocksAround {block a : StmtId} (hn : unit.NearestBlock s block before a after)
    (hb : unit.Below (.stmt id) (.stmt block)) :
    unit.Rooted (.stmt id) →
    (unit.blocksAround (unit.stmtSpan s).stop (.stmt id)).getLast? = some block := by
  -- The brace that closes the block is after the end of `s`; what stands between the two may end
  -- with `s`.
  have hsurrounds (c : StmtId) (hr : unit.Rooted (.stmt c))
      (hc : unit.Below (.stmt c) (.stmt block)) :
      unit.surrounds (unit.stmtSpan s).stop (.stmt c) = true := by
    have hclose := (ht.arranged _ (hr.below hc)).closes block _ rfl hn.block a (by simp)
    have hnested := ht.nested (hr.below hc) hn.mem_kids hn.inside
    have hspan := stmtSpan_below ht.arranged hr hc
    simp only [surrounds, Bool.and_eq_true, decide_eq_true_eq]
    omega
  induction hb using Below.rec_stmt with
  | self =>
    intro hr
    have hhere : unit.blockAround? (unit.stmtSpan s).stop (.stmt block) = some block := by
      simp [blockAround?, hsurrounds block hr .refl, any_isBlock_iff.2 ⟨_, hn.block⟩]
    rw [ht.blocksAround_step hr hn.mem_kids hn.inside, hhere,
      ht.blocksAround_of_not_isBlock hn.inside (hr.kid hn.mem_kids) hn.nearest, ite_self]
    rfl
  | step id next hnext hb ih =>
    intro hr
    have hs : unit.Below (.stmt next) (.stmt s) := hb.trans (.head hn.mem_kids hn.inside)
    rw [ht.blocksAround_step hr hnext hs, if_pos (hsurrounds id hr (.head hnext hb)),
      List.getLast?_append, ih (hr.kid hnext)]
    rfl

/-- The statements of the nearest block that start after the end of the statement. -/
theorem filter_later {block a : StmtId} (hn : unit.NearestBlock s block before a after)
    (hr : unit.Rooted (.stmt block)) :
    (before ++ a :: after).filter
      (fun l => decide ((unit.stmtSpan s).stop ≤ (unit.stmtSpan l).start)) = after := by
  have hnested := ht.nested hr hn.mem_kids hn.inside
  obtain ⟨hbefore, hafter⟩ := ht.block_order hr hn.block
  have hpast : before.filter (fun l => decide ((unit.stmtSpan s).stop ≤ (unit.stmtSpan l).start)) =
      [] := by
    refine List.filter_eq_nil_iff.2 fun l hl => ?_
    have hstop := hbefore l hl
    have hmem : .stmt l ∈ unit.kids (.stmt block) := by simp [kids_stmt hn.block, Stmt.children, hl]
    have hnonempty := (ht.arranged _ (hr.kid hmem)).nonempty l rfl
    rw [decide_eq_true_eq]
    omega
  have hlater : after.filter (fun l => decide ((unit.stmtSpan s).stop ≤ (unit.stmtSpan l).start)) =
      after := by
    refine List.filter_eq_self.2 fun l hl => ?_
    have hstart := hafter l hl
    rw [decide_eq_true_eq]
    omega
  have hout : ¬ (unit.stmtSpan s).stop ≤ (unit.stmtSpan a).start := by omega
  rw [List.filter_append, hpast, List.filter_cons_of_neg (by simpa using hout), hlater,
    List.nil_append]

end Tidy

section Method

variable {t i : Nat} {decl : TypeDecl} {m : Method} {body : StmtId}
  (hdecl : unit.types[t]? = some decl) (hm : decl.methods[i]? = some m) (hbody : m.body = some body)
  (hs : unit.Below (.stmt body) (.stmt s))

include hdecl hm hbody hs

theorem Tidy.innermostBlock?_stop (ht : unit.Tidy) :
    (unit.enclosingBody? (unit.stmtSpan s).stop).bind
        (fun body => unit.innermostBlock? body (unit.stmtSpan s).stop) =
      (unit.blocksAround (unit.stmtSpan s).stop (.stmt body)).getLast? := by
  have hspan := stmtSpan_below ht.arranged (rooted_methodBody hdecl hm hbody) hs
  have hin : (decide ((unit.stmtSpan body).start < (unit.stmtSpan s).stop) &&
      decide ((unit.stmtSpan s).stop ≤ (unit.stmtSpan body).stop)) = true := by
    simp only [Bool.and_eq_true, decide_eq_true_eq]
    omega
  rw [ht.framed.enclosingBody?_eq (List.mk_mem_zipIdx_iff_getElem?.2 hdecl)
    (List.mk_mem_zipIdx_iff_getElem?.2 hm) (ht.touches_method hdecl hm hbody hs).2 hbody,
    Option.bind_some, innermostBlock?_eq, if_pos hin]

/-- The names found after a statement are those that the rest of the nearest block declares. -/
theorem declarationsAfter_stop {draft : CompilationUnit} (hprint : draft.reprint = .ok unit)
    (hu : unit.SingleUse) :
    (∀ block before a after, unit.NearestBlock s block before a after →
      unit.declarationsAfter (unit.stmtSpan s).stop =
        (after.flatMap fun l => unit.subtree (.stmt l)).flatMap unit.namesDeclaredAt) ∧
    ((∀ c, unit.Below (.stmt c) (.stmt s) → c ≠ s → ¬ unit.IsBlock c) →
      unit.declarationsAfter (unit.stmtSpan s).stop = []) := by
  have ht := tidy_of_reprint hprint hu
  have hr := rooted_methodBody hdecl hm hbody
  rw [declarationsAfter, ht.innermostBlock?_stop hdecl hm hbody hs]
  constructor
  · intro block before a after hn
    have hblock := ht.body_above hdecl hm hbody hs (.head hn.mem_kids hn.inside)
    simp only [ht.getLast?_blocksAround hn hblock hr, hn.block,
      ht.filter_later hn (hr.below hblock)]
  · intro hno
    rw [ht.blocksAround_of_not_isBlock hs hr fun c _ => hno c]
    rfl

end Method

end CompilationUnit

namespace Braceless

/-- The block around the call is that of the method: the statements between end where the call
does. -/
theorem nearestBlock_body :
    unit.print.NearestBlock ⟨1⟩ ⟨8⟩ [⟨0⟩] ⟨4⟩ [⟨5⟩, ⟨7⟩] := by
  refine ⟨rfl, below_loop, fun c hc _ _ hblock => ?_⟩
  have hr : unit.print.Rooted (.stmt ⟨4⟩) := ⟨.stmt ⟨8⟩, by decide, .single (by decide)⟩
  have ht := CompilationUnit.tidy_of_reprint reprint_unit singleUse_print
  have hmem := (ht.grounded hr).mem_subtree.2 hc
  have hnone : ∀ i < 9, Node.stmt ⟨i⟩ ∈ unit.print.subtree (.stmt ⟨4⟩) →
      (unit.print.stmt? ⟨i⟩).any Stmt.isBlock = false := by decide
  by_cases hlt : c.index < 9
  · have hnot := hnone c.index hlt hmem
    rw [CompilationUnit.any_isBlock_iff.2 hblock] at hnot
    contradiction
  · obtain ⟨statements, hstmt⟩ := hblock
    exact hlt (Array.getElem?_eq_some_iff.1 hstmt).1

/-- What follows the call is the later local and the element of the second loop. -/
theorem later_names_found :
    unit.print.declarationsAfter (unit.print.stmtSpan ⟨1⟩).stop = ["z", "y"] ∧
      unit.print.declarationsAfter (unit.print.stmtSpan ⟨8⟩).stop = [] := by
  have hafter := CompilationUnit.declarationsAfter_stop (t := 0) (i := 0) rfl rfl rfl below_body
    reprint_unit singleUse_print
  have hself := CompilationUnit.declarationsAfter_stop (t := 0) (i := 0) rfl rfl rfl .refl
    reprint_unit singleUse_print
  refine ⟨hafter.1 _ _ _ _ nearestBlock_body, hself.2 fun c hc hne => ?_⟩
  exact (hne (Node.stmt.inj (singleUse_print.eq_of_below_root (by decide) hc))).elim

end Braceless
end EnhancedFor
