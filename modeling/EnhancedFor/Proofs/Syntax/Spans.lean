import EnhancedFor.Proofs.Syntax.UnitPrinting

/-!
Where the nodes of a printed unit stand. The parts of a node lie within its span, one after the
other, and the text of a statement keeps the statements in it away from its ends. Main statement:
this holds for every node of the trees of a unit that was printed.
-/

namespace EnhancedFor

namespace Layout

variable {l : Layout}

/-- The layout starts with characters that stand in no node of it. -/
def opens : Layout → Bool
  | .text s => s != ""
  | .append a _ => a.opens
  | .mark m inner => !m.isKey && inner.opens

/-- The layout ends with such characters. -/
def closes : Layout → Bool
  | .text s => s != ""
  | .append _ b => b.closes
  | .mark m inner => !m.isKey && inner.closes

@[simp] theorem opens_text (s : String) : (text s).opens = (s != "") := rfl

@[simp] theorem opens_append (a b : Layout) : (a ++ b).opens = a.opens := rfl

@[simp] theorem closes_text (s : String) : (text s).closes = (s != "") := rfl

@[simp] theorem closes_append (a b : Layout) : (a ++ b).closes = b.closes := rfl

theorem byteLength_text_pos {s : String} (h : (s != "") = true) :
    0 < (text s).chars.byteLength := by
  apply Chars.byteLength_pos
  simpa using h

theorem byteLength_pos_of_opens (h : l.opens = true) : 0 < l.chars.byteLength := by
  induction l with
  | text s => exact byteLength_text_pos h
  | append a b iha _ =>
    have := iha h
    rw [chars, Chars.byteLength_append]
    omega
  | mark m inner ih => exact ih (Bool.and_eq_true_iff.1 h).2

theorem byteLength_pos_of_closes (h : l.closes = true) : 0 < l.chars.byteLength := by
  induction l with
  | text s => exact byteLength_text_pos h
  | append a b _ ihb =>
    have := ihb h
    rw [chars, Chars.byteLength_append]
    omega
  | mark m inner ih => exact ih (Bool.and_eq_true_iff.1 h).2

end Layout

namespace CompilationUnit

open Layout (Compositional)

variable {unit : CompilationUnit} {node : Node} {before : Chars} {nodes : List Node} {lo hi : Nat}

theorem Grounded.exists_mark (h : unit.Grounded node) (level : Nat) :
    ∃ a, unit.nodeLayout level node = .mark node.mark a := by
  cases node with
  | expr id =>
    obtain ⟨e, he⟩ := h.exists_expr
    exact ⟨_, h.exprLayout_eq he⟩
  | stmt id =>
    obtain ⟨s, hs⟩ := h.exists_stmt
    exact ⟨_, h.stmtLayout_eq hs⟩

/-- A statement is never written as nothing. -/
theorem Grounded.stmtLayout_ne_nil {id : StmtId} (h : unit.Grounded (.stmt id)) (level : Nat) :
    (unit.stmtLayout level id).chars ≠ [] := by
  obtain ⟨s, hs⟩ := h.exists_stmt
  rw [h.stmtLayout_eq hs]
  cases s <;> simp [stmtShape, lineLayout, countedHead]

theorem Shows.span_mark {a : Layout} (hs : unit.Shows before (.mark node.mark a)) :
    unit.nodeSpan node = ⟨before.byteLength, before.byteLength + a.chars.byteLength⟩ := by
  have hspan := hs.span node.isKey_mark
  cases node <;> exact hspan

/-- The nodes stand between two offsets, each before the next one. -/
inductive InOrder (unit : CompilationUnit) : Nat → List Node → Nat → Prop where
  | nil {lo hi : Nat} (h : lo ≤ hi) : InOrder unit lo [] hi
  | cons {lo hi : Nat} {node : Node} {nodes : List Node} (hlo : lo ≤ (unit.nodeSpan node).start)
    (hspan : (unit.nodeSpan node).start ≤ (unit.nodeSpan node).stop)
    (hrest : InOrder unit (unit.nodeSpan node).stop nodes hi) : InOrder unit lo (node :: nodes) hi

namespace InOrder

theorem le (h : unit.InOrder lo nodes hi) : lo ≤ hi := by
  induction h with
  | nil h => exact h
  | cons hlo hspan _ ih => omega

theorem mono {lo' hi' : Nat} (h : unit.InOrder lo nodes hi) (hlo : lo' ≤ lo) (hhi : hi ≤ hi') :
    unit.InOrder lo' nodes hi' := by
  induction h generalizing lo' with
  | nil h => exact .nil (by omega)
  | cons hstart hspan _ ih => exact .cons (by omega) hspan (ih (Nat.le_refl _) hhi)

theorem append {mid : Nat} {rest : List Node} (h : unit.InOrder lo nodes mid)
    (h' : unit.InOrder mid rest hi) : unit.InOrder lo (nodes ++ rest) hi := by
  induction h with
  | nil h => exact h'.mono h (Nat.le_refl _)
  | cons hlo hspan _ ih => exact .cons hlo hspan (ih h')

theorem bounds (h : unit.InOrder lo nodes hi) (hn : node ∈ nodes) :
    lo ≤ (unit.nodeSpan node).start ∧ (unit.nodeSpan node).start ≤ (unit.nodeSpan node).stop ∧
      (unit.nodeSpan node).stop ≤ hi := by
  induction h with
  | nil => exact (List.not_mem_nil hn).elim
  | cons hlo hspan hrest ih =>
    rcases List.mem_cons.1 hn with rfl | hn
    · exact ⟨hlo, hspan, hrest.le⟩
    · obtain ⟨hstart, hin⟩ := ih hn
      exact ⟨by omega, hin⟩

theorem pairwise (h : unit.InOrder lo nodes hi) :
    nodes.Pairwise fun a b => (unit.nodeSpan a).stop ≤ (unit.nodeSpan b).start := by
  induction h with
  | nil => exact .nil
  | cons _ _ hrest ih => exact .cons (fun b hb => (hrest.bounds hb).1) ih

end InOrder

/-- A layout that stands after `before` has the nodes in order, and its own characters at either end
keep them away from that end. -/
structure Encloses (unit : CompilationUnit) (before : Chars) (a : Layout) (nodes : List Node) :
    Prop where
  inOrder : unit.InOrder before.byteLength nodes (before.byteLength + a.chars.byteLength)
  opens : a.opens = true → ∀ n ∈ nodes, before.byteLength < (unit.nodeSpan n).start
  closes : a.closes = true → ∀ n ∈ nodes,
    (unit.nodeSpan n).stop < before.byteLength + a.chars.byteLength

theorem Encloses.append {a b : Layout} {rest : List Node} (ha : unit.Encloses before a nodes)
    (hb : unit.Encloses (before ++ a.chars) b rest) :
    unit.Encloses before (a ++ b) (nodes ++ rest) := by
  obtain ⟨hfirst, hopens, hcloses⟩ := ha
  obtain ⟨hsecond, hopens', hcloses'⟩ := hb
  rw [Chars.byteLength_append] at hsecond hopens' hcloses'
  rw [Nat.add_assoc] at hsecond
  constructor
  · rw [Layout.chars_append, Chars.byteLength_append]
    exact hfirst.append hsecond
  · intro h n hn
    rcases List.mem_append.1 hn with hn | hn
    · exact hopens h n hn
    · have hpos := Layout.byteLength_pos_of_opens (l := a) h
      have := (hsecond.bounds hn).1
      omega
  · intro h n hn
    rw [Layout.chars_append, Chars.byteLength_append]
    rcases List.mem_append.1 hn with hn | hn
    · have hpos := Layout.byteLength_pos_of_closes (l := b) h
      have := (hfirst.bounds hn).2.2
      omega
    · have := hcloses' h n hn
      omega

/-- The parts of a node stand in its span, and statements are written with characters of their own
before the statements in them; those of a block are also followed by such. -/
structure Arranged (unit : CompilationUnit) (node : Node) : Prop where
  kids : unit.InOrder (unit.nodeSpan node).start (unit.kids node) (unit.nodeSpan node).stop
  nonempty : ∀ id, node = .stmt id → (unit.stmtSpan id).start < (unit.stmtSpan id).stop
  opens : ∀ id kid, node = .stmt id → .stmt kid ∈ unit.kids node →
    (unit.stmtSpan id).start < (unit.stmtSpan kid).start
  closes : ∀ id statements, node = .stmt id → unit.stmt? id = some (.block statements) →
    ∀ kid ∈ statements, (unit.stmtSpan kid).stop < (unit.stmtSpan id).stop

theorem compositional_encloses (unit : CompilationUnit) : Compositional fun a ns _ =>
    ∀ before, unit.Shows before a → unit.Encloses before a ns ∧ ∀ n ∈ ns, unit.Arranged n where
  text s before _ := by
    refine ⟨⟨.nil (Nat.le_add_right _ _), ?_, ?_⟩, ?_⟩ <;> simp
  append ha hb before hs := by
    obtain ⟨hfirst, harranged⟩ := ha before hs.left
    obtain ⟨hsecond, harranged'⟩ := hb _ hs.right
    refine ⟨hfirst.append hsecond, fun n hn => ?_⟩
    rcases List.mem_append.1 hn with hn | hn
    · exact harranged n hn
    · exact harranged' n hn
  mark hm ha before hs := by
    obtain ⟨⟨hinOrder, hopens, hcloses⟩, harranged⟩ := ha before hs.inner
    refine ⟨⟨hinOrder, fun h => hopens ?_, fun h => hcloses ?_⟩, harranged⟩
    · exact (Bool.and_eq_true_iff.1 h).2
    · exact (Bool.and_eq_true_iff.1 h).2

/-- A statement with statements in it starts with characters of its own. -/
theorem stmtShape_opens {expr : ExprId → Layout} {line body : StmtId → Layout} {level : Nat}
    {id kid : StmtId} {s : Stmt} (h : .stmt kid ∈ s.children) :
    (stmtShape expr line body level id s).opens = true := by
  cases s with
  | block | branch | whileLoop | forLoop | forEach => simp [stmtShape, countedHead]
  | declare | eval | ret | empty => simp [Stmt.children] at h

/-- A node is arranged if its layout is shown, and its parts stand in order in the layout. -/
theorem Shows.arranged_mark {level : Nat} {a : Layout} (h : unit.Grounded node)
    (heq : unit.nodeLayout level node = .mark node.mark a)
    (hs : unit.Shows before (.mark node.mark a)) (hkids : unit.Encloses before a (unit.kids node)) :
    unit.Arranged node := by
  have hspan := hs.span_mark
  have hshape {id : StmtId} {s : Stmt} (hid : node = .stmt id) (hstmt : unit.stmt? id = some s) :
      a = stmtShape unit.exprLayout (unit.stmtLine level) (unit.stmtBody level) level id s := by
    subst hid
    exact (Layout.mark.inj (heq.symm.trans (h.stmtLayout_eq hstmt))).2
  constructor
  · rw [hspan]
    exact hkids.inOrder
  · rintro id rfl
    have hne := h.stmtLayout_ne_nil level
    rw [show unit.stmtLayout level id = .mark (.stmt id) a from heq] at hne
    have hpos := Chars.byteLength_pos hne
    rw [show unit.stmtSpan id = _ from hspan]
    exact Nat.lt_add_of_pos_right hpos
  · rintro id kid rfl hkid
    obtain ⟨s, hstmt⟩ := h.exists_stmt
    have hopens : a.opens = true := by
      rw [hshape rfl hstmt]
      exact stmtShape_opens (kids_stmt hstmt ▸ hkid)
    rw [show unit.stmtSpan id = _ from hspan]
    exact hkids.opens hopens (.stmt kid) hkid
  · rintro id statements rfl hstmt kid hkid
    have hcloses : a.closes = true := by
      rw [hshape rfl hstmt]
      simp [stmtShape, lineLayout]
    rw [show unit.stmtSpan id = _ from hspan]
    refine hkids.closes hcloses (.stmt kid) ?_
    rw [kids_stmt hstmt]
    exact List.mem_map_of_mem hkid

theorem Shows.arranged {level : Nat} (h : unit.Grounded node)
    (hs : unit.Shows before (unit.nodeLayout level node)) : unit.Arranged node := by
  have hall := @Grounded.nodeLayout_rel unit node _ (compositional_encloses unit)
    (fun n => [n]) ?_ h level
  · exact (hall before hs).2 node List.mem_cons_self
  · intro level node a h heq hkids before hs
    have hspan := hs.span_mark
    have hinside := (hkids before hs.inner).1
    rw [List.flatMap_singleton'] at hinside
    refine ⟨⟨.cons ?_ ?_ (.nil ?_), ?_, ?_⟩, ?_⟩
    · exact Nat.le_of_eq (congrArg Span.start hspan).symm
    · rw [hspan]
      exact Nat.le_add_right _ _
    · exact Nat.le_of_eq (congrArg Span.stop hspan)
    · simp [Layout.opens]
    · simp [Layout.closes]
    · intro n hn
      obtain rfl := List.mem_singleton.1 hn
      exact hs.arranged_mark h heq hinside

/-- In a unit that was printed, all nodes of the trees are arranged. -/
theorem arranged_of_reprint {draft : CompilationUnit} (hprint : draft.reprint = .ok unit)
    (hu : unit.SingleUse) (hr : unit.Rooted node) : unit.Arranged node := by
  obtain ⟨hc, -, hshows⟩ := shows_of_reprint hprint hu
  obtain ⟨level, before, hs⟩ := hshows.rooted_node hu hc hr
  exact hs.arranged (hu.grounded hc hr)

section Nesting

variable (ha : ∀ node, unit.Rooted node → unit.Arranged node)

include ha

theorem span_below {n : Node} (hr : unit.Rooted node) (hb : unit.Below node n) :
    (unit.nodeSpan node).start ≤ (unit.nodeSpan n).start ∧
      (unit.nodeSpan n).stop ≤ (unit.nodeSpan node).stop := by
  induction hb with
  | refl => exact ⟨Nat.le_refl _, Nat.le_refl _⟩
  | tail hb hkid ih =>
    have hin := (ha _ (hr.below hb)).kids.bounds hkid
    omega

theorem stmtSpan_below {a b : StmtId} (hr : unit.Rooted (.stmt a))
    (hb : unit.Below (.stmt a) (.stmt b)) : (unit.stmtSpan a).start ≤ (unit.stmtSpan b).start ∧
      (unit.stmtSpan b).start < (unit.stmtSpan b).stop ∧
      (unit.stmtSpan b).stop ≤ (unit.stmtSpan a).stop := by
  obtain ⟨hstart, hstop⟩ := span_below ha hr hb
  exact ⟨hstart, (ha _ (hr.below hb)).nonempty b rfl, hstop⟩

end Nesting

end CompilationUnit
end EnhancedFor
