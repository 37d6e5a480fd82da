import Mathlib.Data.List.Perm.Basic
import EnhancedFor.Proofs.Syntax.Shape
import EnhancedFor.Proofs.Syntax.SingleUse

/-!
The layouts of nodes, unfolded along their trees, and the layout of a unit around them. Every node
of the trees of a unit is laid out in it, and a print changes neither.
-/

namespace EnhancedFor
namespace CompilationUnit

open Relation
open Layout (Compositional)

variable {unit : CompilationUnit} {node : Node}

/-- A statement on a line of its own, one level below `level`. -/
def stmtLine (unit : CompilationUnit) (level : Nat) (id : StmtId) : Layout :=
  lineLayout (level + 1) (unit.stmtLayout (level + 1) id)

/-- The body of a statement at `level`. -/
def stmtBody (unit : CompilationUnit) (level : Nat) (id : StmtId) : Layout :=
  if (unit.stmt? id).any Stmt.isBlock then unit.stmtLayout level id else unit.stmtLine level id

theorem HeightWithin.exprLayout_eq {d : Nat} {id : ExprId} (h : unit.HeightWithin d (.expr id)) :
    unit.exprLayoutWithin (d + 1) id = unit.exprLayoutWithin d id := by
  induction d generalizing id with
  | zero => exact h.elim
  | succ d ih =>
    rw [exprLayoutWithin, exprLayoutWithin]
    split
    · rfl
    · rename_i e he
      rw [exprShape_congr id fun c hc => ih (h (.expr c) (kids_expr he ▸ List.mem_map_of_mem hc))]

theorem Grounded.exprLayout_eq {id : ExprId} {e : Expr} (h : unit.Grounded (.expr id))
    (he : unit.expr? id = some e) :
    unit.exprLayout id = .mark (.expr id) (exprShape unit.exprLayout id e) := by
  have hkid (c : ExprId) (hc : c ∈ e.children) :
      unit.exprLayoutWithin unit.size c = unit.exprLayout c :=
    (HeightWithin.exprLayout_eq (h.height (.expr c) (kids_expr he ▸ List.mem_map_of_mem hc))).symm
  rw [exprLayout, depth, exprLayoutWithin, he]
  exact congrArg _ (exprShape_congr id hkid)

theorem HeightWithin.stmtLayout_eq {d level : Nat} {id : StmtId}
    (h : unit.HeightWithin d (.stmt id)) :
    unit.stmtLayoutWithin (d + 1) level id = unit.stmtLayoutWithin d level id := by
  induction d generalizing id level with
  | zero => exact h.elim
  | succ d ih =>
    rw [stmtLayoutWithin, stmtLayoutWithin]
    dsimp only
    split
    · rfl
    · rename_i s hs
      have hkid (level : Nat) (t : StmtId) (ht : .stmt t ∈ s.children) :
          unit.stmtLayoutWithin (d + 1) level t = unit.stmtLayoutWithin d level t :=
        ih (h (.stmt t) (kids_stmt hs ▸ ht))
      refine congrArg _ (stmtShape_congr level id (fun t ht => ?_) fun t ht => ?_)
      · rw [hkid (level + 1) t ht]
      · rw [hkid (level + 1) t ht, hkid level t ht]

theorem Grounded.stmtLayout_eq {level : Nat} {id : StmtId} {s : Stmt}
    (h : unit.Grounded (.stmt id)) (hs : unit.stmt? id = some s) :
    unit.stmtLayout level id = .mark (.stmt id)
      (stmtShape unit.exprLayout (unit.stmtLine level) (unit.stmtBody level) level id s) := by
  have hkid (level : Nat) (t : StmtId) (ht : .stmt t ∈ s.children) :
      unit.stmtLayoutWithin unit.size level t = unit.stmtLayout level t :=
    (HeightWithin.stmtLayout_eq (h.height (.stmt t) (kids_stmt hs ▸ ht))).symm
  rw [stmtLayout, depth, stmtLayoutWithin, hs]
  refine congrArg _ (stmtShape_congr level id (fun t ht => ?_) fun t ht => ?_)
  · rw [hkid (level + 1) t ht, stmtLine]
  · dsimp only
    rw [hkid (level + 1) t ht, hkid level t ht, stmtBody, stmtLine]

/-- The layout of a node; the level matters for statements only. -/
def nodeLayout (unit : CompilationUnit) (level : Nat) : Node → Layout
  | .expr id => unit.exprLayout id
  | .stmt id => unit.stmtLayout level id

theorem Grounded.exists_expr {id : ExprId} (h : unit.Grounded (.expr id)) :
    ∃ e, unit.expr? id = some e := by
  obtain ⟨e, he, -⟩ := Option.map_eq_some_iff.1 h.children
  exact ⟨e, he⟩

theorem Grounded.exists_stmt {id : StmtId} (h : unit.Grounded (.stmt id)) :
    ∃ s, unit.stmt? id = some s := by
  obtain ⟨s, hs, -⟩ := Option.map_eq_some_iff.1 h.children
  exact ⟨s, hs⟩

/-- Induction on the tree of a node along its layout. -/
theorem Grounded.nodeLayout_rel {R : Layout → List Node → Layout → Prop} (hR : Compositional R)
    {nodes : Node → List Node}
    (hmark : ∀ level node a, unit.Grounded node → unit.nodeLayout level node = .mark node.mark a →
      R a ((unit.kids node).flatMap nodes) a →
      R (.mark node.mark a) (nodes node) (.mark node.mark a))
    (h : unit.Grounded node) :
    ∀ level, R (unit.nodeLayout level node) (nodes node) (unit.nodeLayout level node) := by
  induction h using Grounded.rec_kids with
  | step node h ih =>
    intro level
    cases node with
    | expr id =>
      obtain ⟨e, he⟩ := h.exists_expr
      have heq : unit.nodeLayout level (.expr id) = .mark (.expr id) _ := h.exprLayout_eq he
      rw [kids_expr he] at ih
      have hshape := exprShape_rel hR id fun c hc => ih (.expr c) (List.mem_map_of_mem hc) level
      rw [heq]
      refine hmark level (.expr id) _ h heq ?_
      rw [kids_expr he, List.flatMap_map]
      exact hshape
    | stmt id =>
      obtain ⟨s, hs⟩ := h.exists_stmt
      have heq : unit.nodeLayout level (.stmt id) = .mark (.stmt id) _ := h.stmtLayout_eq hs
      rw [kids_stmt hs] at ih
      have hline (t : StmtId) (ht : .stmt t ∈ s.children) :
          R (unit.stmtLine level t) (nodes (.stmt t)) (unit.stmtLine level t) :=
        lineLayout_rel hR (level + 1) (ih (.stmt t) ht (level + 1))
      have hbody (t : StmtId) (ht : .stmt t ∈ s.children) :
          R (unit.stmtBody level t) (nodes (.stmt t)) (unit.stmtBody level t) := by
        unfold stmtBody
        split
        · exact ih (.stmt t) ht level
        · exact hline t ht
      rw [heq]
      refine hmark level (.stmt id) _ h heq ?_
      rw [kids_stmt hs]
      exact stmtShape_rel hR level id (fun e he => ih (.expr e) he level) (fun _ => hline)
        fun _ => hbody

/-- The layouts of the nodes stand in the layouts around them. -/
theorem compositional_part (laid : Node → Layout → Prop) : Compositional fun a ns _ =>
    ∀ n ∈ ns, ∃ l pre, laid n l ∧ l.Part a pre where
  text _ n hn := (List.not_mem_nil hn).elim
  append h h' n hn := by
    rcases List.mem_append.1 hn with hn | hn
    · obtain ⟨l, pre, hl, hp⟩ := h n hn
      exact ⟨l, pre, hl, .left hp⟩
    · obtain ⟨l, pre, hl, hp⟩ := h' n hn
      exact ⟨l, _, hl, .right hp⟩
  mark _ h n hn := by
    obtain ⟨l, pre, hl, hp⟩ := h n hn
    exact ⟨l, pre, hl, .inner hp⟩

/-- A node is laid out within each node above it. -/
theorem Grounded.part_nodeLayout (h : unit.Grounded node) (level : Nat) :
    ∀ n ∈ unit.subtree node, ∃ l pre, (∃ inner, l = unit.nodeLayout inner n) ∧
      l.Part (unit.nodeLayout level node) pre := by
  refine h.nodeLayout_rel (compositional_part _) (fun level node a h heq hkids n hn => ?_) level
  rw [subtree, h.nodesBelow_eq] at hn
  rcases List.mem_cons.1 hn with rfl | hn
  · exact ⟨_, [], ⟨level, heq.symm⟩, .here⟩
  · obtain ⟨l, pre, hl, hp⟩ := hkids n hn
    exact ⟨l, pre, hl, .inner hp⟩

/-- The roots of the unit in the order of the text. -/
def textRoots (unit : CompilationUnit) : List Node := unit.types.flatMap (·.roots)

theorem textRoots_perm : unit.textRoots.Perm unit.roots := by
  have hfields : unit.types.flatMap (fun t => (t.fields.flatMap (·.inits)).map .expr) =
      (unit.fieldFragments.filterMap (·.init)).map Node.expr := by
    rw [fieldFragments, List.filterMap_flatMap, List.map_flatMap]
    simp only [List.filterMap_flatMap]
    rfl
  have hmethods : unit.types.flatMap (fun t => (t.methods.filterMap (·.body)).map .stmt) =
      (unit.methods.filterMap fun x => x.2.2.body).map Node.stmt := by
    have hbodies (t : TypeDecl) (i : Nat) :
        (t.methods.zipIdx.map fun x => (i, x.2, x.1)).filterMap (fun x => x.2.2.body) =
          t.methods.filterMap (·.body) := by
      rw [List.filterMap_map]
      conv_rhs => rw [← List.zipIdx_map_fst 0 t.methods, List.filterMap_map]
      rfl
    have hmethods : unit.methods = unit.types.zipIdx.flatMap fun x =>
        x.1.methods.zipIdx.map fun y => (x.2, y.2, y.1) := rfl
    rw [hmethods, List.filterMap_flatMap, List.map_flatMap]
    simp only [hbodies]
    rw [flatMap_zipIdx unit.types fun t => (t.methods.filterMap (·.body)).map Node.stmt]
  rw [roots, ← hfields, ← hmethods]
  exact (List.flatMap_append_perm _ _ _).symm

theorem mem_textRoots : node ∈ unit.textRoots ↔ node ∈ unit.roots := textRoots_perm.mem_iff

/-- What holds for the layouts of all nodes holds for that of the types. -/
theorem typesLayout_of_rooted {R : Layout → List Node → Layout → Prop} (hR : Compositional R)
    {nodes : Node → List Node}
    (h : ∀ node, unit.Rooted node → ∀ level,
      R (unit.nodeLayout level node) (nodes node) (unit.nodeLayout level node)) :
    R unit.typesLayout (unit.textRoots.flatMap nodes) unit.typesLayout := by
  have hroot (decl : TypeDecl) (hdecl : decl ∈ unit.types) (node : Node) (hn : node ∈ decl.roots) :
      unit.Rooted node :=
    ⟨node, mem_textRoots.1 (List.mem_flatMap.2 ⟨decl, hdecl, hn⟩), .refl⟩
  rw [textRoots, List.flatMap_assoc]
  refine typesLayout_rel hR rfl (fun decl hdecl f hf e he => ?_) fun decl hdecl m hm => ?_
  · refine h (.expr e) (hroot decl hdecl _ (List.mem_append_left _ (List.mem_map_of_mem ?_))) 0
    exact List.mem_flatMap.2 ⟨f, hf, he⟩
  · cases hbody : m.body with
    | none => exact hR.append (hR.text _) (hR.text _)
    | some s =>
      have hs : unit.Rooted (.stmt s) :=
        hroot decl hdecl _ (List.mem_append_right _ (List.mem_map_of_mem
          (List.mem_filterMap.2 ⟨m, hm, hbody⟩)))
      have hstmt := hR.plain_append (hR.text ")") (hR.plain_append (hR.text " ") (h _ hs 1))
      simpa [bodyLayout, nodeLayout] using hstmt

/-- The unit with another text and other spans. -/
def retexted (unit : CompilationUnit) (text : String) (spans : Mark → Span) : CompilationUnit :=
  { unit with text := text, spans := spans }

section Retexted

variable (text : String) (spans : Mark → Span)

theorem exprLayoutWithin_retexted (d : Nat) (id : ExprId) :
    (unit.retexted text spans).exprLayoutWithin d id = unit.exprLayoutWithin d id := by
  induction d generalizing id with
  | zero => rfl
  | succ d ih =>
    rw [exprLayoutWithin, exprLayoutWithin, funext ih]
    rfl

theorem stmtLayoutWithin_retexted (d level : Nat) (id : StmtId) :
    (unit.retexted text spans).stmtLayoutWithin d level id = unit.stmtLayoutWithin d level id := by
  induction d generalizing level id with
  | zero => rfl
  | succ d ih =>
    have hexpr : (unit.retexted text spans).exprLayout = unit.exprLayout :=
      funext (exprLayoutWithin_retexted text spans _)
    simp only [stmtLayoutWithin, hexpr, ih]
    rfl

/-- The layout looks at neither text nor spans. -/
theorem layout_retexted : (unit.retexted text spans).layout = unit.layout := by
  have htypes : unit.typesLayout = (unit.retexted text spans).typesLayout :=
    @typesLayout_rel _ compositional_eq (fun _ => []) unit (unit.retexted text spans) rfl
      (fun _ _ _ _ e _ => (exprLayoutWithin_retexted text spans _ e).symm) fun _ _ m _ => by
        cases h : m.body with
        | none => rfl
        | some s =>
          exact congrArg (fun l => _ ++ (_ ++ l)) (stmtLayoutWithin_retexted text spans _ 1 s).symm
  rw [layout, layout, htypes]
  rfl

end Retexted

theorem layout_print : unit.print.layout = unit.layout := layout_retexted _ _

/-- Every node of the trees is laid out. -/
theorem Rooted.part_layout (hr : unit.Rooted node) (hu : unit.SingleUse) (hc : unit.Complete) :
    ∃ level pre, (unit.nodeLayout level node).Part unit.layout pre := by
  have hparts := typesLayout_of_rooted (compositional_part _) fun n h =>
    (hu.grounded hc h).part_nodeLayout
  obtain ⟨root, hroot, hb⟩ := hr
  have hmem : node ∈ unit.textRoots.flatMap unit.subtree :=
    List.mem_flatMap.2 ⟨root, mem_textRoots.2 hroot,
      (hu.grounded hc ⟨root, hroot, .refl⟩).mem_subtree.2 hb⟩
  obtain ⟨l, pre, ⟨level, rfl⟩, hp⟩ := hparts node hmem
  exact ⟨level, _, .right hp⟩

/-- The text shows every node of the trees. -/
theorem Shows.rooted_node (hs : unit.Shows [] unit.layout) (hu : unit.SingleUse)
    (hc : unit.Complete) (hr : unit.Rooted node) :
    ∃ level before, unit.Shows before (unit.nodeLayout level node) := by
  obtain ⟨level, pre, hp⟩ := hr.part_layout hu hc
  exact ⟨level, _, hs.part hp⟩

end CompilationUnit
end EnhancedFor
