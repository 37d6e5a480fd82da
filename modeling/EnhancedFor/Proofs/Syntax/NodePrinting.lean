import EnhancedFor.Proofs.Syntax.Printing

/-!
Printing of nodes. A node is copied, its parts are printed, and the copy is written back over what
the table has for it by then. Main statement: this writes the layout of the node, also where parts
are shared, since no part has the node below it; and it ends exactly if the tree of the node is
complete and not deeper than allowed.
-/

namespace EnhancedFor
namespace CompilationUnit

variable {unit : CompilationUnit} {σ α : Type} {place : CellPlace σ} {form : α}
  {p : ExprId → Prop} {g : ExprId → Layout} {sub : ExprId → PrintM Unit}

namespace PrintsIn

section Parts

variable [DecidableEq σ]

theorem typeRef (slot : σ) (ref : TypeRef) :
    unit.PrintsIn place form True (Printer.printTypeRef slot ref)
      (typeRefLayout (place.mark slot) ref) := ranged slot (push ref.text)

theorem param {slot : ParamSlot → σ} {site : ParamPlace}
    (hslot : ∀ s, place.mark (slot s) = s.mark site) (param : Parameter) :
    unit.PrintsIn place form True (Printer.printParam slot param) (paramLayout site param) := by
  have hparam : unit.PrintsIn place form _ (Printer.printParam slot param) _ :=
    ranged (slot .whole) ((typeRef (slot .type) param.type).bind
      ((push " ").bind (ranged (slot .name) (push param.name))))
  simp only [hslot] at hparam
  exact hparam.of (by simp) fun _ => .mark (.nest _ [_, _])

theorem decl {slot : DeclSlot → σ} {site : DeclPlace}
    (hslot : ∀ s, place.mark (slot s) = s.mark site) {decl : Declaration}
    (h : ∀ e ∈ decl.inits, unit.PrintsIn place form (p e) (sub e) (g e)) :
    unit.PrintsIn place form (∀ e ∈ decl.inits, p e) (Printer.printDecl sub slot decl)
      (declLayout g site decl) := by
  have hfragment (x : Fragment × Nat) (hx : x ∈ decl.fragments.zipIdx) :
      unit.PrintsIn place form (∀ e ∈ x.1.init.toList, p e)
        (Printer.ranged (slot (.fragment x.2)) do
          Printer.ranged (slot (.fragmentName x.2)) (Printer.push x.1.name)
          Printer.optional " = " (fun e => sub e) x.1.init)
        (.mark (.fragment site x.2)
          (.mark (.fragmentName site x.2) x.1.name ++ optionalLayout " = " g x.1.init)) := by
    have hinit := optional " = " fun e he => h e (List.mem_filterMap.2
      ⟨x.1, (List.mem_zipIdx' hx).2 ▸ List.getElem_mem _, Option.mem_toList.1 he⟩)
    have hwhole := ranged (slot (.fragment x.2))
      ((ranged (slot (.fragmentName x.2)) (push x.1.name)).bind hinit)
    rw [hslot, hslot] at hwhole
    exact hwhole.of (by simp) fun _ => .refl _
  have hparts := (typeRef (slot .type) decl.type).bind ((push " ").bind (separated ", " hfragment))
  rw [hslot] at hparts
  refine hparts.of ?_ fun _ => .nest _ [_, _]
  have hinits : (∀ e ∈ decl.inits, p e) ↔ ∀ f ∈ decl.fragments, ∀ e ∈ f.init.toList, p e := by
    simp only [Declaration.inits, List.mem_filterMap, Option.mem_toList, forall_exists_index,
      and_imp]
    exact ⟨fun h f hf e he => h e f hf he, fun h e f hf he => h f hf e he⟩
  rw [hinits, true_and, true_and]
  exact forall_mem_zipIdx decl.fragments (fun f => ∀ e ∈ f.init.toList, p e) 0

end Parts

theorem receiver {receiver : Option ExprId}
    (h : ∀ e ∈ receiver.toList, unit.PrintsIn place form (p e) (sub e) (g e)) :
    unit.PrintsIn place form (∀ e ∈ receiver.toList, p e) (Printer.printReceiver sub receiver)
      (receiverLayout g receiver) := by
  cases receiver with
  | none => exact pure.of (by simp) fun _ => .refl _
  | some e => exact ((h e List.mem_cons_self).bind (push ".")).of (by simp) fun _ => .refl _

theorem exprForm {id : ExprId} {node : ExprNode} {e : Expr}
    (h : ∀ c ∈ e.children, unit.PrintsIn (.expr id) node (p c) (sub c) (g c)) :
    unit.PrintsIn (.expr id) node (∀ c ∈ e.children, p c) (Printer.printExprForm sub e)
      (exprShape g id e) := by
  cases e with
  | name name binding => exact (push name).of (by simp [Expr.children]) fun _ => .refl _
  | field receiver name binding =>
    rw [Printer.printExprForm, exprShape]
    have hparts := (h receiver List.mem_cons_self).bind ((push ".").bind (ranged .name (push name)))
    exact hparts.of (by simp [Expr.children]) fun _ => .nest _ [_, _]
  | call receiver name args binding =>
    rw [Printer.printExprForm, exprShape]
    have hreceiver := PrintsIn.receiver fun c hc => h c (List.mem_append_left _ hc)
    have hargs := separated ", " fun c hc => h c (List.mem_append_right _ hc)
    have hparts := hreceiver.bind ((ranged .name (push name)).bind
      ((push "(").bind (hargs.bind (push ")"))))
    exact hparts.of (by simp [Expr.children, or_imp, forall_and]) fun _ => .nest _ [_, _, _, _]
  | create type args =>
    rw [Printer.printExprForm, exprShape]
    have hparts := (push "new ").bind ((typeRef .type type).bind ((push "(").bind
      ((separated ", " h).bind (push ")"))))
    exact hparts.of (by simp) fun _ => .nest _ [_, _, _, _]
  | assign op target value =>
    rw [Printer.printExprForm, exprShape]
    have hvalue := h value (List.mem_cons_of_mem _ List.mem_cons_self)
    have hparts := (h target List.mem_cons_self).bind ((format " " op.text " ").bind hvalue)
    exact hparts.of (by simp [Expr.children]) fun _ => .nest _ [_, _]
  | declare decl =>
    rw [Printer.printExprForm, exprShape]
    exact PrintsIn.decl (fun _ => rfl) h
  | literal kind text =>
    cases kind with
    | string => exact (format "\"" text "\"").of (by simp [Expr.children]) fun _ => .refl _
    | null | bool | int => exact (push text).of (by simp [Expr.children]) fun _ => .refl _
  | cast type inner =>
    rw [Printer.printExprForm, exprShape]
    have hparts := (push "(").bind ((typeRef .type type).bind ((push ") ").bind
      (h inner List.mem_cons_self)))
    exact hparts.of (by simp [Expr.children]) fun _ => .nest _ [_, _, _]
  | paren inner =>
    rw [Printer.printExprForm, exprShape]
    have hparts := (push "(").bind ((h inner List.mem_cons_self).bind (push ")"))
    exact hparts.of (by simp [Expr.children]) fun _ => .nest _ [_, _]
  | binary op left right =>
    rw [Printer.printExprForm, exprShape]
    have hright := h right (List.mem_cons_of_mem _ List.mem_cons_self)
    have hparts := (h left List.mem_cons_self).bind ((format " " op.text " ").bind hright)
    exact hparts.of (by simp [Expr.children]) fun _ => .nest _ [_, _]
  | unary op operand =>
    rw [Printer.printExprForm, exprShape]
    have hparts := (push op.before).bind ((h operand List.mem_cons_self).bind (push op.after))
    exact hparts.of (by simp [Expr.children]) fun _ => .nest _ [_, _]
  | self => exact (push "this").of (by simp [Expr.children]) fun _ => .refl _
  | missing => exact pure.of (by simp [Expr.children]) fun _ => .refl _

section Statements

variable {q : Node → Prop} {stmt : Nat → StmtId → PrintM Unit} {line body : StmtId → Layout}
  {level : Nat}

theorem stmtForm {id : StmtId} {s : Stmt}
    (hexpr : ∀ e, .expr e ∈ s.children → unit.PrintsIn (.stmt id) s (q (.expr e)) (sub e) (g e))
    (hline : ∀ t, .stmt t ∈ s.children →
      unit.PrintsIn (.stmt id) s (q (.stmt t)) (Printer.printLine stmt level t) (line t))
    (hbody : ∀ t, .stmt t ∈ s.children →
      unit.PrintsIn (.stmt id) s (q (.stmt t)) (Printer.printBody stmt level t) (body t)) :
    unit.PrintsIn (.stmt id) s (∀ kid ∈ s.children, q kid)
      (Printer.printStmtForm sub stmt level s) (stmtShape g line body level id s) := by
  cases s with
  | block statements =>
    have hlines := forM fun t ht => hline t (List.mem_map_of_mem ht)
    have hparts := (push "\x7b").bind
      (hlines.bind ((push "\n").bind ((indent level).bind (push "\x7d"))))
    rw [Printer.printStmtForm, stmtShape]
    refine hparts.of (by simp [Stmt.children]) fun _ => ?_
    exact (Layout.Same.assoc _ _ _).trans (.append (.refl _) (.nest _ [_, _]))
  | declare decl =>
    rw [Printer.printStmtForm, stmtShape]
    have hdecl : unit.PrintsIn (.stmt id) (Stmt.declare decl) (∀ e ∈ decl.inits, q (.expr e))
        (Printer.printDecl sub .decl decl) (declLayout g (.stmt id) decl) :=
      PrintsIn.decl (fun _ => rfl) fun e he => hexpr e (List.mem_map_of_mem he)
    exact (hdecl.bind (push ";")).of (by simp [Stmt.children]) fun _ => .refl _
  | eval e =>
    rw [Printer.printStmtForm, stmtShape]
    have hparts := (hexpr e List.mem_cons_self).bind (push ";")
    exact hparts.of (by simp [Stmt.children]) fun _ => .refl _
  | branch condition thenBranch elseBranch =>
    rw [Printer.printStmtForm, stmtShape]
    have helse := optional " else " fun t (ht : t ∈ elseBranch.toList) =>
      hbody t (List.mem_cons_of_mem _ (List.mem_cons_of_mem _ (List.mem_map_of_mem ht)))
    have hparts := (push "if (").bind ((hexpr condition List.mem_cons_self).bind ((push ") ").bind
      ((hbody thenBranch (by simp [Stmt.children])).bind helse)))
    exact hparts.of (by simp [Stmt.children]) fun _ => .nest _ [_, _, _, _]
  | whileLoop condition b =>
    rw [Printer.printStmtForm, stmtShape]
    have hparts := (push "while (").bind ((hexpr condition List.mem_cons_self).bind
      ((push ") ").bind (hbody b (by simp [Stmt.children]))))
    exact hparts.of (by simp [Stmt.children]) fun _ => .nest _ [_, _, _]
  | forLoop inits condition updates b =>
    rw [Printer.printStmtForm, stmtShape]
    have hinits := separated ", " fun e (he : e ∈ inits) => hexpr e (by simp [Stmt.children, he])
    have hcondition := optional " " fun e (he : e ∈ condition.toList) =>
      hexpr e (by simp [Stmt.children, Option.mem_toList.1 he])
    have hupdates : unit.PrintsIn (.stmt id) (.forLoop inits condition updates b)
        (∀ e ∈ updates, q (.expr e)) (Printer.printUpdates sub updates)
        (if updates.isEmpty then .empty else " " ++ .join ", " (updates.map g)) := by
      have hlist := separated ", " fun e (he : e ∈ updates) => hexpr e (by simp [Stmt.children, he])
      rw [Printer.printUpdates]
      split
      · simp_all
        exact pure.of (by simp) fun _ => .refl _
      · exact ((push " ").bind hlist).of (by simp) fun _ => .refl _
    have hparts := (push "for (").bind (hinits.bind ((push ";").bind (hcondition.bind
      ((push ";").bind (hupdates.bind ((push ") ").bind (hbody b (by simp [Stmt.children]))))))))
    refine hparts.of ?_ fun _ => .nest _ [_, _, _, _, _, _, _]
    simp [Stmt.children, or_imp, forall_and]
  | forEach param iterable b =>
    rw [Printer.printStmtForm, stmtShape]
    have hparam : unit.PrintsIn (.stmt id) (Stmt.forEach param iterable b) True
        (Printer.printParam .param param) (paramLayout (.forEach id) param) :=
      PrintsIn.param (fun _ => rfl) param
    have hparts := (push "for (").bind (hparam.bind ((push " : ").bind
      ((hexpr iterable List.mem_cons_self).bind ((push ") ").bind
      (hbody b (by simp [Stmt.children]))))))
    exact hparts.of (by simp [Stmt.children]) fun _ => .nest _ [_, _, _, _, _]
  | ret value =>
    rw [Printer.printStmtForm, stmtShape]
    have hvalue := optional " " fun e he => hexpr e (List.mem_map_of_mem he)
    have hparts := (push "return").bind (hvalue.bind (push ";"))
    exact hparts.of (by simp [Stmt.children]) fun _ => .nest _ [_, _]
  | empty => exact (push ";").of (by simp [Stmt.children]) fun _ => .refl _

end Statements

end PrintsIn

/-! Copies of nodes. A copy is as old as the moment it was taken, but no part of the node has
changed the node itself since. -/

/-- Writing one cell back brings a table up to date that was out of date there only. -/
theorem cells_setIfInBounds {xs : Array α} {marks : Nat → σ → Mark} {i : Nat} {x : α}
    (h : xs[i]? = some x) {f g : Mark → Span}
    (hfg : ∀ j, j ≠ i → ∀ slot, f (marks j slot) = g (marks j slot)) :
    (xs.mapIdx fun j x => (⟨x, fun slot => f (marks j slot)⟩ : Ranged σ α)).setIfInBounds i
        ⟨x, fun slot => g (marks i slot)⟩ =
      xs.mapIdx fun j x => ⟨x, fun slot => g (marks j slot)⟩ := by
  refine Array.ext_getElem? fun j => ?_
  rw [Array.getElem?_setIfInBounds, Array.getElem?_mapIdx, Array.getElem?_mapIdx, Array.size_mapIdx]
  split
  · rename_i hij
    subst hij
    rw [if_pos (Array.getElem?_eq_some_iff.1 h).1, h]
    rfl
  · rename_i hij
    simp only [hfg j (Ne.symm hij)]

section Copies

variable {P : Prop} {l : Layout}

theorem exprCell_eq (id : ExprId) (p : Printer) : Printer.exprCell id p =
    p.arena.exprs[id.index]?.elim (.error .unknownNode) fun cell => .ok (cell, p) := by
  refine (get_bind_eq _ p).trans ?_
  cases p.arena.exprs[id.index]? <;> rfl

theorem stmtCell_eq (id : StmtId) (p : Printer) : Printer.stmtCell id p =
    p.arena.stmts[id.index]?.elim (.error .unknownNode) fun cell => .ok (cell, p) := by
  refine (get_bind_eq _ p).trans ?_
  cases p.arena.stmts[id.index]? <;> rfl

theorem exprCell_tables {id : ExprId} {node : ExprNode} (h : unit.exprs[id.index]? = some node)
    (rest : Arena) (spans : Mark → Span) (out : String) :
    Printer.exprCell id ⟨unit.tables rest spans, out⟩ =
      .ok ((CellPlace.expr id).cell node spans, ⟨unit.tables rest spans, out⟩) := by
  rw [exprCell_eq, tables, exprCells, Array.getElem?_mapIdx, h]
  rfl

theorem stmtCell_tables {id : StmtId} {s : Stmt} (h : unit.stmts[id.index]? = some s)
    (rest : Arena) (spans : Mark → Span) (out : String) :
    Printer.stmtCell id ⟨unit.tables rest spans, out⟩ =
      .ok ((CellPlace.stmt id).cell s spans, ⟨unit.tables rest spans, out⟩) := by
  rw [stmtCell_eq, tables, stmtCells, Array.getElem?_mapIdx, h]
  rfl

/-- An action on a copy. Only the cell of the copied part is out of date while it runs, and writing
the copy back brings it up to date. -/
theorem Prints.copy {place : CellPlace σ} {form : α} {read : PrintM (Ranged σ α)}
    {write : Ranged σ α → Arena → Arena} {action : α → CellM σ α Unit}
    (hread : ∀ rest spans out, read ⟨unit.tables rest spans, out⟩ =
      .ok (place.cell form spans, ⟨unit.tables rest spans, out⟩))
    (hwrite : ∀ rest old spans, write (place.cell form spans)
      (unit.tables rest (place.stale old spans)) = unit.tables rest spans)
    (hx : unit.PrintsIn place form P (action form) l) :
    unit.Prints P (do
      let cell ← read
      let cell ← Printer.updated (action cell.form) cell
      Printer.amend (write cell)) l := by
  intro rest spans out r
  have hrun := hx rest spans spans out
  rw [CellPlace.stale_self] at hrun
  refine bind_eq_ok.trans ⟨?_, ?_⟩
  · rintro ⟨x, hcell, hr⟩
    obtain rfl := Except.ok.inj ((hread rest spans out).symm.trans hcell)
    obtain ⟨z, hz, hr⟩ := bind_eq_ok.1 hr
    obtain ⟨y, hy, rfl⟩ := updated_eq_ok.1 hz
    obtain ⟨hP, rfl⟩ := (hrun y).1 hy
    refine ⟨hP, (Except.ok.inj hr).symm.trans ?_⟩
    exact congrArg (fun arena => ((), Printer.mk arena _)) (hwrite rest spans _)
  · rintro ⟨hP, rfl⟩
    have hupdated := updated_eq_ok.2 ⟨_, (hrun _).2 ⟨hP, rfl⟩, rfl⟩
    refine ⟨_, hread rest spans out, bind_eq_ok.2 ⟨_, hupdated, ?_⟩⟩
    exact congrArg (fun arena => Except.ok ((), Printer.mk arena _)) (hwrite rest spans _)

theorem Prints.onExprCopy {id : ExprId} {node : ExprNode}
    {action : ExprNode → CellM ExprSlot ExprNode Unit} (h : unit.exprs[id.index]? = some node)
    (hx : unit.PrintsIn (.expr id) node P (action node) l) :
    unit.Prints P (Printer.onExprCopy id action) l := by
  refine .copy (exprCell_tables h) (fun rest old spans => ?_) hx
  have hself : (unit.exprCells ((CellPlace.expr id).stale old spans)).setIfInBounds id.index
      ((CellPlace.expr id).cell node spans) = unit.exprCells spans := by
    refine cells_setIfInBounds h fun j hj slot => CellPlace.stale_expr fun heq => hj ?_
    rw [ExprSlot.node?_mark] at heq
    exact congrArg ExprId.index (Node.expr.inj (Option.some.inj heq))
  have hother : unit.stmtCells ((CellPlace.expr id).stale old spans) = unit.stmtCells spans := by
    simp only [stmtCells, CellPlace.stale_expr, StmtSlot.node?_mark, ne_eq, Option.some.injEq,
      reduceCtorEq, not_false_eq_true]
  simp only [tables, hself, hother]

theorem Prints.onStmtCopy {id : StmtId} {s : Stmt}
    {action : Stmt → CellM StmtSlot Stmt Unit} (h : unit.stmts[id.index]? = some s)
    (hx : unit.PrintsIn (.stmt id) s P (action s) l) :
    unit.Prints P (Printer.onStmtCopy id action) l := by
  refine .copy (stmtCell_tables h) (fun rest old spans => ?_) hx
  have hself : (unit.stmtCells ((CellPlace.stmt id).stale old spans)).setIfInBounds id.index
      ((CellPlace.stmt id).cell s spans) = unit.stmtCells spans := by
    refine cells_setIfInBounds h fun j hj slot => CellPlace.stale_stmt fun heq => hj ?_
    rw [StmtSlot.node?_mark] at heq
    exact congrArg StmtId.index (Node.stmt.inj (Option.some.inj heq))
  have hother : unit.exprCells ((CellPlace.stmt id).stale old spans) = unit.exprCells spans := by
    simp only [exprCells, CellPlace.stale_stmt, ExprSlot.node?_mark, ne_eq, Option.some.injEq,
      reduceCtorEq, not_false_eq_true]
  simp only [tables, hself, hother]

namespace PrintsIn

variable {id t : StmtId} {s : Stmt} {stmt : Nat → StmtId → PrintM Unit} {level : Nat}

theorem line
    (h : unit.PrintsIn (.stmt id) s P (stmt (level + 1) t) (unit.stmtLayout (level + 1) t)) :
    unit.PrintsIn (.stmt id) s P (Printer.printLine stmt level t) (unit.stmtLine level t) := by
  have hparts := (push "\n").bind ((indent (level + 1)).bind h)
  exact hparts.of (by simp) fun _ => .nest _ [_, _]

/-- The form of a body does not change while it is printed around. -/
theorem body (hP : P → unit.contains (.stmt t) = true)
    (hblock : unit.PrintsIn (.stmt id) s P (stmt level t) (unit.stmtLayout level t))
    (hline : unit.PrintsIn (.stmt id) s P (Printer.printLine stmt level t)
      (unit.stmtLine level t)) :
    unit.PrintsIn (.stmt id) s P (Printer.printBody stmt level t) (unit.stmtBody level t) := by
  intro rest old spans out r
  rw [Printer.printBody, cell_bind_eq_ok]
  cases ht : unit.stmts[t.index]? with
  | none =>
    refine iff_of_false ?_ fun hr => ?_
    · rintro ⟨x, hx, -⟩
      obtain ⟨y, hy, -⟩ := cell_lift_eq_ok.1 hx
      simp [stmtCell_eq, tables, stmtCells, ht] at hy
    · obtain ⟨s, hs⟩ := contains_stmt_iff.1 (hP hr.1)
      simp [ht] at hs
  | some b =>
    have hread := stmtCell_tables ht rest ((CellPlace.stmt id).stale old spans) out
    have hform : unit.stmtBody level t =
        if b.isBlock then unit.stmtLayout level t else unit.stmtLine level t := by
      rw [stmtBody, stmt?, ht]
      rfl
    have hbranch : unit.PrintsIn (.stmt id) s P
        (if b.isBlock then liftM (stmt level t) else Printer.printLine stmt level t)
        (unit.stmtBody level t) := by
      rw [hform]
      split
      · exact hblock
      · exact hline
    rw [← hbranch rest old spans out r]
    constructor
    · rintro ⟨x, hx, hr⟩
      obtain ⟨y, hy, rfl⟩ := cell_lift_eq_ok.1 hx
      obtain rfl := Except.ok.inj (hread.symm.trans hy)
      exact hr
    · exact fun hr => ⟨_, cell_lift_eq_ok.2 ⟨_, hread, rfl⟩, hr⟩

end PrintsIn

end Copies

open Relation

variable {d : Nat} {node kid : Node}

/-- The tree of the node is complete and has at most so many levels. -/
structure PrintableWithin (unit : CompilationUnit) (d : Nat) (node : Node) : Prop where
  height : unit.HeightWithin d node
  present : ∀ n, unit.Below node n → unit.contains n = true

namespace PrintableWithin

theorem not_zero : ¬ unit.PrintableWithin 0 node := fun h => h.height

theorem succ_iff : unit.PrintableWithin (d + 1) node ↔
    unit.contains node = true ∧ ∀ kid ∈ unit.kids node, unit.PrintableWithin d kid := by
  constructor
  · intro h
    exact ⟨h.present node .refl, fun kid hk => ⟨h.height kid hk,
      fun n hn => h.present n (.head hk hn)⟩⟩
  · rintro ⟨hnode, hkids⟩
    refine ⟨fun kid hk => (hkids kid hk).height, fun n hb => ?_⟩
    rcases ReflTransGen.cases_head hb with rfl | ⟨kid, hk, hb⟩
    · exact hnode
    · exact (hkids kid hk).present n hb

theorem grounded (h : unit.PrintableWithin d node) (hd : d ≤ unit.depth) : unit.Grounded node :=
  ⟨h.height.mono hd, h.present⟩

/-- The node that a part belongs to is not below the part. -/
theorem not_below_parent (h : unit.PrintableWithin d kid) (hk : kid ∈ unit.kids node) :
    ¬ unit.Below kid node := by
  intro hb
  rcases ReflTransGen.cases_head hb with rfl | ⟨next, hnext, hb⟩
  · exact h.height.not_below_of_mem hk .refl
  · exact h.height.not_below_of_mem hnext (hb.tail hk)

theorem node_of_mem_marks (h : unit.PrintableWithin d node) (hd : d ≤ unit.depth) {level : Nat}
    {m : Mark} (hm : m ∈ (unit.nodeLayout level node).allMarks) :
    ∃ n, m.node? = some n ∧ unit.Below node n := by
  have hg := h.grounded hd
  obtain ⟨n, hn, hm⟩ := List.mem_flatMap.1 ((hg.marks_nodeLayout level).subset hm)
  exact ⟨n, node_of_mem_ownMarks hm, hg.mem_subtree.1 hn⟩

/-- No mark of a node is in the layout of its parts. -/
theorem node_ne_parent (h : unit.PrintableWithin d kid) (hd : d ≤ unit.depth)
    (hk : kid ∈ unit.kids node) {level : Nat} {m : Mark}
    (hm : m ∈ (unit.nodeLayout level kid).allMarks) : m.node? ≠ some node := by
  obtain ⟨n, hn, hb⟩ := h.node_of_mem_marks hd hm
  rintro heq
  obtain rfl := Option.some.inj (hn.symm.trans heq)
  exact h.not_below_parent hk hb

end PrintableWithin

theorem grounded_iff : unit.Grounded node ↔ unit.PrintableWithin unit.depth node :=
  ⟨fun h => ⟨h.height, h.present⟩, fun h => ⟨h.height, h.present⟩⟩

/-- An expression is printed as it is laid out. -/
theorem prints_expr (hd : d ≤ unit.depth) (id : ExprId) :
    unit.Prints (unit.PrintableWithin d (.expr id)) (Printer.printExprWithin d id)
      (unit.exprLayout id) := by
  induction d generalizing id with
  | zero => exact .of_fail PrintableWithin.not_zero fun _ _ _ _ h => by cases h
  | succ d ih =>
    cases he : unit.exprs[id.index]? with
    | none =>
      refine .of_fail (fun hp => ?_) fun rest spans out r h => ?_
      · obtain ⟨node, hnode⟩ := contains_expr_iff.1 (hp.present _ .refl)
        simp [he] at hnode
      · obtain ⟨x, hx, -⟩ := bind_eq_ok.1 h
        simp [exprCell_eq, tables, exprCells, he] at hx
    | some node =>
      have hdepth := hd
      have hd : d ≤ unit.depth := Nat.le_of_succ_le hd
      have hexpr : unit.expr? id = some node.expr := by simp [expr?, he]
      have hform : unit.PrintsIn (.expr id) node
          (∀ c ∈ node.expr.children, unit.PrintableWithin d (.expr c))
          (Printer.printExprForm (Printer.printExprWithin d) node.expr)
          (exprShape unit.exprLayout id node.expr) :=
        .exprForm fun c hc => .lift (ih hd c) fun hp m hm => CellPlace.free_expr
          (@PrintableWithin.node_ne_parent _ _ _ _ hp hd
            (kids_expr hexpr ▸ List.mem_map_of_mem hc) 0 _ hm)
      have hcopy : unit.Prints (∀ c ∈ node.expr.children, unit.PrintableWithin d (.expr c))
          (Printer.printExprWithin (d + 1) id)
          (.mark (.expr id) (exprShape unit.exprLayout id node.expr)) := by
        rw [Printer.printExprWithin]
        have hwhole := hform.ranged .whole
        refine .onExprCopy he ?_
        exact hwhole
      refine hcopy.of ?_ fun hp => ((hp.grounded hdepth).exprLayout_eq hexpr).symm
      rw [PrintableWithin.succ_iff, kids_expr hexpr, List.forall_mem_map,
        and_iff_right (contains_expr_iff.2 ⟨node, he⟩)]

theorem prints_stmt (hd : d ≤ unit.depth) (level : Nat) (id : StmtId) :
    unit.Prints (unit.PrintableWithin d (.stmt id)) (Printer.printStmtWithin d level id)
      (unit.stmtLayout level id) := by
  induction d generalizing level id with
  | zero => exact .of_fail PrintableWithin.not_zero fun _ _ _ _ h => by cases h
  | succ d ih =>
    cases hs : unit.stmts[id.index]? with
    | none =>
      refine .of_fail (fun hp => ?_) fun rest spans out r h => ?_
      · obtain ⟨s, hsome⟩ := contains_stmt_iff.1 (hp.present _ .refl)
        simp [hs] at hsome
      · obtain ⟨x, hx, -⟩ := bind_eq_ok.1 h
        simp [stmtCell_eq, tables, stmtCells, hs] at hx
    | some s =>
      have hdepth := hd
      have hd : d ≤ unit.depth := Nat.le_of_succ_le hd
      have hkids := kids_stmt hs
      have hfree (kid : Node) (hk : kid ∈ s.children) (hp : unit.PrintableWithin d kid)
          (level : Nat) (m : Mark) (hm : m ∈ (unit.nodeLayout level kid).allMarks) :
          (CellPlace.stmt id).Free m :=
        CellPlace.free_stmt (hp.node_ne_parent hd (hkids ▸ hk) hm)
      have hstmt (level : Nat) (t : StmtId) (ht : .stmt t ∈ s.children) : unit.PrintsIn (.stmt id) s
          (unit.PrintableWithin d (.stmt t)) (Printer.printStmtWithin d level t)
          (unit.stmtLayout level t) :=
        .lift (ih hd level t) fun hp => hfree (.stmt t) ht hp level
      have hline (t : StmtId) (ht : .stmt t ∈ s.children) : unit.PrintsIn (.stmt id) s
          (unit.PrintableWithin d (.stmt t)) (Printer.printLine (Printer.printStmtWithin d) level t)
          (unit.stmtLine level t) :=
        .line (hstmt (level + 1) t ht)
      have hbody (t : StmtId) (ht : .stmt t ∈ s.children) : unit.PrintsIn (.stmt id) s
          (unit.PrintableWithin d (.stmt t)) (Printer.printBody (Printer.printStmtWithin d) level t)
          (unit.stmtBody level t) :=
        .body (fun hp => hp.present _ .refl) (hstmt level t ht) (hline t ht)
      have hform : unit.PrintsIn (.stmt id) s (∀ kid ∈ s.children, unit.PrintableWithin d kid)
          (Printer.printStmtForm (Printer.printExprWithin d) (Printer.printStmtWithin d) level s)
          (stmtShape unit.exprLayout (unit.stmtLine level) (unit.stmtBody level) level id s) :=
        .stmtForm (fun e he => .lift (prints_expr hd e)
          fun hp => hfree (.expr e) he hp level) hline hbody
      have hcopy : unit.Prints (∀ kid ∈ s.children, unit.PrintableWithin d kid)
          (Printer.printStmtWithin (d + 1) level id)
          (.mark (.stmt id)
            (stmtShape unit.exprLayout (unit.stmtLine level) (unit.stmtBody level) level id
              s)) := by
        rw [Printer.printStmtWithin]
        have hwhole := hform.ranged .whole
        refine .onStmtCopy hs ?_
        exact hwhole
      refine hcopy.of ?_ fun hp => ((hp.grounded hdepth).stmtLayout_eq hs).symm
      rw [PrintableWithin.succ_iff, hkids, and_iff_right (contains_stmt_iff.2 ⟨s, hs⟩)]

end CompilationUnit
end EnhancedFor
