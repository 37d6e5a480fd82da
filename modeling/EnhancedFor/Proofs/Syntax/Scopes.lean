import EnhancedFor.Syntax.Builder
import EnhancedFor.Proofs.Syntax.Frames

/-!
Names that are visible at a statement, found by the offset at which it starts in the text. Main
statement: they are those of the fields, parameters and local variables in whose scope the statement
is.
-/

namespace EnhancedFor
namespace CompilationUnit

open Relation

variable {unit : CompilationUnit} {id kid s : StmtId} {before after : List StmtId} {name : String}

/-- A unit as it is after printing: every node has one place, and the spans nest as the nodes do. -/
structure Tidy (unit : CompilationUnit) : Prop where
  singleUse : unit.SingleUse
  complete : unit.Complete
  arranged : ∀ node, unit.Rooted node → unit.Arranged node
  framed : unit.Framed

theorem tidy_of_reprint {draft : CompilationUnit} (hprint : draft.reprint = .ok unit)
    (hu : unit.SingleUse) : unit.Tidy :=
  ⟨hu, (shows_of_reprint hprint hu).1, fun _ => arranged_of_reprint hprint hu,
    framed_of_reprint hprint hu⟩

/-- The names that a statement makes visible in a statement that is a part of it. -/
def brings (unit : CompilationUnit) (id kid : StmtId) : List String :=
  match unit.stmt? id with
  | some (.block statements) => (statements.takeWhile (· != kid)).flatMap unit.declaredNames
  | some (.forLoop inits _ _ _) => unit.initNames inits
  | some (.forEach param _ _) => [param.name]
  | _ => []

/-- Induction on the way from a statement down to another one. -/
@[elab_as_elim]
theorem Below.rec_stmt {motive : (id : StmtId) → unit.Below (.stmt id) (.stmt s) → Prop}
    (self : motive s .refl)
    (step : ∀ id kid (hkid : .stmt kid ∈ unit.kids (.stmt id))
      (hb : unit.Below (.stmt kid) (.stmt s)), motive kid hb → motive id (.head hkid hb))
    (h : unit.Below (.stmt id) (.stmt s)) : motive id h := by
  have main : ∀ node, unit.Below node (.stmt s) → ∀ id (h : unit.Below (.stmt id) (.stmt s)),
      node = .stmt id → motive id h := by
    intro node hb
    induction hb using ReflTransGen.head_induction_on with
    | refl =>
      intro id h heq
      obtain rfl := Node.stmt.inj heq
      exact self
    | @head node next hkid hb ih =>
      rintro id h rfl
      cases next with
      | stmt kid => exact step id kid hkid hb (ih kid hb rfl)
      | expr e =>
        obtain ⟨inner, hinner⟩ := exists_expr_of_below hb
        exact Node.noConfusion hinner
  exact main _ h id h rfl

/-- A local variable, a variable of a loop head or the element of an enhanced loop with this name
can be used in the statement. -/
inductive InScope (unit : CompilationUnit) (s : StmtId) (name : String) : Prop where
  | declared {block a l : StmtId} {before after : List StmtId} {decl : Declaration}
    (hblock : unit.stmt? block = some (.block (before ++ a :: after)))
    (ha : unit.Below (.stmt a) (.stmt s)) (hl : l ∈ before)
    (hdecl : unit.stmt? l = some (.declare decl)) (hname : name ∈ decl.names)
  | init {loop body : StmtId} {inits updates : List ExprId} {condition : Option ExprId} {e : ExprId}
    {decl : Declaration} (hloop : unit.stmt? loop = some (.forLoop inits condition updates body))
    (hbody : unit.Below (.stmt body) (.stmt s)) (he : e ∈ inits)
    (hdecl : unit.expr? e = some (.declare decl)) (hname : name ∈ decl.names)
  | element {loop body : StmtId} {param : Parameter} {iterable : ExprId}
    (hloop : unit.stmt? loop = some (.forEach param iterable body))
    (hbody : unit.Below (.stmt body) (.stmt s)) (hname : param.name = name)

theorem mem_declaredNames : name ∈ unit.declaredNames id ↔
    ∃ decl, unit.stmt? id = some (.declare decl) ∧ name ∈ decl.names := by
  rw [declaredNames]
  split
  · rename_i decl hdecl
    simp [hdecl]
  · rename_i hnot
    simpa using fun decl hdecl => (hnot decl hdecl).elim

theorem mem_initNames {inits : List ExprId} : name ∈ unit.initNames inits ↔
    ∃ e ∈ inits, ∃ decl, unit.expr? e = some (.declare decl) ∧ name ∈ decl.names := by
  rw [initNames, List.mem_flatMap]
  refine exists_congr fun e => and_congr_right fun _ => ?_
  split
  · rename_i decl hdecl
    simp [hdecl]
  · rename_i hnot
    simpa using fun decl hdecl => (hnot decl hdecl).elim

namespace Tidy

variable (ht : unit.Tidy)

include ht

theorem grounded {node : Node} (hr : unit.Rooted node) : unit.Grounded node :=
  ht.singleUse.grounded ht.complete hr

/-- A statement in a part of another one starts after that and ends with it at the latest. -/
theorem nested (hr : unit.Rooted (.stmt id)) (hkid : .stmt kid ∈ unit.kids (.stmt id))
    (hb : unit.Below (.stmt kid) (.stmt s)) :
    (unit.stmtSpan id).start < (unit.stmtSpan kid).start ∧
      (unit.stmtSpan kid).start ≤ (unit.stmtSpan s).start ∧
      (unit.stmtSpan s).start < (unit.stmtSpan s).stop ∧
      (unit.stmtSpan s).stop ≤ (unit.stmtSpan kid).stop :=
  ⟨(ht.arranged _ hr).opens id kid rfl hkid, stmtSpan_below ht.arranged (hr.kid hkid) hb⟩

theorem contains_start (hr : unit.Rooted (.stmt id)) (hkid : .stmt kid ∈ unit.kids (.stmt id))
    (hb : unit.Below (.stmt kid) (.stmt s)) :
    (unit.stmtSpan kid).contains (unit.stmtSpan s).start = true := by
  have hnested := ht.nested hr hkid hb
  simp only [Span.contains, Bool.and_eq_true, decide_eq_true_eq]
  omega

/-- An offset is in one part of a statement at most. -/
theorem contains_iff {other : StmtId} {offset : Nat} (hr : unit.Rooted (.stmt id))
    (hkid : .stmt kid ∈ unit.kids (.stmt id)) (hother : .stmt other ∈ unit.kids (.stmt id))
    (hin : (unit.stmtSpan kid).contains offset = true) :
    (unit.stmtSpan other).contains offset = true ↔ other = kid := by
  refine ⟨fun h => ?_, fun h => h ▸ hin⟩
  have hapart : (unit.kids (.stmt id)).Pairwise fun a b =>
      ¬ ((unit.nodeSpan a).contains offset = true ∧ (unit.nodeSpan b).contains offset = true) := by
    refine (ht.arranged _ hr).kids.pairwise.imp ?_
    simp only [Span.contains, Bool.and_eq_true, decide_eq_true_eq]
    omega
  exact Node.stmt.inj (eq_of_pairwise_not hapart hother hkid h hin)

theorem block_order (hr : unit.Rooted (.stmt id))
    (hblock : unit.stmt? id = some (.block (before ++ kid :: after))) :
    (∀ l ∈ before, (unit.stmtSpan l).stop ≤ (unit.stmtSpan kid).start) ∧
      ∀ l ∈ after, (unit.stmtSpan kid).stop ≤ (unit.stmtSpan l).start := by
  have hpairwise := (ht.arranged _ hr).kids.pairwise
  rw [kids_stmt hblock, Stmt.children, List.pairwise_map] at hpairwise
  obtain ⟨-, hrest, hsplit⟩ := List.pairwise_append.1 hpairwise
  exact ⟨fun l hl => hsplit l hl kid List.mem_cons_self, (List.pairwise_cons.1 hrest).1⟩

theorem takeWhile_block (hblock : unit.stmt? id = some (.block (before ++ kid :: after))) :
    (before ++ kid :: after).takeWhile (· != kid) = before := by
  have hnodup := ht.singleUse.kids_nodup (.stmt id)
  rw [kids_stmt hblock, Stmt.children] at hnodup
  have hne := (List.nodup_append.1 (List.Nodup.of_map _ hnodup)).2.2
  rw [List.takeWhile_append_of_pos, List.takeWhile_cons_of_neg, List.append_nil]
  · simp
  · intro l hl
    simpa using hne l hl kid List.mem_cons_self

omit ht in
theorem splitBlock_eq {offset : Nat} (hbefore : ∀ l ∈ before, (unit.stmtSpan l).stop ≤ offset)
    (hin : (unit.stmtSpan kid).contains offset = true) :
    unit.splitBlock offset (before ++ kid :: after) = (before, some kid) := by
  simp only [Span.contains, Bool.and_eq_true, decide_eq_true_eq] at hin
  have hpast : ∀ l ∈ before, decide ((unit.stmtSpan l).stop ≤ offset) = true :=
    fun l hl => decide_eq_true (hbefore l hl)
  rw [splitBlock, List.takeWhile_append_of_pos hpast, List.dropWhile_append_of_pos hpast]
  simp [hin]

/-- What is visible where a statement starts: what the statement around it brings into the part that
it is in, and what is visible from there on. -/
theorem visibleWithin_succ (hr : unit.Rooted (.stmt id)) (hkid : .stmt kid ∈ unit.kids (.stmt id))
    (hb : unit.Below (.stmt kid) (.stmt s)) (d : Nat) :
    unit.visibleWithin (unit.stmtSpan s).start (d + 1) id =
      unit.brings id kid ++ unit.visibleWithin (unit.stmtSpan s).start d kid := by
  obtain ⟨stmt, hstmt⟩ := (ht.grounded hr).exists_stmt
  have hnested := ht.nested hr hkid hb
  have hin := ht.contains_start hr hkid hb
  have hpart := hkid
  rw [kids_stmt hstmt] at hpart
  rw [visibleWithin, brings]
  simp only [hstmt]
  cases stmt with
  | block statements =>
    have hmem : kid ∈ statements := by simpa [Stmt.children] using hpart
    obtain ⟨before, after, rfl⟩ := List.append_of_mem hmem
    obtain ⟨hbefore, -⟩ := ht.block_order hr hstmt
    have hpast : ∀ l ∈ before, (unit.stmtSpan l).stop ≤ (unit.stmtSpan s).start :=
      fun l hl => Nat.le_trans (hbefore l hl) hnested.2.1
    simp only [splitBlock_eq hpast hin, ht.takeWhile_block hstmt, Option.map_some, Option.getD_some]
  | forLoop inits condition updates body =>
    obtain rfl : kid = body := by simpa [Stmt.children] using hpart
    have hstart : (unit.stmtSpan id).start < (unit.stmtSpan s).start := by omega
    simp only [hstart, hin, if_true]
  | forEach param iterable body =>
    obtain rfl : kid = body := by simpa [Stmt.children] using hpart
    simp only [hin, if_true, List.cons_append, List.nil_append]
  | branch condition thenBranch elseBranch =>
    have hiff (other : StmtId) (hother : .stmt other ∈
        (Stmt.branch condition thenBranch elseBranch).children) :=
      ht.contains_iff hr hkid (kids_stmt hstmt ▸ hother) hin
    have hthen := hiff thenBranch (by simp [Stmt.children])
    cases elseBranch with
    | none =>
      obtain rfl : kid = thenBranch := by simpa [Stmt.children] using hpart
      simp [hin]
    | some other =>
      have helse := hiff other (by simp [Stmt.children])
      have hne : thenBranch ≠ other := by
        have hnodup := ht.singleUse.kids_nodup (.stmt id)
        rw [kids_stmt hstmt] at hnodup
        simpa [Stmt.children] using hnodup
      have hcases : kid = thenBranch ∨ kid = other := by simpa [Stmt.children] using hpart
      rcases hcases with rfl | rfl
      · simp [hthen, helse, hne.symm]
      · simp [hthen, helse, hne]
  | whileLoop condition body =>
    obtain rfl : kid = body := by simpa [Stmt.children] using hpart
    simp only [hin, if_true, List.nil_append]
  | declare | eval | ret | empty => simp [Stmt.children] at hpart

/-- Nothing in a statement is visible where it starts. -/
theorem visibleWithin_self (hr : unit.Rooted (.stmt s)) (d : Nat) :
    unit.visibleWithin (unit.stmtSpan s).start d s = [] := by
  cases d with
  | zero => rfl
  | succ d =>
    have hout (t : StmtId) (hkid : .stmt t ∈ unit.kids (.stmt s)) :
        (unit.stmtSpan s).start < (unit.stmtSpan t).start ∧
          (unit.stmtSpan t).start < (unit.stmtSpan t).stop :=
      ⟨(ht.arranged _ hr).opens s t rfl hkid, (ht.arranged _ (hr.kid hkid)).nonempty t rfl⟩
    have hnot (t : StmtId) (hkid : .stmt t ∈ unit.kids (.stmt s)) :
        (unit.stmtSpan t).contains (unit.stmtSpan s).start = false := by
      have := hout t hkid
      simp only [Span.contains, Bool.and_eq_false_iff, decide_eq_false_iff_not]
      omega
    rw [visibleWithin]
    cases hstmt : unit.stmt? s with
    | none => rfl
    | some stmt =>
      rw [kids_stmt hstmt] at hout hnot
      cases stmt with
      | block statements =>
        cases statements with
        | nil => rfl
        | cons t ts =>
          have hfirst := hout t (by simp [Stmt.children])
          have hpast : ¬ (unit.stmtSpan t).stop ≤ (unit.stmtSpan s).start := by omega
          have hnext : ¬ (unit.stmtSpan t).start ≤ (unit.stmtSpan s).start := by omega
          simp [splitBlock, Option.filter, hpast, hnext]
      | branch condition thenBranch elseBranch =>
        have hthen := hnot thenBranch (by simp [Stmt.children])
        cases elseBranch with
        | none => simp [hthen]
        | some other => simp [hthen, hnot other (by simp [Stmt.children])]
      | forLoop | forEach | whileLoop => simp [Stmt.children] at hnot; simp [hnot]
      | declare | eval | ret | empty => rfl

/-- The names visible where a statement starts are brought by the statements around it. -/
theorem mem_visibleWithin (hb : unit.Below (.stmt id) (.stmt s)) :
    ∀ d, unit.Rooted (.stmt id) → unit.HeightWithin d (.stmt id) →
      (name ∈ unit.visibleWithin (unit.stmtSpan s).start d id ↔
        ∃ c kid, unit.Below (.stmt id) (.stmt c) ∧ .stmt kid ∈ unit.kids (.stmt c) ∧
          unit.Below (.stmt kid) (.stmt s) ∧ name ∈ unit.brings c kid) := by
  induction hb using Below.rec_stmt with
  | self =>
    intro d hr _
    rw [ht.visibleWithin_self hr]
    refine ⟨fun h => (List.not_mem_nil h).elim, ?_⟩
    rintro ⟨c, kid, hc, hkid, hks, -⟩
    exact ((ht.grounded (hr.below hc)).not_below hkid (hks.trans hc)).elim
  | step id kid hkid hks ih =>
    intro d hr hd
    cases d with
    | zero => exact hd.elim
    | succ d =>
      rw [ht.visibleWithin_succ hr hkid hks, List.mem_append, ih d (hr.kid hkid) (hd _ hkid)]
      constructor
      · rintro (h | ⟨c, kid', hc, h⟩)
        · exact ⟨id, kid, .refl, hkid, hks, h⟩
        · exact ⟨c, kid', .head hkid hc, h⟩
      · rintro ⟨c, kid', hc, hkid', hks', h⟩
        have hg := ht.grounded hr
        -- The way down to the statement leaves `id` by one part only.
        rcases ReflTransGen.cases_head hc with heq | ⟨next, hnext, hc⟩
        · obtain rfl := Node.stmt.inj heq
          obtain rfl := Node.stmt.inj (ht.singleUse.kids_apart hg hkid' hkid hks' hks)
          exact .inl h
        · obtain rfl := ht.singleUse.kids_apart hg hnext hkid (hc.trans (.head hkid' hks')) hks
          exact .inr ⟨c, kid', hc, hkid', hks', h⟩

theorem inScope_iff : unit.InScope s name ↔ ∃ c kid, .stmt kid ∈ unit.kids (.stmt c) ∧
    unit.Below (.stmt kid) (.stmt s) ∧ name ∈ unit.brings c kid := by
  constructor
  · intro h
    cases h with
    | @declared block a l before after decl hblock ha hl hdecl hname =>
      refine ⟨block, a, by simp [kids_stmt hblock, Stmt.children], ha, ?_⟩
      simp only [brings, hblock, ht.takeWhile_block hblock]
      exact List.mem_flatMap.2 ⟨l, hl, mem_declaredNames.2 ⟨decl, hdecl, hname⟩⟩
    | @init loop body inits updates condition e decl hloop hbody he hdecl hname =>
      refine ⟨loop, body, by simp [kids_stmt hloop, Stmt.children], hbody, ?_⟩
      simp only [brings, hloop]
      exact mem_initNames.2 ⟨e, he, decl, hdecl, hname⟩
    | @element loop body param iterable hloop hbody hname =>
      refine ⟨loop, body, by simp [kids_stmt hloop, Stmt.children], hbody, ?_⟩
      simp only [brings, hloop]
      exact List.mem_singleton.2 hname.symm
  · rintro ⟨c, kid, hkid, hb, hname⟩
    rw [brings] at hname
    split at hname
    · rename_i statements hblock
      have hmem : kid ∈ statements := by simpa [kids_stmt hblock, Stmt.children] using hkid
      obtain ⟨before, after, rfl⟩ := List.append_of_mem hmem
      rw [ht.takeWhile_block hblock] at hname
      obtain ⟨l, hl, hname⟩ := List.mem_flatMap.1 hname
      obtain ⟨decl, hdecl, hname⟩ := mem_declaredNames.1 hname
      exact .declared hblock hb hl hdecl hname
    · rename_i inits condition updates body hloop
      obtain rfl : kid = body := by simpa [kids_stmt hloop, Stmt.children] using hkid
      obtain ⟨e, he, decl, hdecl, hname⟩ := mem_initNames.1 hname
      exact .init hloop hb he hdecl hname
    · rename_i param iterable body hloop
      obtain rfl : kid = body := by simpa [kids_stmt hloop, Stmt.children] using hkid
      exact .element hloop hb (List.mem_singleton.1 hname).symm
    · exact (List.not_mem_nil hname).elim

end Tidy

section Method

variable {t i : Nat} {decl : TypeDecl} {m : Method} {body : StmtId}
  (hdecl : unit.types[t]? = some decl) (hm : decl.methods[i]? = some m) (hbody : m.body = some body)
  (hs : unit.Below (.stmt body) (.stmt s))

include hdecl hm hbody

theorem body_mem_roots : .stmt body ∈ unit.roots :=
  mem_roots_of_method (List.mk_mem_zipIdx_iff_getElem?.2 hdecl)
    (List.mk_mem_zipIdx_iff_getElem?.2 hm) hbody

theorem rooted_methodBody : unit.Rooted (.stmt body) := ⟨_, body_mem_roots hdecl hm hbody, .refl⟩

include hs

/-- The start and the end of a statement are in the method that it is in. -/
theorem Tidy.touches_method (ht : unit.Tidy) :
    (unit.spans (.method t i)).touches (unit.stmtSpan s).start = true ∧
      (unit.spans (.method t i)).touches (unit.stmtSpan s).stop = true := by
  have hin := ht.framed.inMethod (decl, t) (List.mk_mem_zipIdx_iff_getElem?.2 hdecl) (m, i)
    (List.mk_mem_zipIdx_iff_getElem?.2 hm) body hbody
  have hspan := stmtSpan_below ht.arranged (rooted_methodBody hdecl hm hbody) hs
  dsimp only at hin
  simp only [Span.touches, Bool.and_eq_true, decide_eq_true_eq]
  omega

/-- The statements around a statement are in its method, as the body of that is a root. -/
theorem Tidy.body_above (ht : unit.Tidy) {c : StmtId} (hc : unit.Below (.stmt c) (.stmt s)) :
    unit.Below (.stmt body) (.stmt c) := by
  rcases ht.singleUse.below_linear hs hc with hbelow | hbelow
  · exact hbelow
  · exact ht.singleUse.eq_of_below_root (body_mem_roots hdecl hm hbody) hbelow ▸ .refl

/-- Names are visible where a statement starts exactly by lexical scoping. -/
theorem mem_declarationsBefore_iff {draft : CompilationUnit} (hprint : draft.reprint = .ok unit)
    (hu : unit.SingleUse) (name : String) :
    name ∈ unit.declarationsBefore (unit.stmtSpan s).start ↔
      (∃ f ∈ decl.fields, name ∈ f.names) ∨ (∃ p ∈ m.params, p.name = name) ∨
      unit.InScope s name := by
  have ht := tidy_of_reprint hprint hu
  have hr := rooted_methodBody hdecl hm hbody
  rw [ht.framed.declarationsBefore_eq (List.mk_mem_zipIdx_iff_getElem?.2 hdecl)
      (List.mk_mem_zipIdx_iff_getElem?.2 hm) (ht.touches_method hdecl hm hbody hs).1 hbody,
    List.mem_append, List.mem_append, List.mem_flatMap, List.mem_map, or_assoc,
    ht.mem_visibleWithin hs _ hr (ht.grounded hr).height, ht.inScope_iff]
  refine or_congr_right (or_congr_right ⟨?_, ?_⟩)
  · rintro ⟨c, kid, -, h⟩
    exact ⟨c, kid, h⟩
  · rintro ⟨c, kid, hkid, hks, h⟩
    exact ⟨c, kid, ht.body_above hdecl hm hbody hs (.head hkid hks), hkid, hks, h⟩

end Method

end CompilationUnit

namespace Braceless

def number (name : String) : Declaration := ⟨⟨"int", none⟩, [⟨name, none, none⟩]⟩

/-- A method with `int a; for (int i;;) for (int x : xs) if (c) g(); int z; for (int y : zs) {
}`. -/
def unit : CompilationUnit :=
  { CompilationUnit.initial "Main.java" with
    types := [⟨"Main", none, [number "f"], [⟨"run", none, [⟨⟨"int", none⟩, "p", none⟩], some ⟨8⟩⟩]⟩]
    exprs := #[⟨.declare (number "i"), none⟩, .unresolvedName "xs", .unresolvedName "c",
      .unresolvedCall none "g" [], .unresolvedName "zs"]
    stmts := #[.declare (number "a"), .eval ⟨3⟩, .branch ⟨2⟩ ⟨1⟩ none,
      .forEach ⟨⟨"int", none⟩, "x", none⟩ ⟨1⟩ ⟨2⟩, .forLoop [⟨0⟩] none [] ⟨3⟩,
      .declare (number "z"), .block [], .forEach ⟨⟨"int", none⟩, "y", none⟩ ⟨4⟩ ⟨6⟩,
      .block [⟨0⟩, ⟨4⟩, ⟨5⟩, ⟨7⟩]] }

theorem singleUse_unit : unit.SingleUse := by decide

theorem singleUse_print : unit.print.SingleUse :=
  CompilationUnit.singleUse_print_iff.2 singleUse_unit

theorem reprint_unit : unit.reprint = .ok unit.print :=
  singleUse_unit.reprint_eq (singleUse_unit.complete_iff.1 rfl)

theorem below_loop : unit.print.Below (.stmt ⟨4⟩) (.stmt ⟨1⟩) :=
  .head (b := .stmt ⟨3⟩) (by decide) (.head (b := .stmt ⟨2⟩) (by decide) (.single (by decide)))

theorem below_body : unit.print.Below (.stmt ⟨8⟩) (.stmt ⟨1⟩) := .head (by decide) below_loop

/-- The call sees the variables of both loops that have no braces, and not the later local. -/
theorem loop_variables_visible :
    "f" ∈ unit.print.declarationsBefore (unit.print.stmtSpan ⟨1⟩).start ∧
      "p" ∈ unit.print.declarationsBefore (unit.print.stmtSpan ⟨1⟩).start ∧
      "a" ∈ unit.print.declarationsBefore (unit.print.stmtSpan ⟨1⟩).start ∧
      "i" ∈ unit.print.declarationsBefore (unit.print.stmtSpan ⟨1⟩).start ∧
      "x" ∈ unit.print.declarationsBefore (unit.print.stmtSpan ⟨1⟩).start ∧
      ¬ unit.print.InScope ⟨1⟩ "z" := by
  have hvisible := CompilationUnit.mem_declarationsBefore_iff (t := 0) (i := 0) rfl rfl rfl
    below_body reprint_unit singleUse_print
  have hblock : unit.print.stmt? ⟨8⟩ = some (.block ([⟨0⟩] ++ ⟨4⟩ :: [⟨5⟩, ⟨7⟩])) := rfl
  have hlocal : unit.print.stmt? ⟨0⟩ = some (.declare (number "a")) := rfl
  have hcounted : unit.print.stmt? ⟨4⟩ = some (.forLoop [⟨0⟩] none [] ⟨3⟩) := rfl
  have hinit : unit.print.expr? ⟨0⟩ = some (.declare (number "i")) := rfl
  have helement : unit.print.stmt? ⟨3⟩ = some (.forEach ⟨⟨"int", none⟩, "x", none⟩ ⟨1⟩ ⟨2⟩) := rfl
  refine ⟨(hvisible "f").2 (.inl ⟨number "f", by decide, by decide⟩),
    (hvisible "p").2 (.inr (.inl ⟨⟨⟨"int", none⟩, "p", none⟩, by decide, rfl⟩)),
    (hvisible "a").2 (.inr (.inr ?_)), (hvisible "i").2 (.inr (.inr ?_)),
    (hvisible "x").2 (.inr (.inr ?_)), fun hscope => ?_⟩
  · exact .declared hblock below_loop (by decide) hlocal (by decide)
  · exact .init hcounted (.head (b := .stmt ⟨2⟩) (by decide) (.single (by decide)))
      (by decide) hinit (by decide)
  · exact .element helement (.single (by decide)) rfl
  · have hz : "z" ∉ unit.print.declarationsBefore (unit.print.stmtSpan ⟨1⟩).start := by
      decide +kernel
    exact hz ((hvisible "z").2 (.inr (.inr hscope)))

end Braceless
end EnhancedFor
