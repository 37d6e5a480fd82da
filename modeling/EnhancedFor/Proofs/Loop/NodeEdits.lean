import EnhancedFor.Loop.SourceChange
import EnhancedFor.Proofs.Loop.Rewrite
import EnhancedFor.Proofs.Syntax.Spans

/-!
The edit of each step of a conversion, and what all of them make of the text of the types: the text
of the changed tree. The argument goes through the layouts of both units at once; only the changed
nodes need a proof of their own.
-/

namespace EnhancedFor

namespace Chars

theorem byteLength_reverse (cs : Chars) : byteLength cs.reverse = byteLength cs := by
  induction cs with
  | nil => rfl
  | cons c cs ih =>
    rw [List.reverse_cons, byteLength_append, ih, byteLength_cons, byteLength_cons, byteLength_nil]
    omega

end Chars

/-- The text of the new head around that of the iterable. -/
def Header.text (header : Header) (iterable : String) : String :=
  "for (" ++ header.typeText ++ " " ++ header.name ++ " : " ++ iterable ++ ")"

namespace CompilationUnit

open Edit (Revises)

variable {unit : CompilationUnit} {node : Node} {before : Chars}

theorem isEmpty_of_ne_nil {n : Nat} {cs : Chars} (h : cs ≠ []) :
    Span.isEmpty ⟨n, n + cs.byteLength⟩ = false := by
  have := Chars.byteLength_pos h
  simp only [Span.isEmpty, beq_eq_false_iff_ne]
  omega

/-- The last closing parenthesis of a text that ends without another one. -/
theorem lastParen?_append {cs rest : Chars} (h : ')' ∉ rest) :
    lastParen? (cs ++ ')' :: rest) = some cs.byteLength := by
  have htail : (cs ++ ')' :: rest).reverse.takeWhile (· != ')') = rest.reverse := by
    rw [List.reverse_append, List.reverse_cons, List.append_assoc,
      List.takeWhile_append_of_pos fun c hc => ?_]
    · simp
    · have hne : c ≠ ')' := by
        rintro rfl
        exact h (List.mem_reverse.1 hc)
      simpa using hne
  have hlen : (rest.reverse.length == (cs ++ ')' :: rest).length) = false := by
    simp only [List.length_reverse, List.length_append, List.length_cons, beq_eq_false_iff_ne]
    omega
  have hparen : Char.utf8Size ')' = 1 := rfl
  rw [lastParen?, htail, hlen, Chars.byteLength_reverse, Chars.byteLength_append,
    Chars.byteLength_cons, hparen]
  simp only [Bool.false_eq_true, if_false, Option.some.injEq]
  omega

/-- A node that is written out has a span in the text. -/
theorem Shows.requireSpan_eq (node : Node) (level : Nat)
    (hs : unit.Shows before (unit.nodeLayout level node)) (h : unit.Grounded node)
    (hne : (unit.nodeLayout level node).chars ≠ []) :
    unit.requireSpan node = .ok ⟨before.byteLength,
      before.byteLength + (unit.nodeLayout level node).chars.byteLength⟩ := by
  obtain ⟨a, ha⟩ := h.exists_mark level
  obtain ⟨after, htext⟩ := hs.text
  have hstop : before.byteLength + (unit.nodeLayout level node).chars.byteLength ≤
      Text.byteLength unit.text := by
    rw [Text.byteLength, htext, Chars.byteLength_append, Chars.byteLength_append]
    omega
  have hspan : unit.nodeSpan node = ⟨before.byteLength,
      before.byteLength + (unit.nodeLayout level node).chars.byteLength⟩ := by
    rw [ha] at hs ⊢
    exact hs.span_mark
  have hok : (Span.isEmpty ⟨before.byteLength,
      before.byteLength + (unit.nodeLayout level node).chars.byteLength⟩ ||
      decide (before.byteLength + (unit.nodeLayout level node).chars.byteLength >
        Text.byteLength unit.text)) = false := by
    rw [isEmpty_of_ne_nil hne, Bool.false_or, decide_eq_false_iff_not]
    omega
  rw [requireSpan, h.present node .refl, hspan]
  simp [hok]

/-- A deletion starts after the last character before the indentation; a line break there goes
too. -/
theorem lineSpan_eq {cs indent after : Chars} {c : Char} {stop : Nat}
    (htext : unit.text.toList = (cs ++ c :: indent) ++ after)
    (hindent : ∀ d ∈ indent, isIndent d = true) (hc : isIndent c = false)
    (hstop : (cs ++ c :: indent).byteLength ≤ stop) :
    unit.lineSpan ⟨(cs ++ c :: indent).byteLength, stop⟩ =
      .ok ⟨if c = '\n' then cs.byteLength else cs.byteLength + c.utf8Size, stop⟩ := by
  have hline : (cs ++ c :: indent).reverse.dropWhile isIndent = c :: cs.reverse := by
    rw [List.reverse_append, List.reverse_cons, List.append_assoc,
      List.dropWhile_append_of_pos fun d hd => hindent d (List.mem_reverse.1 hd)]
    exact List.dropWhile_cons_of_neg (by simp [hc])
  rw [Chars.byteLength_append, Chars.byteLength_cons] at hstop
  rw [lineSpan, htext, Chars.splitAt?_append]
  simp only [hline, List.head?_cons, Chars.byteLength_cons, Chars.byteLength_reverse]
  by_cases hbreak : c = '\n'
  · subst hbreak
    have hone : Char.utf8Size '\n' = 1 := rfl
    rw [hone] at hstop
    have hstart : 1 + cs.byteLength - 1 = cs.byteLength := by omega
    simp only [beq_self_eq_true, if_true, hone, hstart]
    exact if_pos (by omega)
  · have hhead : (some c == some '\n') = false := by simpa using hbreak
    simp only [hhead, hbreak, Bool.false_eq_true, if_false, Nat.add_comm c.utf8Size]
    exact if_pos (by omega)

theorem isIndent_replicate {n : Nat} : ∀ d ∈ List.replicate n ' ', isIndent d = true := by
  intro d hd
  rw [List.eq_of_mem_replicate hd]
  decide

theorem chars_indent (n : Nat) : (Layout.indent n).chars = List.replicate (4 * n) ' ' :=
  String.toList_ofList

/-- The edit that removes a statement behind a character `c` and an indentation. -/
theorem stepEdit_removed {cs indent : Chars} {c : Char} {s : StmtId} {level : Nat}
    (hg : unit.Grounded (.stmt s))
    (hs : unit.Shows (cs ++ c :: indent) (unit.stmtLayout level s))
    (hindent : ∀ d ∈ indent, isIndent d = true) (hc : isIndent c = false) :
    unit.stepEdit (.removeStatement s) =
      .ok ⟨⟨⟨if c = '\n' then cs.byteLength else cs.byteLength + c.utf8Size,
        (cs ++ c :: indent).byteLength + (unit.stmtLayout level s).chars.byteLength⟩, ""⟩,
        0, 0⟩ := by
  have hspan := Shows.requireSpan_eq (.stmt s) level hs hg (hg.stmtLayout_ne_nil level)
  obtain ⟨after, htext⟩ := hs.text
  rw [List.append_assoc] at htext
  have hline := lineSpan_eq htext hindent hc
    (Nat.le_add_right _ (unit.stmtLayout level s).chars.byteLength)
  rw [stepEdit, hspan]
  simp only [bind, Except.bind]
  rw [show unit.nodeLayout level (.stmt s) = unit.stmtLayout level s from rfl, hline]
  rfl

theorem slice_eq {cs inside after : Chars} (htext : unit.text.toList = cs ++ inside ++ after) :
    unit.slice ⟨cs.byteLength, cs.byteLength + inside.byteLength⟩ = String.ofList inside := by
  rw [slice, Chars.slice?, htext, Chars.cut?_append cs inside after _ rfl rfl]
  rfl

theorem encloses_inside {cs front inside : Chars} {stop : Nat}
    (h : (cs ++ front ++ inside).byteLength ≤ stop) :
    Span.encloses ⟨cs.byteLength, stop⟩
      ⟨(cs ++ front).byteLength, (cs ++ front).byteLength + inside.byteLength⟩ = true := by
  simp only [Chars.byteLength_append, Span.encloses, Bool.and_eq_true, decide_eq_true_eq] at h ⊢
  omega

/-- The closing parenthesis is found before a part of the text that has none. -/
theorem lastParen?_slice {cs head gap after : Chars} (hgap : ')' ∉ gap)
    (htext : unit.text.toList = cs ++ (head ++ ')' :: gap) ++ after) :
    lastParen? (unit.slice ⟨cs.byteLength, (cs ++ (head ++ ')' :: gap)).byteLength⟩).toList =
      some head.byteLength := by
  rw [Chars.byteLength_append, slice_eq htext, String.toList_ofList]
  exact lastParen?_append hgap

/-- The edit of the head, once the spans of loop, body and iterable are known. -/
theorem headerEdit_eq {loop body : StmtId} {header : Header} {head inner span : Span} {close : Nat}
    (hloop : unit.requireSpan (.stmt loop) = .ok span) (hcounted : unit.isCountedLoop loop = true)
    (hbody : unit.requireSpan (.stmt body) = .ok inner) (hinner : span.encloses inner = true)
    (hclose : lastParen? (unit.slice ⟨span.start, inner.start⟩).toList = some close)
    (hiterable : unit.requireSpan (.expr header.iterable.expr) = .ok head)
    (hhead : Span.encloses ⟨span.start, span.start + close + 1⟩ head = true) :
    unit.headerEdit loop header body = .ok ⟨⟨⟨span.start, span.start + close + 1⟩,
      header.text (unit.slice head)⟩, Text.byteLength ("for (" ++ header.typeText ++ " "),
      Text.byteLength header.name⟩ := by
  simp only [headerEdit, hloop, hcounted, hbody, hinner, hclose, hiterable, hhead, bind,
    Except.bind, Bool.not_true, Bool.and_false, Bool.false_eq_true, if_false]
  rfl

/-- A body stands behind blanks, or on a line of its own. -/
theorem Shows.stmtBody {id : StmtId} {level : Nat}
    (hs : unit.Shows before (unit.stmtBody level id)) :
    ∃ gap inner, ')' ∉ gap ∧ unit.Shows (before ++ gap) (unit.stmtLayout inner id) ∧
      (unit.stmtBody level id).chars = gap ++ (unit.stmtLayout inner id).chars := by
  unfold CompilationUnit.stmtBody at hs ⊢
  split at hs
  · rename_i hblock
    rw [if_pos hblock]
    exact ⟨[], level, List.not_mem_nil, by simpa using hs, rfl⟩
  · rename_i hblock
    rw [if_neg hblock]
    refine ⟨(Layout.text "\n" ++ Layout.indent (level + 1)).chars, level + 1, ?_, hs.right, rfl⟩
    rw [Layout.chars_append, chars_indent]
    intro hmem
    rcases List.mem_append.1 hmem with h | h
    · simp at h
    · have := List.eq_of_mem_replicate h
      contradiction

/-- The edit of a step that has one, with the place of its name. -/
def placedName (unit : CompilationUnit) (step : PlanStep) : PlacedName :=
  (unit.stepEdit step).toOption.getD ⟨default, 0, 0⟩

end CompilationUnit

namespace Rewriting

open CompilationUnit Layout
open Edit (Revises)

variable {unit : CompilationUnit} (r : Rewriting unit) {tidy : Prop} {a a' b : Layout}
  {ns : List Node} {level : Nat}

/-- The edit at a changed node. -/
def editAt (n : Node) : Edit := (unit.placedName (r.stepAt n)).edit

theorem editAt_eq {n : Node} {placed : PlacedName}
    (h : unit.stepEdit (r.stepAt n) = .ok placed) : r.editAt n = placed.edit := by
  rw [editAt, placedName, h]
  rfl

/-- The steps at the nodes have edits, and these turn the first layout into the second. In a unit
that is not tidy the new text may be another one. -/
def Converts (tidy : Prop) (a : Layout) (ns : List Node) (a' : Layout) : Prop :=
  ∀ before, unit.Shows before a →
    (∀ n ∈ ns, ∃ placed, unit.stepEdit (r.stepAt n) = .ok placed ∧
      placed.edit.span.isEmpty = false) ∧
    ∃ new, Revises before.byteLength a.chars (ns.map r.editAt) new ∧ (tidy → new = a'.chars)

variable {r}

theorem Converts.keep (h : a.chars = a'.chars) : r.Converts tidy a [] a' :=
  fun _ _ => ⟨fun _ hn => (List.not_mem_nil hn).elim, _, .keep _ _, fun _ => h⟩

theorem Converts.congr (h : r.Converts tidy a ns a') (heq : tidy → a'.chars = b.chars) :
    r.Converts tidy a ns b := by
  intro before hs
  obtain ⟨hns, new, hnew, hchars⟩ := h before hs
  exact ⟨hns, new, hnew, fun ht => (hchars ht).trans (heq ht)⟩

theorem Converts.append {b' : Layout} {ms : List Node} (ha : r.Converts tidy a ns a')
    (hb : r.Converts tidy b ms b') : r.Converts tidy (a ++ b) (ns ++ ms) (a' ++ b') := by
  intro before hs
  obtain ⟨hns, new, hnew, heq⟩ := ha before hs.left
  obtain ⟨hms, new', hnew', heq'⟩ := hb _ hs.right
  refine ⟨fun n hn => (List.mem_append.1 hn).elim (hns n) (hms n), new ++ new', ?_, fun ht => ?_⟩
  · rw [List.map_append]
    rw [Chars.byteLength_append] at hnew'
    exact hnew.append hnew'
  · rw [heq ht, heq' ht]
    rfl

theorem Converts.mark (m m' : Mark) (h : r.Converts tidy a ns a') :
    r.Converts tidy (.mark m a) ns (.mark m' a') :=
  fun before hs => h before hs.inner

theorem compositional_converts : Compositional (r.Converts tidy) where
  text _ := .keep rfl
  append := Converts.append
  mark _ h := h.mark _ _

/-- A layout with one changed node. -/
theorem Converts.single {n : Node} (h : ∀ before, unit.Shows before a →
    ∃ placed new, unit.stepEdit (r.stepAt n) = .ok placed ∧ placed.edit.span.isEmpty = false ∧
      Revises before.byteLength a.chars [placed.edit] new ∧ (tidy → new = a'.chars)) :
    r.Converts tidy a [n] a' := by
  intro before hs
  obtain ⟨placed, new, hok, hne, hrevises, heq⟩ := h before hs
  refine ⟨fun m hm => ?_, new, ?_, heq⟩
  · obtain rfl := List.mem_singleton.1 hm
    exact ⟨placed, hok, hne⟩
  · rw [List.map_singleton, r.editAt_eq hok]
    exact hrevises

/-- A call is written over with the name. -/
theorem converts_replaced {e : ExprId} (hg : unit.Grounded (.expr e)) (he : e ∈ r.replaced) :
    r.Converts tidy (unit.exprLayout e) [.expr e] (.text r.header.name) := by
  have hne : (unit.exprLayout e).chars ≠ [] := by
    obtain ⟨receiver, name, args, binding, hcall⟩ := r.replaced_call e he
    rw [hg.exprLayout_eq hcall]
    simp [exprShape]
  refine .single fun before hs => ?_
  refine ⟨⟨⟨_, r.header.name⟩, 0, Text.byteLength r.header.name⟩, _, ?_, isEmpty_of_ne_nil hne,
    Revises.swap _ _ _, fun _ => rfl⟩
  rw [stepAt, stepEdit, Shows.requireSpan_eq (.expr e) 0 hs hg hne]
  rfl

theorem stepAt_removed (hu : unit.SingleUse) (hc : unit.Complete) {s : StmtId}
    (hs : s ∈ r.removed) : r.stepAt (.stmt s) = .removeStatement s := by
  refine if_neg ?_
  rintro rfl
  exact r.loop_not_removed hu hc hs

/-- A statement that goes takes its indentation and the line break before it along. -/
theorem converts_removed_line (hu : unit.SingleUse) (hc : unit.Complete) {s : StmtId}
    (hs : s ∈ r.removed) (level : Nat) :
    r.Converts tidy (unit.stmtLine level s) [.stmt s] .empty := by
  have hg := hu.grounded hc (r.rooted_of_mem_nodes (r.removed_mem hs))
  refine .single fun before hshows => ?_
  have hlead : (Layout.text "\n" ++ indent (level + 1)).chars =
      '\n' :: List.replicate (4 * (level + 1)) ' ' := by
    rw [chars_append, chars_indent]
    rfl
  have hstmt : unit.Shows _ (unit.stmtLayout (level + 1) s) := hshows.right
  rw [hlead] at hstmt
  have hedit := stepEdit_removed hg hstmt isIndent_replicate (by decide)
  rw [if_pos rfl] at hedit
  have hchars : (unit.stmtLine level s).chars =
      ('\n' :: List.replicate (4 * (level + 1)) ' ') ++ (unit.stmtLayout (level + 1) s).chars := by
    rw [← hlead]
    rfl
  have hstop : (before ++ '\n' :: List.replicate (4 * (level + 1)) ' ').byteLength +
      (unit.stmtLayout (level + 1) s).chars.byteLength =
      before.byteLength + (unit.stmtLine level s).chars.byteLength := by
    rw [hchars, Chars.byteLength_append, Chars.byteLength_append, Nat.add_assoc]
  rw [hstop] at hedit
  refine ⟨_, _, (congrArg unit.stepEdit (stepAt_removed hu hc hs)).trans hedit, ?_,
    Revises.swap _ _ "", fun _ => rfl⟩
  refine isEmpty_of_ne_nil ?_
  rw [hchars]
  exact List.cons_ne_nil _ _

/-- The body of a method that goes takes the blank before it along. -/
theorem converts_removed_body (hu : unit.SingleUse) (hc : unit.Complete) {s : StmtId}
    (hs : s ∈ r.removed) (htidy : ¬ tidy) :
    r.Converts tidy (unit.bodyLayout (some s)) [.stmt s] a' := by
  have hg := hu.grounded hc (r.rooted_of_mem_nodes (r.removed_mem hs))
  refine .single fun before hshows => ?_
  have hstmt : unit.Shows ((before ++ [')']) ++ [' ']) (unit.stmtLayout 1 s) := hshows.right.right
  rw [List.append_assoc, List.singleton_append] at hstmt
  have hindent : ∀ d ∈ List.replicate 1 ' ', isIndent d = true := isIndent_replicate
  have hedit := stepEdit_removed hg hstmt hindent (by decide)
  rw [if_neg (by decide)] at hedit
  have hparen : Char.utf8Size ')' = 1 := rfl
  have hswap := Revises.swap (before.byteLength + 1) (' ' :: (unit.stmtLayout 1 s).chars) ""
  have hrevises := Revises.pad (n := before.byteLength) [')'] hswap
  have hstop : (before ++ ')' :: [' ']).byteLength + (unit.stmtLayout 1 s).chars.byteLength =
      before.byteLength + 1 + Chars.byteLength (' ' :: (unit.stmtLayout 1 s).chars) := by
    rw [Chars.byteLength_append]
    simp only [Chars.byteLength_cons, Chars.byteLength_nil, hparen]
    omega
  rw [hstop] at hedit
  exact ⟨_, _, (congrArg unit.stepEdit (stepAt_removed hu hc hs)).trans hedit,
    isEmpty_of_ne_nil (List.cons_ne_nil _ _), hrevises, fun ht => (htidy ht).elim⟩

/-- The head of the loop as it was. -/
def oldHead (r : Rewriting unit) : Layout :=
  countedHead unit.exprLayout r.inits r.condition r.updates

/-- The iterable is written in the old head. -/
theorem exists_part_oldHead (hu : unit.SingleUse) (hc : unit.Complete) :
    ∃ pre, (unit.exprLayout r.header.iterable.expr).Part r.oldHead pre := by
  have hparts : ∀ n ∈ (r.inits ++ r.condition.toList ++ r.updates).flatMap
      (fun e => unit.subtree (.expr e)), ∃ l pre, (∃ inner, l = unit.nodeLayout inner n) ∧
        l.Part r.oldHead pre :=
    @countedHead_rel _ (compositional_part _) unit.exprLayout unit.exprLayout unit.subtree _ _ _
      fun e he => (hu.grounded hc (r.rooted.kid (r.head_mem he))).part_nodeLayout 0
  obtain ⟨e, he, hb⟩ := r.fromHead
  have hhead : e ∈ r.inits ++ r.condition.toList ++ r.updates := by simp [he]
  have hg := hu.grounded hc (r.rooted.kid (r.head_mem hhead))
  obtain ⟨_, pre, ⟨_, rfl⟩, hp⟩ := hparts (.expr r.header.iterable.expr)
    (List.mem_flatMap.2 ⟨e, hhead, hg.mem_subtree.2 hb⟩)
  exact ⟨pre, hp⟩

theorem grounded_iterable (hu : unit.SingleUse) (hc : unit.Complete) :
    unit.Grounded (.expr r.header.iterable.expr) := by
  obtain ⟨e, he, hb⟩ := r.fromHead
  exact hu.grounded hc ((r.rooted.kid (r.head_mem (by simp [he]))).below hb)

/-- The edit of the loop replaces its head up to the closing parenthesis. -/
theorem stepEdit_loop (hu : unit.SingleUse) (hc : unit.Complete) {before : Chars}
    (hshows : unit.Shows before (unit.stmtLayout level r.loop))
    (hne : (unit.exprLayout r.header.iterable.expr).chars ≠ []) :
    unit.stepEdit (r.stepAt (.stmt r.loop)) = .ok
      ⟨⟨⟨before.byteLength, before.byteLength + (r.oldHead.chars ++ [')']).byteLength⟩,
        r.header.text (String.ofList (unit.exprLayout r.header.iterable.expr).chars)⟩,
        Text.byteLength ("for (" ++ r.header.typeText ++ " "),
        Text.byteLength r.header.name⟩ := by
  have hg := hu.grounded hc r.rooted
  have hlayout : unit.stmtLayout level r.loop = .mark (.stmt r.loop)
      (r.oldHead ++ .text ") " ++ unit.stmtBody level r.body) := hg.stmtLayout_eq r.isLoop
  have hspan := Shows.requireSpan_eq (.stmt r.loop) level hshows hg (hg.stmtLayout_ne_nil level)
  rw [hlayout] at hshows
  obtain ⟨gap, inner, hgap, hbody, hchars⟩ := hshows.inner.right.stmtBody
  have hbodySpan := Shows.requireSpan_eq (.stmt r.body) inner hbody (hg.kid r.body_mem)
    ((hg.kid r.body_mem).stmtLayout_ne_nil inner)
  obtain ⟨pre, hpart⟩ := r.exists_part_oldHead hu hc
  have hpartShows := hshows.inner.left.left.part hpart
  have hiterable := Shows.requireSpan_eq (.expr r.header.iterable.expr) 0 hpartShows
    (grounded_iterable hu hc) hne
  have hclosing : (r.oldHead ++ .text ") ").chars = r.oldHead.chars ++ [')', ' '] := rfl
  have hfront : before ++ (r.oldHead ++ .text ") ").chars ++ gap =
      before ++ (r.oldHead.chars ++ ')' :: ' ' :: gap) := by
    rw [hclosing]
    simp only [List.append_assoc, List.cons_append, List.nil_append]
  rw [hfront] at hbody hbodySpan
  have hinner : Span.encloses
      ⟨before.byteLength, before.byteLength +
        (unit.nodeLayout level (.stmt r.loop)).chars.byteLength⟩
      ⟨(before ++ (r.oldHead.chars ++ ')' :: ' ' :: gap)).byteLength,
        (before ++ (r.oldHead.chars ++ ')' :: ' ' :: gap)).byteLength +
          (unit.nodeLayout inner (.stmt r.body)).chars.byteLength⟩ = true := by
    refine encloses_inside (Nat.le_of_eq ?_)
    rw [← hfront, nodeLayout, nodeLayout, hlayout, ← Chars.byteLength_append]
    simp only [chars_mark, chars_append, hchars, List.append_assoc]
  have hclose : lastParen? (unit.slice ⟨before.byteLength,
      (before ++ (r.oldHead.chars ++ ')' :: ' ' :: gap)).byteLength⟩).toList =
      some r.oldHead.chars.byteLength := by
    obtain ⟨after, htext⟩ := hbody.text
    rw [List.append_assoc] at htext
    exact lastParen?_slice (by simpa using hgap) htext
  have hhead : Span.encloses
      ⟨before.byteLength, before.byteLength + r.oldHead.chars.byteLength + 1⟩
      ⟨(before ++ pre).byteLength, (before ++ pre).byteLength +
        (unit.nodeLayout 0 (.expr r.header.iterable.expr)).chars.byteLength⟩ = true := by
    obtain ⟨post, hpost⟩ := hpart.chars_eq
    refine encloses_inside ?_
    simp only [nodeLayout, hpost, Chars.byteLength_append]
    omega
  have hcounted : unit.isCountedLoop r.loop = true := by rw [isCountedLoop, r.isLoop]
  have hedit := headerEdit_eq hspan hcounted hbodySpan hinner hclose hiterable hhead
  obtain ⟨after, htext⟩ := hpartShows.text
  have hparen : Chars.byteLength [')'] = 1 := rfl
  rw [stepAt, if_pos rfl, stepEdit, hedit, nodeLayout, slice_eq htext, Chars.byteLength_append,
    hparen, Nat.add_assoc]

/-- The layout of the new head, with its closing parenthesis and the blank after it. -/
def newHead (r : Rewriting unit) (iterable : Layout) : Layout :=
  .text "for (" ++ paramLayout (.forEach r.loop)
    ⟨⟨r.header.typeText, some r.header.elementType⟩, r.header.name, none⟩ ++ .text " : " ++
      iterable ++ .text ") "

theorem chars_newHead (iterable : Layout) : (r.newHead iterable).chars =
    (r.header.text (String.ofList iterable.chars)).toList ++ [' '] := by
  have hend : ") ".toList = ")".toList ++ [' '] := rfl
  simp only [newHead, paramLayout, typeRefLayout, chars_append, chars_mark, chars_text, Header.text,
    String.toList_append, String.toList_ofList, List.append_assoc, hend]

/-- The loop gets its new head, and its body what the body gets. -/
theorem converts_loop (hu : unit.SingleUse) (hc : unit.Complete) {iterable body : Layout}
    (hne : (unit.exprLayout r.header.iterable.expr).chars ≠ [])
    (hiterable : r.Converts tidy (unit.exprLayout r.header.iterable.expr) [] iterable)
    (hbody : r.Converts tidy (unit.stmtBody level r.body) ns body) :
    r.Converts tidy (unit.stmtLayout level r.loop) (.stmt r.loop :: ns)
      (r.newHead iterable ++ body) := by
  intro before hshows
  have hedit := stepEdit_loop hu hc hshows hne
  have hlayout : unit.stmtLayout level r.loop = .mark (.stmt r.loop)
      (r.oldHead ++ .text ") " ++ unit.stmtBody level r.body) :=
    (hu.grounded hc r.rooted).stmtLayout_eq r.isLoop
  rw [hlayout] at hshows ⊢
  obtain ⟨pre, hpart⟩ := r.exists_part_oldHead hu hc
  obtain ⟨-, same, hsame, hsameEq⟩ := hiterable _ (hshows.inner.left.left.part hpart)
  obtain ⟨hns, new, hnew, hnewEq⟩ := hbody _ hshows.inner.right
  refine ⟨fun n hn => ?_, (r.header.text (String.ofList
    (unit.exprLayout r.header.iterable.expr).chars)).toList ++ ([' '] ++ new), ?_, fun ht => ?_⟩
  · rcases List.mem_cons.1 hn with rfl | hn
    · exact ⟨_, hedit, isEmpty_of_ne_nil (List.append_ne_nil_of_right_ne_nil _ (by simp))⟩
    · exact hns n hn
  · have hclosing : (r.oldHead ++ .text ") ").chars = (r.oldHead.chars ++ [')']) ++ [' '] := by
      rw [List.append_assoc]
      rfl
    rw [hclosing, Chars.byteLength_append, Chars.byteLength_append, ← Nat.add_assoc] at hnew
    have hall := (Revises.swap before.byteLength (r.oldHead.chars ++ [')'])
      (r.header.text (String.ofList (unit.exprLayout r.header.iterable.expr).chars))).append
      (hnew.pad [' '])
    rw [chars_mark, chars_append, hclosing, List.append_assoc _ [' '], List.map_cons,
      r.editAt_eq hedit]
    exact hall
  · rw [chars_append, chars_newHead, ← hnewEq ht, ← hsameEq ht, hsame.eq_of_nil, List.append_assoc]

/-- The layout of a block without some of its lines. -/
theorem chars_concat_filter (removed : List StmtId) (line : StmtId → Layout) (xs : List StmtId) :
    (concat (xs.map fun t => if t ∈ removed then .empty else line t)).chars =
      (concat ((xs.filter (!removed.contains ·)).map line)).chars := by
  induction xs with
  | nil => rfl
  | cons t xs ih =>
    have hcons (a : Layout) (as : List Layout) :
        (concat (a :: as)).chars = a.chars ++ (concat as).chars := rfl
    by_cases ht : t ∈ removed
    · have hfilter : (t :: xs).filter (!removed.contains ·) = xs.filter (!removed.contains ·) :=
        List.filter_cons_of_neg (by simp [ht])
      rw [hfilter, ← ih, List.map_cons, hcons, if_pos ht]
      rfl
    · have hfilter : (t :: xs).filter (!removed.contains ·) =
          t :: xs.filter (!removed.contains ·) := List.filter_cons_of_pos (by simp [ht])
      rw [hfilter, List.map_cons, hcons, List.map_cons, hcons, if_neg ht, ih]

theorem chars_stmtShape_without (removed : List StmtId) (expr : ExprId → Layout)
    (line body : StmtId → Layout) (id : StmtId) (s : Stmt) :
    (stmtShape expr (fun t => if t ∈ removed then .empty else line t) body level id s).chars =
      (stmtShape expr line body level id (s.without removed)).chars := by
  cases s with
  | block statements =>
    simp only [stmtShape, Stmt.without, chars_append, chars_concat_filter]
  | _ => rfl

section

variable {imports : List Import} (hu : unit.SingleUse) (hc : unit.Complete)

include hu hc

/-- The edits give each expression its text in the changed tree. -/
theorem converts_expr {e : ExprId} (h : unit.Grounded (.expr e)) :
    r.Converts tidy (unit.exprLayout e) (r.touched (.expr e))
      ((r.rewrite imports).exprLayout e) := by
  generalize hn : Node.expr e = n at h
  induction h using Grounded.rec_kids generalizing e with
  | step n h ih =>
    subst hn
    obtain ⟨x, hx⟩ := h.exists_expr
    have hnew := r.expr?_rewrite imports e
    rw [hx, Option.map_some] at hnew
    have hother := (r.grounded_rewrite imports h).exprLayout_eq hnew
    by_cases he : e ∈ r.replaced
    · rw [if_pos he] at hother
      rw [hother, r.touched_replaced hu hc he]
      exact converts_replaced h he
    · have hnodes : .expr e ∉ r.nodes := fun hmem => by
        obtain ⟨e', he', heq⟩ := r.exists_replaced hmem .refl
        exact he (Node.expr.inj heq ▸ he')
      rw [if_neg he] at hother
      rw [hother, h.exprLayout_eq hx, r.touched_of_not_mem h hnodes, kids_expr hx,
        List.flatMap_map]
      rw [kids_expr hx] at ih
      exact (exprShape_rel compositional_converts e fun c hc =>
        ih (.expr c) (List.mem_map_of_mem hc) rfl).mark _ _

/-- The iterable stays as it is. -/
theorem converts_iterable : r.Converts tidy (unit.exprLayout r.header.iterable.expr) []
    ((r.rewrite imports).exprLayout r.header.iterable.expr) := by
  obtain ⟨e, he, hb⟩ := r.fromHead
  have hnil : r.touched (.expr r.header.iterable.expr) = [] :=
    r.touched_eq_nil (grounded_iterable hu hc) fun m hm hbelow =>
      r.not_below_head hu hc (by simp [he]) hm (hb.trans hbelow)
  exact hnil ▸ converts_expr hu hc (grounded_iterable hu hc)

end

/-- A statement that goes and is no part of a block is the declaration outside the loop. -/
theorem bare_of_not_inBlock {s : StmtId} (hs : s ∈ r.removed)
    (hno : ∀ block, ¬ unit.InBlock block s) : unit.BareDeclaration r.body s :=
  (r.removed_cases s hs).resolve_left (hno r.body)

theorem not_inBlock_of_kid (hu : unit.SingleUse) {s t : StmtId} {x : Stmt}
    (hx : unit.stmt? s = some x) (hblock : x.isBlock = false) (ht : .stmt t ∈ unit.kids (.stmt s))
    (block : StmtId) : ¬ unit.InBlock block t := by
  intro hin
  obtain rfl := Node.stmt.inj (hu.parent_unique hin.mem_kids ht)
  obtain ⟨statements, hstatements, -⟩ := hin
  rw [hx] at hstatements
  obtain rfl := Option.some.inj hstatements
  simp [Stmt.isBlock] at hblock

/-- Blocks stay blocks. -/
theorem isBlock_rewrite {imports : List Import} (s : StmtId) :
    ((r.rewrite imports).stmt? s).any Stmt.isBlock = (unit.stmt? s).any Stmt.isBlock := by
  rw [r.stmt?_rewrite imports, Option.any_map]
  cases hs : unit.stmt? s with
  | none => rfl
  | some x =>
    by_cases hloop : s = r.loop
    · rw [hloop, r.isLoop] at hs
      obtain rfl := Option.some.inj hs
      simp [hloop, Header.toStmt, Stmt.isBlock]
    · simp only [hloop, if_false, Option.any_some]
      cases x <;> rfl

section

variable {imports : List Import} (hu : unit.SingleUse) (hc : unit.Complete)
  (hne : (unit.exprLayout r.header.iterable.expr).chars ≠ [])
  (htidy : tidy → ∀ s ∈ r.removed, ∃ block, unit.InBlock block s)

include hu hc htidy

/-- The body of a statement, from what holds for it as a statement. -/
theorem converts_body {s t : StmtId} {x : Stmt} (hx : unit.stmt? s = some x)
    (hblock : x.isBlock = false) (ht : .stmt t ∈ unit.kids (.stmt s))
    (h : t ∉ r.removed → ∀ level, r.Converts tidy (unit.stmtLayout level t) (r.touched (.stmt t))
      ((r.rewrite imports).stmtLayout level t)) (level : Nat) :
    r.Converts tidy (unit.stmtBody level t) (r.touched (.stmt t))
      ((r.rewrite imports).stmtBody level t) := by
  by_cases hremoved : t ∈ r.removed
  · -- Without a block around it the statement leaves no text where another one is expected.
    have hno := not_inBlock_of_kid hu hx hblock ht
    obtain ⟨type, name, binding, hdecl⟩ := (bare_of_not_inBlock hremoved hno).declares
    have hnot : ¬ tidy := fun h => by
      obtain ⟨block, hin⟩ := htidy h t hremoved
      exact hno block hin
    have hline : unit.stmtBody level t = unit.stmtLine level t := by
      rw [CompilationUnit.stmtBody, hdecl]
      rfl
    rw [hline, r.touched_removed hu hc hremoved]
    exact (converts_removed_line hu hc hremoved level).congr fun h => (hnot h).elim
  · unfold CompilationUnit.stmtBody
    rw [isBlock_rewrite]
    split
    · exact h hremoved level
    · exact lineLayout_rel compositional_converts (level + 1) (h hremoved (level + 1))

include hne

/-- The edits give each statement that stays its text in the changed tree. -/
theorem converts_stmt {s : StmtId} (h : unit.Grounded (.stmt s)) (hs : s ∉ r.removed)
    (level : Nat) :
    r.Converts tidy (unit.stmtLayout level s) (r.touched (.stmt s))
      ((r.rewrite imports).stmtLayout level s) := by
  generalize hn : Node.stmt s = n at h
  induction h using Grounded.rec_kids generalizing s level with
  | step n h ih =>
    subst hn
    obtain ⟨x, hx⟩ := h.exists_stmt
    have hnew := r.stmt?_rewrite imports s
    rw [hx, Option.map_some] at hnew
    have hother : (r.rewrite imports).stmtLayout level s = _ :=
      (r.grounded_rewrite imports h).stmtLayout_eq hnew
    have hkid (t : StmtId) (ht : .stmt t ∈ unit.kids (.stmt s)) (hstays : t ∉ r.removed)
        (inner : Nat) : r.Converts tidy (unit.stmtLayout inner t) (r.touched (.stmt t))
          ((r.rewrite imports).stmtLayout inner t) := ih (.stmt t) ht hstays inner rfl
    have hbody (hblock : x.isBlock = false) (t : StmtId) (ht : .stmt t ∈ unit.kids (.stmt s)) :=
      converts_body hu hc htidy hx hblock ht (hkid t ht) level
    by_cases hloop : s = r.loop
    · subst hloop
      rw [if_pos rfl] at hother
      obtain rfl := Option.some.inj (hx.symm.trans r.isLoop)
      rw [hother, r.touched_loop hu hc]
      exact converts_loop hu hc hne (converts_iterable hu hc) (hbody rfl _ r.body_mem)
    · have hnodes : .stmt s ∉ r.nodes := fun hmem => by
        rcases r.mem_nodes.1 hmem with heq | ⟨t, ht, heq⟩ | ⟨e, -, heq⟩
        · exact hloop (Node.stmt.inj heq)
        · exact hs (Node.stmt.inj heq ▸ ht)
        · contradiction
      rw [if_neg hloop] at hother
      rw [kids_stmt hx] at hkid hbody
      have hline (t : StmtId) (ht : .stmt t ∈ x.children) :
          r.Converts tidy (unit.stmtLine level t) (r.touched (.stmt t))
            (if t ∈ r.removed then .empty else (r.rewrite imports).stmtLine level t) := by
        split
        · rename_i hremoved
          rw [r.touched_removed hu hc hremoved]
          exact converts_removed_line hu hc hremoved level
        · rename_i hstays
          exact lineLayout_rel compositional_converts (level + 1) (hkid t ht hstays (level + 1))
      have hexpr (e : ExprId) (he : .expr e ∈ x.children) :
          r.Converts tidy (unit.exprLayout e) (r.touched (.expr e))
            ((r.rewrite imports).exprLayout e) :=
        converts_expr hu hc (h.kid (kids_stmt hx ▸ he))
      have hshape := stmtShape_rel compositional_converts level s hexpr (fun _ => hline) hbody
      rw [hother, h.stmtLayout_eq hx, r.touched_of_not_mem h hnodes, kids_stmt hx]
      exact (hshape.congr fun _ => chars_stmtShape_without ..).mark _ _

/-- The edits turn the text of the types into that of the changed unit. -/
theorem converts_types : r.Converts tidy unit.typesLayout (unit.textRoots.flatMap r.touched)
    (r.rewrite imports).typesLayout := by
  have hground (decl : TypeDecl) (hdecl : decl ∈ unit.types) (n : Node) (hn : n ∈ decl.roots) :
      unit.Grounded n :=
    hu.grounded hc ⟨n, mem_textRoots.1 (List.mem_flatMap.2 ⟨decl, hdecl, hn⟩), .refl⟩
  rw [textRoots, List.flatMap_assoc]
  refine typesLayout_rel compositional_converts rfl (fun decl hdecl f hf e he => ?_)
    fun decl hdecl m hm => ?_
  · exact converts_expr hu hc (hground decl hdecl _ (List.mem_append_left _
      (List.mem_map_of_mem (List.mem_flatMap.2 ⟨f, hf, he⟩))))
  · cases hbody : m.body with
    | none => exact .keep rfl
    | some s =>
      have hroot : .stmt s ∈ decl.roots := List.mem_append_right _ (List.mem_map_of_mem
        (List.mem_filterMap.2 ⟨m, hm, hbody⟩))
      rw [Option.toList_some, List.flatMap_singleton]
      by_cases hs : s ∈ r.removed
      · have hnot : ¬ tidy := fun h => by
          obtain ⟨block, hin⟩ := htidy h s hs
          exact hu.not_mem_roots hin.mem_kids
            (mem_textRoots.1 (List.mem_flatMap.2 ⟨decl, hdecl, hroot⟩))
        rw [r.touched_removed hu hc hs]
        exact converts_removed_body hu hc hs hnot
      · have hstmt : r.Converts tidy (unit.stmtLayout 1 s) _ ((r.rewrite imports).stmtLayout 1 s) :=
          converts_stmt hu hc hne htidy (hground decl hdecl _ hroot) hs 1
        exact compositional_converts.plain_append (.keep rfl)
          (compositional_converts.plain_append (.keep rfl) hstmt)

end

end Rewriting
end EnhancedFor
