import EnhancedFor.Proofs.Syntax.UnitPrinting
import EnhancedFor.Proofs.Syntax.PreOrder

/-!
What a print changes. Nodes may stand at several places here, as long as they refer to earlier ones;
a part that is laid out more than once has the span of one of its places. Main statement: a print
gives a unit the text of its layout and gives spans to the parts that are laid out, it looks at no
text and no span, and printing again changes nothing.
-/

namespace EnhancedFor

namespace Layout

variable {l : Layout} {m : Mark}

theorem exists_placed {n : Nat} : (∃ s, (m, s) ∈ l.placed n) ↔ m ∈ l.allMarks := by
  constructor
  · rintro ⟨s, hs⟩
    exact mem_marked_of_placed hs rfl
  · intro h
    induction l generalizing n with
    | text _ => exact (List.not_mem_nil h).elim
    | append a b iha ihb =>
      rcases List.mem_append.1 h with h | h
      · obtain ⟨s, hs⟩ := iha (n := n) h
        exact ⟨s, List.mem_append_right _ hs⟩
      · obtain ⟨s, hs⟩ := ihb (n := n + a.chars.byteLength) h
        exact ⟨s, List.mem_append_left _ hs⟩
    | mark m' inner ih =>
      rcases List.mem_cons.1 h with rfl | h
      · exact ⟨_, List.mem_cons_self⟩
      · obtain ⟨s, hs⟩ := ih (n := n) h
        exact ⟨s, List.mem_cons_of_mem _ hs⟩

theorem exists_lookup {n : Nat} (h : m ∈ l.allMarks) :
    ∃ s, (l.placed n).lookup m = some s ∧ (m, s) ∈ l.placed n := by
  obtain ⟨s, hs⟩ := exists_placed.2 h
  have hsome : ((l.placed n).lookup m).isSome = true :=
    List.lookup_isSome_iff.2 ⟨(m, s), hs, by simp⟩
  obtain ⟨last, hlast⟩ := Option.isSome_iff_exists.1 hsome
  obtain ⟨later, earlier, heq, -⟩ := List.lookup_eq_some_iff.1 hlast
  exact ⟨last, hlast, heq ▸ List.mem_append_right _ List.mem_cons_self⟩

/-- A mark is placed at a part of the layout that carries it. -/
theorem part_of_placed {n : Nat} {s : Span} (h : (m, s) ∈ l.placed n) : ∃ inner pre,
    (mark m inner).Part l pre ∧
      s = ⟨n + pre.byteLength, n + pre.byteLength + inner.chars.byteLength⟩ := by
  induction l generalizing n with
  | text _ => exact (List.not_mem_nil h).elim
  | append a b iha ihb =>
    rcases List.mem_append.1 h with h | h
    · obtain ⟨inner, pre, hp, rfl⟩ := ihb h
      refine ⟨inner, _, .right hp, ?_⟩
      rw [Chars.byteLength_append, Nat.add_assoc n]
    · obtain ⟨inner, pre, hp, rfl⟩ := iha h
      exact ⟨inner, pre, .left hp, rfl⟩
  | mark m' inner ih =>
    rcases List.mem_cons.1 h with heq | h
    · obtain ⟨rfl, rfl⟩ := Prod.mk.inj heq
      exact ⟨inner, [], .here, rfl⟩
    · obtain ⟨inner', pre, hp, rfl⟩ := ih h
      exact ⟨inner', pre, .inner hp, rfl⟩

end Layout

namespace CompilationUnit

variable {unit : CompilationUnit} {m : Mark}

theorem spans_print_of_not_mem (h : m ∉ unit.layout.allMarks) :
    unit.print.spans m = unit.spans m := by
  rw [print_eq_retexted]
  exact Layout.spansFrom_of_not_mem h

/-- What is laid out has its span from the layout alone. -/
theorem spans_print_of_mem (h : m ∈ unit.layout.allMarks) :
    (m, unit.print.spans m) ∈ unit.layout.placed 0 ∧
      ∀ text spans, (unit.retexted text spans).print.spans m = unit.print.spans m := by
  obtain ⟨s, hs, hplaced⟩ := Layout.exists_lookup (n := 0) h
  have hspan (text : String) (spans : Mark → Span) :
      (unit.retexted text spans).print.spans m = s := by
    rw [print_eq_retexted, layout_retexted]
    show ((unit.layout.placed 0).lookup m).getD _ = s
    rw [hs]
    rfl
  have hself : unit.print.spans m = s := hspan unit.text unit.spans
  exact ⟨hself ▸ hplaced, fun text spans => by rw [hspan, hself]⟩

/-- Cells with the same spans are the same. -/
theorem getElem?_exprCells_congr {id : ExprId} {f g : Mark → Span}
    (h : ∀ slot, f (ExprSlot.mark id slot) = g (slot.mark id)) :
    (unit.exprCells f)[id.index]? = (unit.exprCells g)[id.index]? := by
  rw [exprCells, exprCells, Array.getElem?_mapIdx, Array.getElem?_mapIdx]
  exact congrArg (fun spans => unit.exprs[id.index]?.map fun node => Ranged.mk node spans)
    (funext h)

theorem getElem?_stmtCells_congr {id : StmtId} {f g : Mark → Span}
    (h : ∀ slot, f (StmtSlot.mark id slot) = g (slot.mark id)) :
    (unit.stmtCells f)[id.index]? = (unit.stmtCells g)[id.index]? := by
  rw [stmtCells, stmtCells, Array.getElem?_mapIdx, Array.getElem?_mapIdx]
  exact congrArg (fun spans => unit.stmts[id.index]?.map fun s => Ranged.mk s spans) (funext h)

theorem print_print : unit.print.print = unit.print := by
  have hspans : unit.print.print.spans = unit.print.spans := by
    funext m
    show (unit.print.layout.marks.lookup m).getD
      ((unit.layout.marks.lookup m).getD (unit.spans m)) =
      (unit.layout.marks.lookup m).getD (unit.spans m)
    rw [layout_print]
    cases unit.layout.marks.lookup m <;> rfl
  have htext : unit.print.print.text = unit.print.text := congrArg Layout.toText layout_print
  show unit.retexted unit.print.print.text unit.print.print.spans = _
  rw [hspans, htext]
  rfl

namespace Backward

/-- For every unit whose nodes refer to earlier ones, shared or not, and are all there: printing it
in place ends, and only text and spans change. The text is that of the layout. A part that is
printed has the span of a place that the layout has for it, and all others keep theirs; the cells of
nodes in no tree are as before. Neither the new text nor a span of a printed part depends on the old
text and spans, and printing again changes nothing. -/
theorem reprint_stable (h : unit.Backward) (hc : unit.Complete) :
    ∃ printed : CompilationUnit, unit.arena.print = .ok printed.arena ∧ unit.reprint = .ok printed ∧
      printed = unit.retexted printed.text printed.spans ∧ printed.text = unit.layout.toText ∧
      (∀ m, unit.HasMark m → ∃ inner pre, (Layout.mark m inner).Part unit.layout pre ∧
        printed.spans m = ⟨pre.byteLength, pre.byteLength + inner.chars.byteLength⟩) ∧
      (∀ m, ¬ unit.HasMark m → printed.spans m = unit.spans m) ∧
      (∀ id, ¬ unit.Rooted (.expr id) →
        printed.arena.exprs[id.index]? = unit.arena.exprs[id.index]?) ∧
      (∀ id, ¬ unit.Rooted (.stmt id) →
        printed.arena.stmts[id.index]? = unit.arena.stmts[id.index]?) ∧
      (∀ text spans, ∃ other : CompilationUnit,
        (unit.retexted text spans).arena.print = .ok other.arena ∧
        other.text = printed.text ∧ ∀ m, unit.HasMark m → other.spans m = printed.spans m) ∧
      printed.arena.print = .ok printed.arena := by
  have hmarks (m : Mark) : m ∈ unit.layout.allMarks ↔ unit.HasMark m :=
    mem_allMarks_layout fun root hr => h.grounded_root hc hr
  have hframe (m : Mark) (hm : ¬ unit.HasMark m) : unit.print.spans m = unit.spans m :=
    spans_print_of_not_mem (mt (hmarks m).1 hm)
  have hprint (text : String) (spans : Mark → Span) : (unit.retexted text spans).arena.print =
      .ok (unit.retexted text spans).print.arena := by
    have hback : (unit.retexted text spans).Backward := h
    have hcomplete : (unit.retexted text spans).Complete := hc
    exact arena_print_eq_ok.2 ⟨fun root hr => hback.grounded_root hcomplete hr, rfl⟩
  refine ⟨unit.print, hprint unit.text unit.spans, h.reprint_eq hc, rfl, rfl, fun m hm => ?_,
    hframe, fun id hr => ?_, fun id hr => ?_,
    fun text spans => ⟨_, hprint text spans, ?_, fun m hm => ?_⟩, ?_⟩
  · obtain ⟨inner, pre, hp, hspan⟩ := Layout.part_of_placed (spans_print_of_mem ((hmarks m).2 hm)).1
    rw [Nat.zero_add] at hspan
    exact ⟨inner, pre, hp, hspan⟩
  · refine getElem?_exprCells_congr fun slot => hframe _ fun hm => hr ?_
    exact hm.rooted (slot.node?_mark id)
  · refine getElem?_stmtCells_congr fun slot => hframe _ fun hm => hr ?_
    exact hm.rooted (slot.node?_mark id)
  · exact congrArg Layout.toText (layout_retexted text spans)
  · exact (spans_print_of_mem ((hmarks m).2 hm)).2 text spans
  · have hagain := hprint unit.print.text unit.print.spans
    exact hagain.trans (congrArg (fun unit => Except.ok (arena unit)) print_print)

end Backward
end CompilationUnit

namespace Shared

/-- The unit with another text and with spans that fit none. -/
def stale : CompilationUnit := unit.retexted "old" fun _ => ⟨7, 9⟩

theorem backward_stale : stale.Backward := backward_unit

theorem complete_stale : stale.Complete := backward_stale.complete (by decide)

theorem not_rooted_stale : ¬ stale.Rooted (.expr ⟨3⟩) := by
  rintro ⟨root, hr, hb⟩
  have hmem := (backward_stale.grounded_root complete_stale hr).mem_subtree.2 hb
  have hnone : ∀ root ∈ stale.roots, .expr ⟨3⟩ ∉ stale.subtree root := by decide
  exact hnone root hr hmem

/-- The call that stands twice has the span of its second place, and the name that stands nowhere
keeps the one it had. -/
theorem shared_call_last : stale.Backward ∧ stale.Complete ∧ ∃ printed : CompilationUnit,
    stale.arena.print = .ok printed.arena ∧ printed.spans (.stmt ⟨0⟩) = ⟨105, 112⟩ ∧
    printed.arena.exprs[3]? = stale.arena.exprs[3]? ∧ printed.arena.print = .ok printed.arena := by
  obtain ⟨printed, hprint, hreprint, -, -, -, -, hkept, -, -, hagain⟩ :=
    CompilationUnit.Backward.reprint_stable backward_stale complete_stale
  have hcall : stale.print.spans (.stmt ⟨0⟩) = ⟨105, 112⟩ := by decide +kernel
  obtain ⟨-, rfl⟩ := CompilationUnit.eq_print_of_reprint hreprint
  exact ⟨backward_stale, complete_stale, stale.print, hprint, hcall, hkept ⟨3⟩ not_rooted_stale,
    hagain⟩

end Shared
end EnhancedFor
