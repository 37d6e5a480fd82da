import EnhancedFor.Proofs.Loop.NodeEdits

/-!
The edits of a conversion as one change of the text. The edits of the import list and those of the
nodes go together: in the order of the text none begins before another ends, so that they can be
normalised and made.
-/

namespace EnhancedFor

open CompilationUnit
open Edit (Revises InsertsApart)

theorem Plan.toSourceChange_eq {plan : Plan} {unit : CompilationUnit} {names : List PlacedName}
    {imports normal : List Edit} {linked : List (Option Span)}
    (hnames : plan.steps.mapM unit.stepEdit = .ok names) (hheader : plan.header?.isNone = false)
    (himports : unit.importEdits plan.imports = .ok imports)
    (hnormal : Edit.normalize unit.text (names.map (·.edit) ++ imports) = .ok normal)
    (hlinked : plan.positions.mapM (Plan.linkedSpan? unit (plan.steps.zip names)
      (names.map (·.edit) ++ imports)) = .ok linked) :
    plan.toSourceChange unit = .ok ⟨unit.file, normal, plan.proposals, linked.filterMap id⟩ := by
  simp only [toSourceChange, hnames, hheader, himports, hnormal, hlinked, bind, Except.bind, pure,
    Except.pure, Bool.false_eq_true, if_false]

namespace Rewriting

variable {unit : CompilationUnit} {r : Rewriting unit} {plan : Plan} {tidy : Prop}
  (hu : unit.SingleUse) (hc : unit.Complete)
  (htext : unit.text.toList = unit.layout.chars) (hshows : unit.Shows [] unit.layout)
  (hne : (unit.exprLayout r.header.iterable.expr).chars ≠ [])
  (htidy : tidy → ∀ s ∈ r.removed, ∃ block, unit.InBlock block s)

include hu hc htext hshows hne htidy

/-- All edits in the order of the text, and what they make of it. -/
theorem revises_layout (changes : ImportChanges) :
    (∀ n ∈ r.nodes, ∃ placed, unit.stepEdit (r.stepAt n) = .ok placed ∧
      placed.edit.span.isEmpty = false) ∧
    ∃ imports es new, unit.importEdits changes = .ok imports ∧
      (r.nodes.map r.editAt ++ imports).Perm es ∧ InsertsApart imports ∧
      Revises 0 unit.text.toList es new ∧
      (tidy → new = (r.rewrite (changes.newImports unit.importLines)).layout.chars) := by
  generalize hother : r.rewrite (changes.newImports unit.importLines) = other
  have hpackage : other.package = unit.package := hother ▸ rfl
  have hlines : other.imports = changes.newImports unit.importLines := hother ▸ rfl
  have htypes : r.Converts tidy unit.typesLayout (unit.textRoots.flatMap r.touched)
      other.typesLayout := hother ▸ converts_types hu hc hne htidy
  obtain ⟨hsteps, types, htypes, hprinted⟩ := htypes _ hshows.right
  obtain ⟨imports, es, himports, hperm, hapart, hhead⟩ :=
    importEdits_revises hshows.left hpackage hlines
  have hnodes := r.touched_roots_perm hu hc textRoots_perm
  refine ⟨fun n hn => hsteps n (hnodes.mem_iff.2 hn), imports,
    es ++ (unit.textRoots.flatMap r.touched).map r.editAt,
    other.headerLayout.chars ++ types, himports, ?_, hapart, ?_, fun ht => ?_⟩
  · exact List.perm_append_comm.trans (hperm.append (hnodes.map _).symm)
  · rw [List.nil_append] at htypes
    rw [htext, layout, Layout.chars_append]
    refine hhead.append ?_
    rwa [Nat.zero_add]
  · rw [hprinted ht, layout, Layout.chars_append]

/-- A plan with these steps becomes edits without an error, and they give the text of the changed
unit. -/
theorem toSourceChange_spec (hplan : plan.steps = r.steps) (hreferences : ∀ e,
      .reference e ∈ plan.positions → ∃ span, unit.requireSpan (.expr e) = .ok span) :
    ∃ change new, plan.toSourceChange unit = .ok change ∧
      change.apply unit.text = .ok (String.ofList new) ∧
      (tidy → new = (r.rewrite (plan.imports.newImports unit.importLines)).layout.chars) := by
  obtain ⟨hsteps, imports, es, new, himports, hperm, hapart, hrevises, hnew⟩ :=
    revises_layout hu hc htext hshows hne htidy plan.imports
  have hnames : plan.steps.mapM unit.stepEdit = .ok (plan.steps.map unit.placedName) := by
    refine mapM_ok fun step hmem => ?_
    rw [hplan, r.steps_eq hu hc] at hmem
    obtain ⟨n, hn, rfl⟩ := List.mem_map.1 hmem
    obtain ⟨placed, hok, -⟩ := hsteps n hn
    rw [placedName, hok]
    rfl
  have hedits : (plan.steps.map unit.placedName).map (·.edit) = r.nodes.map r.editAt := by
    rw [hplan, r.steps_eq hu hc, List.map_map, List.map_map]
    rfl
  have hnonempty : ∀ e ∈ r.nodes.map r.editAt, e.span.isEmpty = false := by
    intro e he
    obtain ⟨n, hn, rfl⟩ := List.mem_map.1 he
    obtain ⟨placed, hok, hempty⟩ := hsteps n hn
    rw [r.editAt_eq hok]
    exact hempty
  have hnodup := hrevises.spans_nodup ((hapart.append hnonempty).perm hperm)
  have hnormal := hrevises.normalize_eq hperm hnodup
  rw [← hedits] at hnormal
  have hheader : plan.header?.isNone = false := by
    rw [Plan.header?, hplan]
    rfl
  have hlinked : ∃ linked, plan.positions.mapM (Plan.linkedSpan? unit
      (plan.steps.zip (plan.steps.map unit.placedName))
      ((plan.steps.map unit.placedName).map (·.edit) ++ imports)) = .ok linked := by
    refine mapM_isOk.2 fun position hposition => ?_
    cases position with
    | headerName | replacement e => exact ⟨_, rfl⟩
    | reference e =>
      obtain ⟨span, hspan⟩ := hreferences e hposition
      rw [Plan.linkedSpan?, hspan]
      exact ⟨_, rfl⟩
  obtain ⟨linked, hlinked⟩ := hlinked
  exact ⟨_, new, Plan.toSourceChange_eq hnames hheader himports hnormal hlinked,
    hrevises.apply_join_eq, hnew⟩

end Rewriting
end EnhancedFor
