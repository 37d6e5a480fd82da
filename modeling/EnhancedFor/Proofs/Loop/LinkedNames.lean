import EnhancedFor.Proofs.Loop.SourceChange
import EnhancedFor.Proofs.Text.Position

/-!
The linked positions of a plan in the edited text. Nothing is asked of the unit: its text and the
spans of its nodes are arbitrary. Main statement: if the plan becomes edits at all and has one new
header, the linked spans are those of the positions that have a text, in order, and each shows the
name written there or the text that stood there before.
-/

namespace EnhancedFor

namespace Plan

variable {plan : Plan} {unit : CompilationUnit} {change : SourceChange}

/-- The heads of all loops that are replaced. -/
def headers (plan : Plan) : List Header :=
  plan.steps.filterMap fun
    | .replaceLoop _ header _ => some header
    | _ => none

/-- The name of the header and the names of the body always have a place in the text; a replaced
call has one if some step replaces it. -/
def hasPlace (plan : Plan) : LinkedPosition → Bool
  | .replacement expr => plan.replacedCalls.contains expr
  | _ => true

/-- What a span must cover in the new text to be that of a linked position. For a name of the body
this is what stood there, unless an edit reaches into it. -/
inductive Shows (plan : Plan) (unit : CompilationUnit) (edits : List Edit) (out : String) :
    LinkedPosition → Span → Prop where
  | headerName {span : Span}
    (h : ∀ header ∈ plan.headers, Text.bytesAt? out span = some (Text.bytes header.name)) :
    Shows plan unit edits out .headerName span
  | replacement {expr : ExprId} {span : Span} (h : ∀ name, .replaceWithName expr name ∈ plan.steps →
      Text.bytesAt? out span = some (Text.bytes name)) :
    Shows plan unit edits out (.replacement expr) span
  | reference {expr : ExprId} {span : Span}
    (h : (unit.exprSpan expr).start < (unit.exprSpan expr).stop →
      (∀ e ∈ edits, e.span.stop ≤ (unit.exprSpan expr).start ∨
        (unit.exprSpan expr).stop ≤ e.span.start) →
      ∃ bytes, Text.bytesAt? unit.text (unit.exprSpan expr) = some bytes ∧
        Text.bytesAt? out span = some bytes) :
    Shows plan unit edits out (.reference expr) span

/-- The stages of a change that is made. -/
theorem toSourceChange_cases (h : plan.toSourceChange unit = .ok change) :
    ∃ names imports linked, plan.steps.mapM unit.stepEdit = .ok names ∧
      Edit.normalize unit.text (names.map (·.edit) ++ imports) = .ok change.edits ∧
      plan.positions.mapM (linkedSpan? unit (plan.steps.zip names)
        (names.map (·.edit) ++ imports)) = .ok linked ∧ change.linked = linked.filterMap id := by
  unfold toSourceChange at h
  obtain ⟨names, hnames, h⟩ := bind_eq_ok.1 h
  dsimp only at h
  split at h
  · cases h
  · split at h
    · rename_i imports himports
      obtain ⟨_, hpure, h⟩ := bind_eq_ok.1 h
      obtain rfl := Except.ok.inj hpure
      split at h
      · rename_i normal hnormal
        obtain ⟨_, hpure, h⟩ := bind_eq_ok.1 h
        obtain rfl := Except.ok.inj hpure
        obtain ⟨linked, hlinked, h⟩ := bind_eq_ok.1 h
        obtain rfl := Except.ok.inj h
        exact ⟨names, imports, linked, hnames, hnormal, hlinked, rfl⟩
      · cases h
    · cases h

end Plan

namespace CompilationUnit

variable {unit : CompilationUnit} {placed : PlacedName}

theorem requireSpan_eq_ok {node : Node} {span : Span} (h : unit.requireSpan node = .ok span) :
    span = unit.nodeSpan node ∧ span.stop ≤ Text.byteLength unit.text := by
  unfold requireSpan at h
  split at h
  · cases h
  · dsimp only at h
    split at h
    · cases h
    · rename_i hbounds
      obtain rfl := Except.ok.inj h
      simp only [Bool.or_eq_true, decide_eq_true_eq, not_or, Nat.not_lt] at hbounds
      exact ⟨rfl, hbounds.2⟩

theorem writes_of_headerEdit {loop body : StmtId} {header : Header}
    (h : unit.headerEdit loop header body = .ok placed) : placed.Writes header.name := by
  unfold headerEdit at h
  obtain ⟨loopSpan, -, h⟩ := bind_eq_ok.1 h
  dsimp only at h
  split at h
  · cases h
  · obtain ⟨bodySpan, -, h⟩ := bind_eq_ok.1 h
    split at h
    · cases h
    · split at h
      · obtain ⟨iterableSpan, -, h⟩ := bind_eq_ok.1 h
        split at h
        · cases h
        · obtain rfl := Except.ok.inj h
          refine ⟨("for (" ++ header.typeText ++ " ").toList,
            (" : " ++ unit.slice iterableSpan ++ ")").toList, ?_, rfl, rfl⟩
          simp only [String.toList_append, List.append_assoc]
      · cases h

/-- A step that puts a name in place of an expression replaces the span of the expression by it. -/
theorem replaces_of_stepEdit {expr : ExprId} {name : String}
    (h : unit.stepEdit (.replaceWithName expr name) = .ok placed) :
    placed.edit = ⟨unit.exprSpan expr, name⟩ ∧ placed.Writes name := by
  unfold stepEdit at h
  obtain ⟨span, hspan, h⟩ := bind_eq_ok.1 h
  obtain rfl := Except.ok.inj h
  obtain ⟨rfl, -⟩ := requireSpan_eq_ok hspan
  exact ⟨rfl, [], [], by simp, rfl, rfl⟩

end CompilationUnit

namespace PlanStep

def isReplaceLoop : PlanStep → Bool
  | .replaceLoop .. => true
  | _ => false

/-- The step puts a name in place of this expression. -/
def replaces (expr : ExprId) : PlanStep → Bool
  | .replaceWithName e _ => e == expr
  | _ => false

end PlanStep

namespace Plan

variable {plan : Plan} {unit : CompilationUnit} {edits : List Edit}

theorem any_isReplaceLoop (h : plan.headers ≠ []) :
    plan.steps.any PlanStep.isReplaceLoop = true := by
  obtain ⟨header, hheader⟩ := List.exists_mem_of_ne_nil _ h
  obtain ⟨step, hstep, hsome⟩ := List.mem_filterMap.1 hheader
  refine List.any_eq_true.2 ⟨step, hstep, ?_⟩
  cases step with
  | replaceLoop => rfl
  | removeStatement => cases hsome
  | replaceWithName => cases hsome

theorem any_replaces (plan : Plan) (expr : ExprId) :
    plan.steps.any (PlanStep.replaces expr) = plan.replacedCalls.contains expr := by
  rw [Bool.eq_iff_iff, List.any_eq_true, List.contains_iff_mem, replacedCalls, List.mem_filterMap]
  refine exists_congr fun step => and_congr_right fun _ => ?_
  cases step <;> simp [PlanStep.replaces]

/-- The place of the name that the last step of a kind writes. -/
def lastPlace? (placed : List (PlanStep × PlacedName)) (edits : List Edit)
    (p : PlanStep → Bool) : Option Span :=
  ((placed.filter fun x => p x.1).getLast?).map fun x => Edit.nameSpanAfter edits x.2

theorem isSome_lastPlace? (placed : List (PlanStep × PlacedName)) (edits : List Edit)
    (p : PlanStep → Bool) :
    (lastPlace? placed edits p).isSome = (placed.map (·.1)).any p := by
  rw [lastPlace?, Option.isSome_map, List.any_map, Bool.eq_iff_iff, Option.isSome_iff_ne_none,
    ne_eq, List.getLast?_eq_none_iff, List.filter_eq_nil_iff]
  simp

theorem exists_of_lastPlace? {placed : List (PlanStep × PlacedName)} {p : PlanStep → Bool}
    {span : Span} (h : lastPlace? placed edits p = some span) :
    ∃ step name, (step, name) ∈ placed ∧ p step = true ∧ span = Edit.nameSpanAfter edits name := by
  obtain ⟨⟨step, name⟩, hlast, rfl⟩ := Option.map_eq_some_iff.1 h
  obtain ⟨hmem, hp⟩ := List.mem_filter.1 (List.mem_of_getLast? hlast)
  exact ⟨step, name, hmem, hp, rfl⟩

/-- What the steps of a plan have become: an edit for each, all edits with spans of their own, and a
text that can be held. -/
structure Realized (plan : Plan) (unit : CompilationUnit) (names : List PlacedName)
    (edits : List Edit) (out : String) : Prop where
  steps : List.Forall₂ (fun step placed => unit.stepEdit step = .ok placed) plan.steps names
  subset : ∀ placed ∈ names, placed.edit ∈ edits
  nodup : (names.map (·.edit.span)).Nodup
  spans : ((Edit.sort edits).map (·.span)).Nodup
  revises : Edit.Revises 0 unit.text.toList (Edit.sort edits) out.toList
  bounded : Text.byteLength out ≤ Span.maxOffset

namespace Realized

variable {names : List PlacedName} {out : String} (h : plan.Realized unit names edits out)

include h

theorem stepEdit_eq {step : PlanStep} {placed : PlacedName}
    (hmem : (step, placed) ∈ plan.steps.zip names) : unit.stepEdit step = .ok placed :=
  (List.forall₂_iff_zip.1 h.steps).2 hmem

theorem map_fst_zip : (plan.steps.zip names).map (·.1) = plan.steps :=
  List.map_fst_zip (Nat.le_of_eq h.steps.length_eq)

theorem bytesAt?_eq {step : PlanStep} {placed : PlacedName} {name : String}
    (hmem : (step, placed) ∈ plan.steps.zip names) (hname : placed.Writes name) :
    Text.bytesAt? out (Edit.nameSpanAfter edits placed) = some (Text.bytes name) :=
  Edit.bytesAt?_nameSpanAfter h.revises h.spans h.bounded
    (h.subset placed (List.of_mem_zip hmem).2) hname

/-- The header that is written last is the only one. -/
theorem shows_headerName {header : Header} (hone : plan.headers = [header]) {found : Option Span}
    (hfound : linkedSpan? unit (plan.steps.zip names) edits .headerName = .ok found) :
    found.isSome = true ∧
      ∀ span, found = some span → plan.Shows unit
        (Edit.join (Edit.sort edits)) out .headerName span := by
  obtain rfl : lastPlace? (plan.steps.zip names) edits PlanStep.isReplaceLoop = found :=
    Except.ok.inj hfound
  constructor
  · rw [isSome_lastPlace?, h.map_fst_zip]
    exact any_isReplaceLoop (by simp [hone])
  · intro span hspan
    obtain ⟨step, placed, hmem, hloop, rfl⟩ := exists_of_lastPlace? hspan
    refine .headerName fun other hother => ?_
    cases step with
    | removeStatement => cases hloop
    | replaceWithName => cases hloop
    | replaceLoop loop new body =>
      have hnew : new ∈ plan.headers := List.mem_filterMap.2 ⟨_, (List.of_mem_zip hmem).1, rfl⟩
      rw [hone, List.mem_singleton] at hnew hother
      rw [hother, ← hnew]
      exact h.bytesAt?_eq hmem (CompilationUnit.writes_of_headerEdit (h.stepEdit_eq hmem))

/-- No two steps replace one expression, since their edits would have the same span. -/
theorem shows_replacement {expr : ExprId} {found : Option Span}
    (hfound : linkedSpan? unit (plan.steps.zip names) edits (.replacement expr) = .ok found) :
    found.isSome = plan.replacedCalls.contains expr ∧ ∀ span, found = some span →
      plan.Shows unit (Edit.join (Edit.sort edits)) out (.replacement expr) span := by
  obtain rfl : lastPlace? (plan.steps.zip names) edits (PlanStep.replaces expr) = found :=
    Except.ok.inj hfound
  constructor
  · rw [isSome_lastPlace?, h.map_fst_zip, any_replaces]
  · intro span hspan
    obtain ⟨step, placed, hmem, hreplaces, rfl⟩ := exists_of_lastPlace? hspan
    refine .replacement fun name hname => ?_
    cases step with
    | removeStatement => cases hreplaces
    | replaceLoop => cases hreplaces
    | replaceWithName e written =>
      obtain rfl : e = expr := beq_iff_eq.1 hreplaces
      obtain ⟨other, hother⟩ : ∃ other, (PlanStep.replaceWithName e name, other) ∈
          plan.steps.zip names := by
        rw [← h.map_fst_zip] at hname
        obtain ⟨⟨_, other⟩, hother, rfl⟩ := List.mem_map.1 hname
        exact ⟨other, hother⟩
      obtain ⟨hedit, hwrites⟩ := CompilationUnit.replaces_of_stepEdit (h.stepEdit_eq hmem)
      obtain ⟨hedit', -⟩ := CompilationUnit.replaces_of_stepEdit (h.stepEdit_eq hother)
      have hsame : placed = other := List.inj_on_of_nodup_map h.nodup (List.of_mem_zip hmem).2
        (List.of_mem_zip hother).2 (by rw [hedit, hedit'])
      obtain rfl : written = name := by
        rw [← hsame, hedit] at hedit'
        exact congrArg Edit.replacement hedit'
      exact h.bytesAt?_eq hmem hwrites

theorem shows_reference {expr : ExprId} {found : Option Span}
    (hfound : linkedSpan? unit (plan.steps.zip names) edits (.reference expr) = .ok found) :
    found.isSome = true ∧ ∀ span, found = some span →
      plan.Shows unit (Edit.join (Edit.sort edits)) out (.reference expr) span := by
  rw [linkedSpan?] at hfound
  cases hspan : unit.requireSpan (.expr expr) with
  | error e => simp [hspan, Except.map] at hfound
  | ok old =>
    rw [hspan] at hfound
    obtain rfl := Except.ok.inj hfound
    obtain ⟨rfl, hstop⟩ := CompilationUnit.requireSpan_eq_ok hspan
    refine ⟨rfl, fun span heq => .reference fun hordered hfree => ?_⟩
    obtain rfl := Option.some.inj heq
    exact Edit.bytesAt?_spanAfter h.revises h.bounded hordered hstop hfree

end Realized

/-- Of a plan that becomes edits and has one new header, the linked spans belong to the positions
that have a place, in order. In the new text the span of the header covers its name, that of a
replaced call the name put there, and that of a name of the body what the name covered before,
unless an edit reaches into it. -/
theorem linked_show {header : Header} {change : SourceChange}
    (hchange : plan.toSourceChange unit = .ok change) (hone : plan.headers = [header]) :
    ∃ out, change.apply unit.text = .ok out ∧ (Text.byteLength out ≤ Span.maxOffset →
      List.Forall₂ (plan.Shows unit change.edits out) (plan.positions.filter plan.hasPlace)
        change.linked) := by
  obtain ⟨names, imports, linked, hnames, hnormal, hlinked, heq⟩ := toSourceChange_cases hchange
  obtain ⟨hjoin, hspans, new, hnew⟩ := Edit.revises_sort hnormal
  refine ⟨String.ofList new, ?_, fun hmax => ?_⟩
  · rw [SourceChange.apply, ← hjoin]
    exact hnew.apply_join_eq
  · have hnodup : (names.map (·.edit.span)).Nodup := by
      have hall := ((Edit.sort_perm (names.map (·.edit) ++ imports)).map (·.span)).nodup_iff.1
        hspans
      rw [List.map_append, List.map_map] at hall
      exact hall.of_append_left
    have hrealized : plan.Realized unit names (names.map (·.edit) ++ imports) (String.ofList new) :=
      ⟨forall₂_of_mapM hnames, fun placed hp => List.mem_append_left _ (List.mem_map_of_mem hp),
        hnodup, hspans, by rwa [String.toList_ofList], hmax⟩
    rw [heq, ← hjoin]
    apply forall₂_filterMap
    refine (forall₂_of_mapM hlinked).imp fun {position found} hfound => ?_
    cases position with
    | headerName => exact hrealized.shows_headerName hone hfound
    | replacement expr => exact hrealized.shows_replacement hfound
    | reference expr => exact hrealized.shows_reference hfound

end Plan

namespace Unprinted

/-- The text and the spans are given by hand: a loop, its body and a statement in it; the iterable,
a call and a name of two bytes. -/
def unit : CompilationUnit :=
  let nodes := { CompilationUnit.initial "Main.java" with
    exprs := #[⟨.name "x" none, none⟩, ⟨.missing, none⟩, ⟨.name "ü" none, none⟩]
    stmts := #[.forLoop [] none [] ⟨1⟩, .block [⟨2⟩], .empty]
    text := "for (;;) { x(); n(); ü; }" }
  let loop := (nodes.setSpan (.stmt ⟨0⟩) ⟨0, 26⟩).setSpan (.stmt ⟨1⟩) ⟨9, 26⟩
  let body := (loop.setSpan (.stmt ⟨2⟩) ⟨11, 15⟩).setSpan (.expr ⟨0⟩) ⟨11, 12⟩
  (body.setSpan (.expr ⟨1⟩) ⟨16, 19⟩).setSpan (.expr ⟨2⟩) ⟨21, 23⟩

/-- The new import comes to stand where the header starts. One position belongs to no step. -/
def plan : Plan :=
  { steps := [.replaceLoop ⟨0⟩ ⟨⟨0⟩, "T", "ü", .copy ⟨0⟩⟩ ⟨1⟩, .removeStatement ⟨2⟩,
      .replaceWithName ⟨1⟩ "ü"]
    proposals := []
    positions := [.reference ⟨2⟩, .headerName, .replacement ⟨0⟩, .replacement ⟨1⟩]
    imports := ⟨["a.T"], []⟩ }

def change : SourceChange :=
  { file := "Main.java"
    edits := [⟨⟨0, 8⟩, "import a.T;\n\nfor (T ü : x)"⟩, .delete ⟨10, 15⟩, ⟨⟨16, 19⟩, "ü"⟩]
    proposals := []
    linked := [⟨34, 36⟩, ⟨20, 22⟩, ⟨30, 32⟩] }

/-- The edits in the order of the text. -/
theorem revises_edits : Edit.Revises 0 unit.text.toList [.insert 0 "import a.T;\n\n",
    ⟨⟨0, 8⟩, "for (T ü : x)"⟩, .delete ⟨10, 15⟩, ⟨⟨16, 19⟩, "ü"⟩]
    "import a.T;\n\nfor (T ü : x) { ü; ü; }".toList :=
  .step [] [] _ rfl rfl <| .step [] "for (;;)".toList _ rfl rfl <|
    .step " \x7b".toList " x();".toList _ rfl rfl <|
      .step " ".toList "n()".toList _ rfl rfl (.keep 19 "; ü; \x7d".toList)

theorem toSourceChange_plan : plan.toSourceChange unit = .ok change := by
  have hnames : plan.steps.mapM unit.stepEdit = .ok [⟨⟨⟨0, 8⟩, "for (T ü : x)"⟩, 7, 2⟩,
      ⟨.delete ⟨10, 15⟩, 0, 0⟩, ⟨⟨⟨16, 19⟩, "ü"⟩, 0, 2⟩] := rfl
  have himports : unit.importEdits plan.imports = .ok [.insert 0 "import a.T;\n\n"] := by
    rw [CompilationUnit.importEdits, plan, List.mergeSort_singleton]
    rfl
  have hnormal : Edit.normalize unit.text [⟨⟨0, 8⟩, "for (T ü : x)"⟩, .delete ⟨10, 15⟩,
      ⟨⟨16, 19⟩, "ü"⟩, .insert 0 "import a.T;\n\n"] = .ok change.edits :=
    revises_edits.normalize_eq (by decide) (by decide)
  exact Plan.toSourceChange_eq hnames rfl himports hnormal rfl

/-- All three spans show the name. -/
theorem name_shown : plan.toSourceChange unit = .ok change ∧
    change.apply unit.text = .ok "import a.T;\n\nfor (T ü : x) { ü; ü; }" ∧
    ∀ span ∈ change.linked, Text.bytesAt? "import a.T;\n\nfor (T ü : x) { ü; ü; }" span =
      some (Text.bytes "ü") := by
  have happly : change.apply unit.text = .ok "import a.T;\n\nfor (T ü : x) { ü; ü; }" :=
    revises_edits.apply_join_eq
  have hone : plan.headers = [⟨⟨0⟩, "T", "ü", .copy ⟨0⟩⟩] := rfl
  obtain ⟨out, hout, hshown⟩ := Plan.linked_show toSourceChange_plan hone
  obtain rfl := Except.ok.inj (happly.symm.trans hout)
  have hplaces : plan.positions.filter plan.hasPlace =
      [.reference ⟨2⟩, .headerName, .replacement ⟨1⟩] := rfl
  have hlinked : change.linked = [⟨34, 36⟩, ⟨20, 22⟩, ⟨30, 32⟩] := rfl
  have hall := hshown (by decide)
  rw [hplaces, hlinked] at hall
  obtain ⟨hreference, hall⟩ := List.forall₂_cons.1 hall
  obtain ⟨hheader, hall⟩ := List.forall₂_cons.1 hall
  obtain ⟨hreplacement, -⟩ := List.forall₂_cons.1 hall
  refine ⟨toSourceChange_plan, happly, ?_⟩
  rw [hlinked, List.forall_mem_cons, List.forall_mem_cons, List.forall_mem_singleton]
  refine ⟨?_, ?_, ?_⟩
  · cases hreference with
    | reference h =>
      obtain ⟨bytes, hold, hnew⟩ := h (by decide) (by decide)
      have hname : Text.bytesAt? unit.text (unit.exprSpan ⟨2⟩) = some (Text.bytes "ü") := by decide
      rw [hnew, ← hold, hname]
  · cases hheader with
    | headerName h => exact h _ (hone ▸ List.mem_singleton_self _)
  · cases hreplacement with
    | replacement h => exact h "ü" (by decide)

end Unprinted
end EnhancedFor
