import Mathlib.Data.List.TakeWhile
import EnhancedFor.Change.Delta

/-!
Which reports of the workspace make a pending change unsafe, said by the nodes of the report. An
element counts if every container above it only passes on changes of its children; a file counts
wherever it stands.
-/

namespace EnhancedFor

/-- The model, a project, a package root or a package. -/
def ElementKind.IsContainer (element : ElementKind) : Prop :=
  element ∈ [.model, .project, .packageRoot, .package]

instance (element : ElementKind) : Decidable element.IsContainer :=
  inferInstanceAs (Decidable (element ∈ [.model, .project, .packageRoot, .package]))

namespace ElementDelta

/-- Induction from the children of a report to the report. -/
@[elab_as_elim]
theorem rec_children {motive : ElementDelta → Prop}
    (node : ∀ element kind flags children, (∀ d ∈ children, motive d) →
      motive (.mk element kind flags children)) (d : ElementDelta) : motive d :=
  @ElementDelta.rec motive (fun ds => ∀ d ∈ ds, motive d) node
    (fun _ h => (List.not_mem_nil h).elim)
    (fun _ _ hd hds => List.forall_mem_cons.2 ⟨hd, hds⟩) d

/-- A node of the report such that each container above it changed in its children and in nothing
else. -/
inductive Shows : ElementDelta → ElementDelta → Prop where
  | self {d : ElementDelta} : Shows d d
  | child {element : ElementKind} {children : List ElementDelta} {d node : ElementDelta}
    (he : element.IsContainer) (hd : d ∈ children) (h : Shows d node) :
    Shows (.mk element .changed .onlyChildren children) node

/-- A node that is unsafe in itself: a container with another change than one of its children,
source that is no working copy, or an element of another kind. -/
inductive Breaks : ElementDelta → Prop where
  | container {element : ElementKind} {kind : DeltaKind} {flags : DeltaFlags}
    {children : List ElementDelta} (he : element.IsContainer)
    (h : ¬ (kind = .changed ∧ flags = .onlyChildren)) : Breaks (.mk element kind flags children)
  | source {kind : DeltaKind} {flags : DeltaFlags} {children : List ElementDelta}
    (h : flags.primaryWorkingCopy = false) :
    Breaks (.mk (.compilationUnit false) kind flags children)
  | other {kind : DeltaKind} {flags : DeltaFlags} {children : List ElementDelta} :
    Breaks (.mk .other kind flags children)

/-- The report makes a pending change unsafe. -/
def Invalidates (d : ElementDelta) : Prop := ∃ node, d.Shows node ∧ node.Breaks

variable {element : ElementKind} {kind : DeltaKind} {flags : DeltaFlags}
  {children : List ElementDelta}

theorem invalidates_container (he : element.IsContainer) :
    (mk element kind flags children).Invalidates ↔
      ¬ (kind = .changed ∧ flags = .onlyChildren) ∨ ∃ d ∈ children, d.Invalidates := by
  constructor
  · rintro ⟨node, hshows, hbreaks⟩
    cases hshows with
    | self =>
      cases hbreaks with
      | container _ h => exact .inl h
      | source _ | other => exact absurd he (by decide)
    | child _ hd h => exact .inr ⟨_, hd, node, h, hbreaks⟩
  · intro h
    by_cases hpasses : kind = .changed ∧ flags = .onlyChildren
    · obtain ⟨rfl, rfl⟩ := hpasses
      rcases h with h | ⟨d, hd, node, hshows, hbreaks⟩
      · exact absurd ⟨rfl, rfl⟩ h
      · exact ⟨node, .child he hd hshows, hbreaks⟩
    · exact ⟨_, .self, .container he hpasses⟩

/-- The children of an element that is no container do not matter. -/
theorem invalidates_leaf (he : ¬ element.IsContainer) :
    (mk element kind flags children).Invalidates ↔ (mk element kind flags children).Breaks := by
  constructor
  · rintro ⟨node, hshows, hbreaks⟩
    cases hshows with
    | self => exact hbreaks
    | child hc _ _ => exact absurd hc he
  · intro h
    exact ⟨_, .self, h⟩

theorem allHarmless_iff {ds : List ElementDelta} :
    allHarmless ds = true ↔ ∀ d ∈ ds, d.isHarmless = true := by
  induction ds with
  | nil => simp [allHarmless]
  | cons d ds ih => simp [allHarmless, ih]

theorem isHarmless_container (he : element.IsContainer) :
    (mk element kind flags children).isHarmless = true ↔
      (kind = .changed ∧ flags = .onlyChildren) ∧ ∀ d ∈ children, d.isHarmless = true := by
  have hdef : (mk element kind flags children).isHarmless =
      (kind == .changed && flags == .onlyChildren && allHarmless children) := by
    cases element with
    | model | project | packageRoot | package => simp [isHarmless]
    | compilationUnit _ | classFile | other => exact absurd he (by simp [ElementKind.IsContainer])
  rw [hdef]
  simp [allHarmless_iff, and_assoc]

theorem isHarmless_iff (d : ElementDelta) : d.isHarmless = true ↔ ¬ d.Invalidates := by
  induction d using rec_children with
  | node element kind flags children ih =>
    by_cases he : element.IsContainer
    · rw [isHarmless_container he, invalidates_container he, not_or, not_not]
      apply and_congr_right
      intro _
      constructor
      · rintro h ⟨d, hd, hinvalid⟩
        exact (ih d hd).1 (h d hd) hinvalid
      · intro h d hd
        exact (ih d hd).2 fun hinvalid => h ⟨d, hd, hinvalid⟩
    · rw [invalidates_leaf he]
      cases element with
      | model | project | packageRoot | package => exact absurd (by decide) he
      | classFile =>
        simp only [isHarmless, true_iff]
        rintro (⟨hc, -⟩ | _ | _)
        exact he hc
      | other => simpa [isHarmless] using Breaks.other
      | compilationUnit isWorkingCopy =>
        simp only [isHarmless, Bool.or_eq_true]
        constructor
        · rintro hsafe (⟨hc, -⟩ | h | _)
          · exact he hc
          · simp [h] at hsafe
        · intro h
          by_contra hunsafe
          simp only [not_or, Bool.not_eq_true] at hunsafe
          obtain ⟨hprimary, rfl⟩ := hunsafe
          exact h (.source hprimary)

end ElementDelta

namespace Java

theorem ne_dot_of_mem_reverse {cs : List Char} (h : '.' ∉ cs) :
    ∀ c ∈ cs.reverse, decide (c ≠ '.') = true := by
  intro c hc
  apply decide_eq_true
  rintro rfl
  exact h (List.mem_reverse.1 hc)

theorem splitLastDot_append {before last : List Char} (h : '.' ∉ last) :
    splitLastDot (before ++ '.' :: last) = (last, some before) := by
  have hlast := ne_dot_of_mem_reverse h
  have hback : (before ++ '.' :: last).reverse = last.reverse ++ '.' :: before.reverse := by simp
  unfold splitLastDot
  rw [hback]
  simp only [List.takeWhile_append_of_pos hlast, List.dropWhile_append_of_pos hlast]
  simp

/-- A text without a dot is one segment. -/
theorem splitLastDot_of_not_mem {cs : List Char} (h : '.' ∉ cs) :
    splitLastDot cs = (cs, none) := by
  have hcs := ne_dot_of_mem_reverse h
  unfold splitLastDot
  simp only [List.takeWhile_eq_self_iff.2 hcs, List.dropWhile_eq_nil_iff.2 hcs]
  simp

theorem exists_lastDot {cs : List Char} (h : '.' ∈ cs) :
    ∃ before last, cs = before ++ '.' :: last ∧ '.' ∉ last := by
  obtain ⟨back, front, heq, hback⟩ := List.eq_append_cons_of_mem (List.mem_reverse.2 h)
  refine ⟨front.reverse, back.reverse, ?_, ?_⟩
  · rw [← List.reverse_reverse cs, heq]
    simp
  · simpa using hback

end Java

theorem isJavaPath_iff {path : String} :
    isJavaPath path = true ↔ ∃ stem, path = stem ++ ".java" := by
  have hjava : ".java".toList = '.' :: "java".toList := by decide
  constructor
  · intro h
    unfold isJavaPath at h
    by_cases hdot : '.' ∈ path.toList
    · obtain ⟨before, last, heq, hlast⟩ := Java.exists_lastDot hdot
      rw [heq, Java.splitLastDot_append hlast] at h
      have hext : last = "java".toList := by simpa using h
      refine ⟨String.ofList before, String.toList_inj.1 ?_⟩
      rw [heq, hext, String.toList_append, String.toList_ofList (l := before), hjava]
    · rw [Java.splitLastDot_of_not_mem hdot] at h
      simp at h
  · rintro ⟨stem, rfl⟩
    unfold isJavaPath
    rw [String.toList_append, hjava, Java.splitLastDot_append (by decide)]
    simp

namespace ResourceDelta

@[elab_as_elim]
theorem rec_children {motive : ResourceDelta → Prop}
    (node : ∀ path resource kind flags stillExists children, (∀ d ∈ children, motive d) →
      motive (.mk path resource kind flags stillExists children)) (d : ResourceDelta) : motive d :=
  @ResourceDelta.rec motive (fun ds => ∀ d ∈ ds, motive d) node
    (fun _ h => (List.not_mem_nil h).elim)
    (fun _ _ hd hds => List.forall_mem_cons.2 ⟨hd, hds⟩) d

/-- A node anywhere in the report. -/
inductive Holds : ResourceDelta → ResourceDelta → Prop where
  | self {d : ResourceDelta} : Holds d d
  | child {path : String} {resource : ResourceKind} {kind : DeltaKind} {flags : DeltaFlags}
    {stillExists : Bool} {children : List ResourceDelta} {d node : ResourceDelta}
    (hd : d ∈ children) (h : Holds d node) :
    Holds (.mk path resource kind flags stillExists children) node

/-- The content of a Java file changed, and the file is still there. -/
inductive Saved : ResourceDelta → Prop where
  | file {stem : String} {flags : DeltaFlags} {children : List ResourceDelta}
    (h : flags.content = true) : Saved (.mk (stem ++ ".java") .file .changed flags true children)

/-- The report makes a pending change unsafe. -/
def Invalidates (d : ResourceDelta) : Prop := ∃ node, d.Holds node ∧ node.Saved

variable {path : String} {resource : ResourceKind} {kind : DeltaKind} {flags : DeltaFlags}
  {stillExists : Bool} {children : List ResourceDelta}

theorem invalidates_iff : (mk path resource kind flags stillExists children).Invalidates ↔
    (mk path resource kind flags stillExists children).Saved ∨ ∃ d ∈ children, d.Invalidates := by
  constructor
  · rintro ⟨node, hholds, hsaved⟩
    cases hholds with
    | self => exact .inl hsaved
    | child hd h => exact .inr ⟨_, hd, node, h, hsaved⟩
  · rintro (hsaved | ⟨d, hd, node, hholds, hsaved⟩)
    · exact ⟨_, .self, hsaved⟩
    · exact ⟨node, .child hd hholds, hsaved⟩

theorem saved_iff : (mk path resource kind flags stillExists children).Saved ↔
    (resource == .file && kind == .changed && flags.content && stillExists && isJavaPath path) =
      true := by
  simp only [Bool.and_eq_true, beq_iff_eq, isJavaPath_iff]
  constructor
  · rintro ⟨h⟩
    exact ⟨⟨⟨⟨rfl, rfl⟩, h⟩, rfl⟩, _, rfl⟩
  · rintro ⟨⟨⟨⟨rfl, rfl⟩, h⟩, rfl⟩, stem, rfl⟩
    exact .file h

theorem anyTouchesSource_iff {ds : List ResourceDelta} :
    anyTouchesSource ds = true ↔ ∃ d ∈ ds, d.touchesSource = true := by
  induction ds with
  | nil => simp [anyTouchesSource]
  | cons d ds ih => simp [anyTouchesSource, ih]

theorem touchesSource_iff (d : ResourceDelta) : d.touchesSource = true ↔ d.Invalidates := by
  induction d using rec_children with
  | node path resource kind flags stillExists children ih =>
    rw [touchesSource, Bool.or_eq_true, invalidates_iff, saved_iff, anyTouchesSource_iff]
    apply or_congr_right
    apply exists_congr
    intro d
    exact and_congr_right (ih d)

end ResourceDelta
end EnhancedFor
