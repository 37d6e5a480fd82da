import EnhancedFor.Syntax.Scope
import EnhancedFor.Proofs.Syntax.Spans

/-!
Where the types and methods of a printed unit stand: apart from each other, each method within its
type and each body within its method. Main statement: an offset in a method is in no other method
and in no other type.
-/

namespace EnhancedFor

namespace Layout

/-- The layout has a marked part, and characters after it. -/
def Holds (l : Layout) (m : Mark) : Prop :=
  ∃ inner pre, (mark m inner).Part l pre ∧
    pre.byteLength + inner.chars.byteLength < l.chars.byteLength

theorem Part.holds_line {m : Mark} {a inner : Layout} {pre : Chars}
    (h : (mark m inner).Part a pre) : (a ++ text "\n").Holds m := by
  have hle := h.length_le
  have hline : (a ++ text "\n").chars.byteLength = a.chars.byteLength + 1 :=
    Chars.byteLength_append _ _
  rw [chars_mark] at hle
  exact ⟨inner, pre, .left h, by omega⟩

theorem Holds.after {m : Mark} {b : Layout} (h : b.Holds m) (a : Layout) : (a ++ b).Holds m := by
  obtain ⟨inner, pre, hpart, hlt⟩ := h
  refine ⟨inner, _, .right hpart, ?_⟩
  rw [chars_append, Chars.byteLength_append, Chars.byteLength_append]
  omega

end Layout

namespace CompilationUnit

variable {unit : CompilationUnit}

section Concat

variable {p : Mark → Bool} {n : Nat} {l : Layout} {m : Mark} {α : Type} {xs : List α}
  {g : α → Layout} {place : α → Mark}

theorem StandsAt.span_of_part {inner : Layout} {pre : Chars} (h : unit.StandsAt p n l)
    (hpart : (Layout.mark m inner).Part l pre) (hp : p m = true) :
    n ≤ (unit.spans m).start ∧ (unit.spans m).stop ≤ n + l.chars.byteLength := by
  have hle := hpart.length_le
  rw [Layout.chars_mark] at hle
  rw [(h.part hpart).span hp]
  exact ⟨Nat.le_add_right _ _, by dsimp only; omega⟩

theorem StandsAt.span_of_holds (h : unit.StandsAt p n l) (hm : l.Holds m) (hp : p m = true) :
    n ≤ (unit.spans m).start ∧ (unit.spans m).stop < n + l.chars.byteLength := by
  obtain ⟨inner, pre, hpart, hlt⟩ := hm
  rw [(h.part hpart).span hp]
  exact ⟨Nat.le_add_right _ _, by dsimp only; omega⟩

/-- Marked parts of layouts that follow each other stand apart. -/
theorem StandsAt.concat_apart (h : unit.StandsAt p n (.concat (xs.map g)))
    (hg : ∀ x, (g x).Holds (place x)) (hp : ∀ x, p (place x) = true) :
    (xs.Pairwise fun x y => (unit.spans (place x)).stop < (unit.spans (place y)).start) ∧
      ∀ x ∈ xs, n ≤ (unit.spans (place x)).start := by
  induction xs generalizing n with
  | nil => exact ⟨.nil, fun x hx => (List.not_mem_nil hx).elim⟩
  | cons x xs ih =>
    have hx := h.left.span_of_holds (hg x) (hp x)
    obtain ⟨hpairwise, hstarts⟩ := ih h.right
    refine ⟨List.pairwise_cons.2 ⟨fun y hy => ?_, hpairwise⟩, fun y hy => ?_⟩
    · have := hstarts y hy
      omega
    · rcases List.mem_cons.1 hy with rfl | hy
      · exact hx.1
      · have := hstarts y hy
        omega

end Concat

/-- A type in the list of types. -/
def typeEntry (unit : CompilationUnit) (x : TypeDecl × Nat) : Layout :=
  (if x.2 == 0 then "" else "\n") ++ unit.typeLayout x.2 x.1

/-- A method in the list of a type's methods. -/
def methodEntry (unit : CompilationUnit) (x : TypeDecl × Nat) (y : Method × Nat) : Layout :=
  (if y.2 == 0 && x.1.fields.isEmpty then "" else "\n") ++ unit.methodLayout x.2 y.2 y.1

/-- What the mark of a type holds. -/
def typeParts (unit : CompilationUnit) (x : TypeDecl × Nat) : Layout :=
  (.text "class " ++ .text x.1.name ++ .text " \x7b\n") ++
    .concat (x.1.fields.zipIdx.map fun y => unit.fieldLayout x.2 y.2 y.1) ++
    .concat (x.1.methods.zipIdx.map (unit.methodEntry x)) ++ .text "\x7d"

/-- What the mark of a method holds. -/
def methodParts (unit : CompilationUnit) (t i : Nat) (m : Method) : Layout :=
  resultLayout t i m.returnType ++ (.text " " ++ .text m.name ++ .text "(") ++
    .join ", " (m.params.zipIdx.map fun x => paramLayout (.method t i x.2) x.1) ++
      unit.bodyLayout m.body

theorem holds_typeEntry (x : TypeDecl × Nat) : (unit.typeEntry x).Holds (.typeDecl x.2) :=
  (Layout.Part.holds_line .here).after _

theorem holds_methodEntry (x : TypeDecl × Nat) (y : Method × Nat) :
    (unit.methodEntry x y).Holds (.method x.2 y.2) :=
  (Layout.Part.holds_line (.right .here)).after _

/-- Types stand apart from each other, and so do the methods of a type; methods stand in their types
and bodies in their methods. -/
structure Framed (unit : CompilationUnit) : Prop where
  types : unit.types.zipIdx.Pairwise fun x y =>
    (unit.spans (.typeDecl x.2)).stop < (unit.spans (.typeDecl y.2)).start
  methods : ∀ x ∈ unit.types.zipIdx, x.1.methods.zipIdx.Pairwise fun y z =>
    (unit.spans (.method x.2 y.2)).stop < (unit.spans (.method x.2 z.2)).start
  inType : ∀ x ∈ unit.types.zipIdx, ∀ y ∈ x.1.methods.zipIdx,
    (unit.spans (.typeDecl x.2)).start ≤ (unit.spans (.method x.2 y.2)).start ∧
      (unit.spans (.method x.2 y.2)).stop ≤ (unit.spans (.typeDecl x.2)).stop
  inMethod : ∀ x ∈ unit.types.zipIdx, ∀ y ∈ x.1.methods.zipIdx, ∀ body, y.1.body = some body →
    (unit.spans (.method x.2 y.2)).start ≤ (unit.stmtSpan body).start ∧
      (unit.stmtSpan body).stop ≤ (unit.spans (.method x.2 y.2)).stop

theorem part_type {x : TypeDecl × Nat} (hx : x ∈ unit.types.zipIdx) :
    ∃ pre, (Layout.mark (.typeDecl x.2) (unit.typeParts x)).Part unit.layout pre := by
  obtain ⟨pre, hpart⟩ := Layout.part_concat (g := unit.typeEntry) hx
  have hentry : (unit.typeEntry x).Part unit.layout _ := .right hpart
  exact ⟨_, Layout.Part.trans (.right (.left .here)) hentry⟩

theorem part_method (unit : CompilationUnit) {x : TypeDecl × Nat} {y : Method × Nat}
    (hy : y ∈ x.1.methods.zipIdx) :
    ∃ pre, (Layout.mark (.method x.2 y.2) (unit.methodParts x.2 y.2 y.1)).Part
      (unit.typeParts x) pre := by
  obtain ⟨pre, hpart⟩ := Layout.part_concat (g := unit.methodEntry x) hy
  exact ⟨_, Layout.Part.trans (Layout.Part.trans (.right (.left (.right .here))) hpart)
    (.left (.right .here))⟩

theorem part_body (unit : CompilationUnit) (t i : Nat) {m : Method} {body : StmtId}
    (h : m.body = some body) :
    ∃ pre, (unit.stmtLayout 1 body).Part (unit.methodParts t i m) pre := by
  have hcode : ∃ pre, (unit.stmtLayout 1 body).Part (unit.bodyLayout m.body) pre := by
    rw [h]
    exact ⟨_, .right (.right .here)⟩
  obtain ⟨pre, hcode⟩ := hcode
  exact ⟨_, .right hcode⟩

theorem mem_roots_of_method {x : TypeDecl × Nat} {y : Method × Nat} {body : StmtId}
    (hx : x ∈ unit.types.zipIdx) (hy : y ∈ x.1.methods.zipIdx) (hbody : y.1.body = some body) :
    .stmt body ∈ unit.roots := by
  have hdecl : x.1 ∈ unit.types := (List.mem_zipIdx' hx).2 ▸ List.getElem_mem _
  have hmethod : y.1 ∈ x.1.methods := (List.mem_zipIdx' hy).2 ▸ List.getElem_mem _
  refine mem_textRoots.1 (List.mem_flatMap.2 ⟨x.1, hdecl, ?_⟩)
  exact List.mem_append_right _ (List.mem_map_of_mem (List.mem_filterMap.2 ⟨y.1, hmethod, hbody⟩))

theorem framed_of_standsAt (hs : unit.StandsAt (fun _ => true) 0 unit.layout)
    (hu : unit.SingleUse) (hc : unit.Complete) : unit.Framed := by
  have htypes : unit.StandsAt (fun _ => true) _ (.concat (unit.types.zipIdx.map unit.typeEntry)) :=
    hs.right
  refine ⟨(htypes.concat_apart holds_typeEntry fun _ => rfl).1, fun x hx => ?_, fun x hx y hy => ?_,
    fun x hx y hy body hbody => ?_⟩
  · obtain ⟨pre, htype⟩ := part_type hx
    have hstands := (hs.part htype).inner.left.right
    exact (hstands.concat_apart (holds_methodEntry x) fun _ => rfl).1
  · obtain ⟨pre, htype⟩ := part_type hx
    obtain ⟨pre', hmethod⟩ := part_method unit hy
    have hstands := hs.part htype
    rw [hstands.span rfl]
    exact hstands.inner.span_of_part hmethod rfl
  · obtain ⟨pre, htype⟩ := part_type hx
    obtain ⟨pre', hmethod⟩ := part_method unit hy
    obtain ⟨gap, hpart⟩ := part_body unit x.2 y.2 hbody
    have hin := Layout.Part.trans (.inner hmethod) htype
    obtain ⟨a, heq⟩ := (hu.grounded hc ⟨_, mem_roots_of_method hx hy hbody, .refl⟩).exists_mark 1
    rw [show unit.stmtLayout 1 body = .mark (.stmt body) a from heq] at hpart
    rw [(hs.part hin).span rfl]
    exact (hs.part hin).inner.span_of_part hpart rfl

/-- In a unit that was printed, types, methods and bodies stand in each other as they are
declared. -/
theorem framed_of_reprint {draft : CompilationUnit} (hprint : draft.reprint = .ok unit)
    (hu : unit.SingleUse) : unit.Framed := by
  obtain ⟨hc, -, -⟩ := shows_of_reprint hprint hu
  exact framed_of_standsAt (standsAt_of_reprint hprint hu) hu hc

theorem eq_of_touches {α : Type} {xs : List α} {span : α → Span} {x y : α} {offset : Nat}
    (h : xs.Pairwise fun x y => (span x).stop < (span y).start) (hx : x ∈ xs) (hy : y ∈ xs)
    (htx : (span x).touches offset = true) (hty : (span y).touches offset = true) : x = y := by
  refine eq_of_pairwise_not (P := fun x => (span x).touches offset = true) (h.imp ?_) hx hy htx hty
  simp only [Span.touches, Bool.and_eq_true, decide_eq_true_eq]
  omega

namespace Framed

variable (hf : unit.Framed) {x : TypeDecl × Nat} {y : Method × Nat} {offset : Nat}
  (hx : x ∈ unit.types.zipIdx) (hy : y ∈ x.1.methods.zipIdx)
  (ho : (unit.spans (.method x.2 y.2)).touches offset = true)

include hf hx hy ho

theorem touches_type : (unit.spans (.typeDecl x.2)).touches offset = true := by
  have hin := hf.inType x hx y hy
  simp only [Span.touches, Bool.and_eq_true, decide_eq_true_eq] at ho ⊢
  omega

/-- The types and methods around an offset in a method are that method and its type. -/
theorem unique {x' : TypeDecl × Nat} {y' : Method × Nat} (hx' : x' ∈ unit.types.zipIdx)
    (hy' : y' ∈ x'.1.methods.zipIdx)
    (ho' : (unit.spans (.method x'.2 y'.2)).touches offset = true) : x' = x ∧ y' = y := by
  obtain rfl := eq_of_touches hf.types hx' hx (hf.touches_type hx' hy' ho')
    (hf.touches_type hx hy ho)
  exact ⟨rfl, eq_of_touches (hf.methods x' hx') hy' hy ho' ho⟩

theorem enclosingBody?_eq {body : StmtId} (hbody : y.1.body = some body) :
    unit.enclosingBody? offset = some body := by
  have hmem : (x.2, y.2, y.1) ∈ unit.methods.filter fun z =>
      (unit.spans (.method z.1 z.2.1)).touches offset :=
    List.mem_filter.2 ⟨List.mem_flatMap.2 ⟨x, hx, List.mem_map_of_mem hy⟩, ho⟩
  have hall : ∀ z ∈ unit.methods.filter fun z => (unit.spans (.method z.1 z.2.1)).touches offset,
      z = (x.2, y.2, y.1) := by
    intro z hz
    obtain ⟨hz, hoz⟩ := List.mem_filter.1 hz
    obtain ⟨x', hx', hz⟩ := List.mem_flatMap.1 hz
    obtain ⟨y', hy', rfl⟩ := List.mem_map.1 hz
    obtain ⟨rfl, rfl⟩ := hf.unique hx hy ho hx' hy' hoz
    rfl
  change (unit.methods.filter fun z => (unit.spans (.method z.1 z.2.1)).touches offset).findSome?
    (fun z => z.2.2.body) = some body
  cases hmethods : unit.methods.filter fun z => (unit.spans (.method z.1 z.2.1)).touches offset with
  | nil => exact (List.not_mem_nil (hmethods ▸ hmem)).elim
  | cons z zs =>
    rw [hall z (hmethods ▸ List.mem_cons_self), List.findSome?_cons, hbody]

theorem declarationsBefore_eq {body : StmtId} (hbody : y.1.body = some body) :
    unit.declarationsBefore offset = x.1.fields.flatMap (·.names) ++ y.1.params.map (·.name) ++
      unit.visibleWithin offset unit.depth body := by
  have hunique : ∀ x' ∈ unit.types.zipIdx, (unit.spans (.typeDecl x'.2)).touches offset = true →
      x' = x :=
    fun x' hx' ho' => eq_of_touches hf.types hx' hx ho' (hf.touches_type hx hy ho)
  have howner : unit.types.zipIdx.find? (fun x => (unit.spans (.typeDecl x.2)).touches offset) =
      some x :=
    find?_eq_some_of_unique hx (hf.touches_type hx hy ho) hunique
  have hmethod : x.1.methods.zipIdx.find? (fun y => (unit.spans (.method x.2 y.2)).touches offset) =
      some y :=
    find?_eq_some_of_unique hy ho fun y' hy' ho' => eq_of_touches (hf.methods x hx) hy' hy ho' ho
  simp only [declarationsBefore, howner, hmethod, hf.enclosingBody?_eq hx hy ho hbody]
  rfl

end Framed

end CompilationUnit
end EnhancedFor
