import Mathlib.Logic.Function.Basic
import EnhancedFor.Syntax.ArenaPrinter
import EnhancedFor.Proofs.Syntax.Arena

/-!
What a printing action writes. An action writes a layout when it ends exactly under a condition, and
then has appended the text of the layout and given its marks their spans, those of the part it works
on in the copy of that part and all others in the tables; nothing else has changed.
-/

namespace EnhancedFor

namespace Layout

variable {a b l : Layout} {m : Mark} {n : Nat} {spans : Mark → Span}

/-- The spans after the layout is written at an offset. -/
def spansFrom (l : Layout) (n : Nat) (spans : Mark → Span) (m : Mark) : Span :=
  ((l.placed n).lookup m).getD (spans m)

@[simp] theorem spansFrom_text (s : String) : (text s).spansFrom n spans = spans := rfl

@[simp] theorem spansFrom_empty : empty.spansFrom n spans = spans := rfl

theorem spansFrom_append : (a ++ b).spansFrom n spans =
    b.spansFrom (n + a.chars.byteLength) (a.spansFrom n spans) := by
  funext m
  show ((b.placed (n + a.chars.byteLength) ++ a.placed n).lookup m).getD (spans m) = _
  rw [List.lookup_append]
  unfold spansFrom
  cases (b.placed (n + a.chars.byteLength)).lookup m <;> rfl

theorem spansFrom_mark : (mark m l).spansFrom n spans =
    Function.update (l.spansFrom n spans) m ⟨n, n + l.chars.byteLength⟩ := by
  funext m'
  show (((m, _) :: l.placed n).lookup m').getD (spans m') = _
  rw [List.lookup_cons, Function.update_apply]
  by_cases h : m' = m
  · simp [h]
  · rw [if_neg h, beq_false_of_ne h]
    rfl

theorem spansFrom_of_not_mem (h : m ∉ l.allMarks) : l.spansFrom n spans m = spans m := by
  have hnone : (l.placed n).lookup m = none := by
    rw [List.lookup_eq_none_iff]
    rintro ⟨m', s⟩ hx
    refine bne_iff_ne.2 fun heq : m = m' => h ?_
    exact heq ▸ mem_marked_of_placed hx rfl
  rw [spansFrom, hnone]
  rfl

@[simp] theorem placed_text (s : String) : (text s).placed n = [] := rfl

@[simp] theorem placed_empty : empty.placed n = [] := rfl

@[simp] theorem placed_append :
    (a ++ b).placed n = b.placed (n + a.chars.byteLength) ++ a.placed n :=
  rfl

@[simp] theorem placed_mark :
    (mark m l).placed n = (m, ⟨n, n + l.chars.byteLength⟩) :: l.placed n := rfl

/-- Layouts with one text and one placement of marks. -/
structure Same (a b : Layout) : Prop where
  chars : a.chars = b.chars
  placed : ∀ n, a.placed n = b.placed n

theorem Same.refl (l : Layout) : l.Same l := ⟨rfl, fun _ => rfl⟩

theorem Same.trans (h : a.Same b) (h' : b.Same l) : a.Same l :=
  ⟨h.chars.trans h'.chars, fun n => (h.placed n).trans (h'.placed n)⟩

theorem Same.assoc (a b c : Layout) : (a ++ (b ++ c)).Same (a ++ b ++ c) :=
  ⟨by simp, fun n => by simp [Nat.add_assoc]⟩

theorem Same.append {a' b' : Layout} (h : a.Same a') (h' : b.Same b') :
    (a ++ b).Same (a' ++ b') :=
  ⟨by simp [h.chars, h'.chars], fun n => by simp [h.chars, h.placed, h'.placed]⟩

theorem Same.mark {m : Mark} (h : a.Same b) : (mark m a).Same (mark m b) :=
  ⟨h.chars, fun n => by simp [h.chars, h.placed]⟩

/-- Parts one after the other, as a sequence of actions writes them. -/
def nest : Layout → List Layout → Layout
  | a, [] => a
  | a, b :: parts => a ++ nest b parts

theorem Same.nest (a : Layout) (parts : List Layout) :
    (Layout.nest a parts).Same (parts.foldl (· ++ ·) a) := by
  induction parts generalizing a with
  | nil => exact .refl a
  | cons b parts ih =>
    cases parts with
    | nil => exact .refl _
    | cons c parts => exact (Same.assoc a b (Layout.nest c parts)).trans (ih (a ++ b))

theorem Same.spansFrom (h : a.Same b) (n : Nat) (spans : Mark → Span) :
    a.spansFrom n spans = b.spansFrom n spans := by
  funext m
  rw [Layout.spansFrom, h.placed]
  rfl

theorem Same.toText (h : a.Same b) : a.toText = b.toText := by
  apply String.toList_injective
  rw [toList_toText, toList_toText, h.chars]

end Layout

theorem byteLength_append_toText (out : String) (l : Layout) :
    Text.byteLength (out ++ l.toText) = Text.byteLength out + l.chars.byteLength := by
  rw [Text.byteLength, String.toList_append, Layout.toList_toText, Chars.byteLength_append]
  rfl

/-- The marks of one part of a unit. While its copy is printed, what the tables say about its own
marks is out of date; marks that the tables know nothing about need not be its own. -/
structure CellPlace (σ : Type) where
  mark : σ → Mark
  own : Mark → Bool
  injective : Function.Injective mark
  hidden : ∀ slot, own (mark slot) = true ∨ (mark slot).node? = none

namespace CellPlace

variable {σ : Type} {place : CellPlace σ} {old spans : Mark → Span} {m : Mark} {l : Layout}

/-- A mark that the part has no span for. -/
structure Free (place : CellPlace σ) (m : Mark) : Prop where
  own : place.own m = false
  mark : ∀ slot, place.mark slot ≠ m

/-- The spans in the tables while the copy has the new ones. -/
def stale (place : CellPlace σ) (old spans : Mark → Span) (m : Mark) : Span :=
  if place.own m then old m else spans m

@[simp] theorem stale_self (place : CellPlace σ) : place.stale spans spans = spans := by
  funext m
  simp [stale]

theorem stale_spansFrom (h : ∀ m ∈ l.allMarks, place.own m = false) (n : Nat) :
    l.spansFrom n (place.stale old spans) = place.stale old (l.spansFrom n spans) := by
  funext m
  cases hm : place.own m with
  | false => simp [Layout.spansFrom, stale, hm]
  | true =>
    have hnot : m ∉ l.allMarks := fun hmem => by simp [h m hmem] at hm
    rw [Layout.spansFrom_of_not_mem hnot, stale, stale, if_pos hm, if_pos hm]

/-- The part with its spans. -/
def cell {α : Type} (place : CellPlace σ) (form : α) (spans : Mark → Span) : Ranged σ α :=
  ⟨form, fun slot => spans (place.mark slot)⟩

theorem cell_spansFrom {α : Type} (h : ∀ m ∈ l.allMarks, ∀ slot, place.mark slot ≠ m) (form : α)
    (n : Nat) : place.cell form (l.spansFrom n spans) = place.cell form spans := by
  refine congrArg (Ranged.mk form) (funext fun slot => ?_)
  exact Layout.spansFrom_of_not_mem fun hm => h _ hm slot rfl

theorem setSpan_cell {α : Type} [DecidableEq σ] (form : α) (slot : σ) (span : Span) :
    (place.cell form spans).setSpan slot span =
      place.cell form (Function.update spans (place.mark slot) span) := by
  refine congrArg (Ranged.mk form) (funext fun s => ?_)
  rw [Function.update_apply]
  simp only [place.injective.eq_iff]
  rfl

end CellPlace

namespace CellPlace

variable {old spans : Mark → Span} {m : Mark}

def expr (id : ExprId) : CellPlace ExprSlot where
  mark := ExprSlot.mark id
  own m := decide (m.node? = some (.expr id))
  injective := by
    rintro (_ | _ | _ | (_ | i | i)) (_ | _ | _ | (_ | j | j)) h <;>
      simp_all [ExprSlot.mark, DeclSlot.mark]
  hidden slot := .inl (by simp)

def stmt (id : StmtId) : CellPlace StmtSlot where
  mark := StmtSlot.mark id
  own m := decide (m.node? = some (.stmt id))
  injective := by
    rintro (_ | (_ | i | i) | (_ | _ | _)) (_ | (_ | j | j) | (_ | _ | _)) h <;>
      simp_all [StmtSlot.mark, DeclSlot.mark, ParamSlot.mark]
  hidden slot := .inl (by simp)

def type (t : Nat) : CellPlace TypeSlot where
  mark := TypeSlot.mark t
  own _ := false
  injective := by
    rintro (_ | _ | ⟨_, _ | _ | _⟩ | _ | _ | ⟨_, _, _ | _ | _⟩)
      (_ | _ | ⟨_, _ | _ | _⟩ | _ | _ | ⟨_, _, _ | _ | _⟩) h <;>
      simp_all [TypeSlot.mark, DeclSlot.mark, ParamSlot.mark]
  hidden slot := .inr (by simp)

theorem stale_expr {id : ExprId} (h : m.node? ≠ some (.expr id)) :
    (expr id).stale old spans m = spans m :=
  if_neg (by simpa [expr] using h)

theorem stale_stmt {id : StmtId} (h : m.node? ≠ some (.stmt id)) :
    (stmt id).stale old spans m = spans m :=
  if_neg (by simpa [stmt] using h)

theorem free_expr {id : ExprId} (h : m.node? ≠ some (.expr id)) : (expr id).Free m :=
  ⟨by simpa [expr] using h, fun slot heq => h (heq ▸ slot.node?_mark id)⟩

theorem free_stmt {id : StmtId} (h : m.node? ≠ some (.stmt id)) : (stmt id).Free m :=
  ⟨by simpa [stmt] using h, fun slot heq => h (heq ▸ slot.node?_mark id)⟩

theorem free_type {t : Nat} (h : m.node? ≠ none) : (type t).Free m :=
  ⟨rfl, fun slot heq => h (heq ▸ slot.node?_mark t)⟩

/-- A line of the head. -/
def line (m : Mark) (h : m.node? = none) : CellPlace Unit where
  mark _ := m
  own _ := false
  injective _ _ _ := rfl
  hidden _ := .inr h

end CellPlace

namespace CompilationUnit

variable {unit : CompilationUnit} {σ α β : Type} {P Q : Prop} {l a b : Layout}

/-- An arena with the tables of the unit. -/
def tables (unit : CompilationUnit) (rest : Arena) (spans : Mark → Span) : Arena :=
  { rest with exprs := unit.exprCells spans, stmts := unit.stmtCells spans }

/-- The tables hold the spans of nodes only. -/
theorem tables_congr {rest : Arena} {f g : Mark → Span} (h : ∀ m, m.node? ≠ none → f m = g m) :
    unit.tables rest f = unit.tables rest g := by
  have hexprs : unit.exprCells f = unit.exprCells g := by
    simp only [exprCells, fun (i : ExprId) (slot : ExprSlot) => h (slot.mark i) (by simp)]
  have hstmts : unit.stmtCells f = unit.stmtCells g := by
    simp only [stmtCells, fun (i : StmtId) (slot : StmtSlot) => h (slot.mark i) (by simp)]
  rw [tables, tables, hexprs, hstmts]

/-- The action ends exactly if `P` holds, and then it has written the layout and nothing else. -/
def Prints (unit : CompilationUnit) (P : Prop) (action : PrintM Unit) (l : Layout) : Prop :=
  ∀ rest spans out r, action ⟨unit.tables rest spans, out⟩ = .ok r ↔
    P ∧ r = ((), ⟨unit.tables rest (l.spansFrom (Text.byteLength out) spans), out ++ l.toText⟩)

/-- The same for an action on the copy of a part: its own marks get their spans in the copy, and the
tables keep those that were there. -/
def PrintsIn (unit : CompilationUnit) (place : CellPlace σ) (form : α) (P : Prop)
    (action : CellM σ α Unit) (l : Layout) : Prop :=
  ∀ rest old spans out r,
    action (place.cell form spans) ⟨unit.tables rest (place.stale old spans), out⟩ = .ok r ↔
      P ∧ r = (((), place.cell form (l.spansFrom (Text.byteLength out) spans)),
        ⟨unit.tables rest (place.stale old (l.spansFrom (Text.byteLength out) spans)),
          out ++ l.toText⟩)

theorem get_bind_eq (f : Printer → PrintM β) (p : Printer) : (get >>= f) p = f p p := rfl

theorem cell_bind_eq_ok {γ : Type} {x : CellM σ α β} {f : β → CellM σ α γ} {cell : Ranged σ α}
    {p : Printer} {r : (γ × Ranged σ α) × Printer} :
    (x >>= f) cell p = .ok r ↔ ∃ y, x cell p = .ok y ∧ f y.1.1 y.1.2 y.2 = .ok r := bind_eq_ok

theorem cell_lift_eq_ok {x : PrintM β} {cell : Ranged σ α} {p : Printer}
    {r : (β × Ranged σ α) × Printer} :
    (liftM x : CellM σ α β) cell p = .ok r ↔ ∃ y, x p = .ok y ∧ ((y.1, cell), y.2) = r := by
  refine bind_eq_ok.trans (exists_congr fun y => and_congr_right fun _ => ?_)
  exact ⟨Except.ok.inj, congrArg Except.ok⟩

theorem updated_eq_ok {x : CellM σ α Unit} {cell : Ranged σ α} {p : Printer}
    {r : Ranged σ α × Printer} :
    Printer.updated x cell p = .ok r ↔ ∃ y, x cell p = .ok y ∧ (y.1.2, y.2) = r := by
  refine bind_eq_ok.trans (exists_congr fun y => and_congr_right fun _ => ?_)
  exact ⟨Except.ok.inj, congrArg Except.ok⟩

theorem ranged_eq_ok [DecidableEq σ] {slot : σ} {x : CellM σ α Unit} {cell : Ranged σ α}
    {p : Printer} {r : (Unit × Ranged σ α) × Printer} :
    Printer.ranged slot x cell p = .ok r ↔ ∃ y, x cell p = .ok y ∧
      (((), y.1.2.setSpan slot ⟨Text.byteLength p.out, Text.byteLength y.2.out⟩), y.2) = r := by
  have hstart : Printer.ranged slot x cell p = (x >>= fun _ => do
      let stop ← Printer.pos
      modify fun cell => cell.setSpan slot ⟨Text.byteLength p.out, stop⟩) cell p := rfl
  rw [hstart]
  refine cell_bind_eq_ok.trans (exists_congr fun y => and_congr_right fun _ => ?_)
  exact ⟨Except.ok.inj, congrArg Except.ok⟩

namespace Prints

variable {action : PrintM Unit}

theorem of (hx : unit.Prints P action a) (hP : P ↔ Q) (h : Q → a = b) : unit.Prints Q action b := by
  intro rest spans out r
  rw [hx rest spans out r, hP]
  exact and_congr_right fun hQ => by rw [h hQ]

/-- An action that always fails. -/
theorem of_fail (hP : ¬ P) (h : ∀ rest spans out r, action ⟨unit.tables rest spans, out⟩ ≠ .ok r) :
    unit.Prints P action l :=
  fun rest spans out r => iff_of_false (h rest spans out r) fun hr => hP hr.1

end Prints

namespace PrintsIn

variable {place : CellPlace σ} {form : α} {x y : CellM σ α Unit}

theorem push (s : String) : unit.PrintsIn place form True (Printer.push s) (.text s) := by
  intro rest old spans out r
  refine cell_lift_eq_ok.trans ?_
  simp [Printer.push, modify, modifyGet, MonadStateOf.modifyGet, StateT.modifyGet, Pure.pure,
    Except.pure, eq_comm]

theorem pure : unit.PrintsIn place form True (Pure.pure ()) .empty := by
  intro rest old spans out r
  have hdone (cell : Ranged σ α) (p : Printer) :
      (Pure.pure () : CellM σ α Unit) cell p = .ok (((), cell), p) := rfl
  simp [hdone, eq_comm]

theorem bind (hx : unit.PrintsIn place form P x a) (hy : unit.PrintsIn place form Q y b) :
    unit.PrintsIn place form (P ∧ Q) (x >>= fun _ => y) (a ++ b) := by
  intro rest old spans out r
  rw [cell_bind_eq_ok, Layout.spansFrom_append, Layout.toText_append, ← String.append_assoc,
    ← byteLength_append_toText]
  constructor
  · rintro ⟨mid, hmid, hr⟩
    obtain ⟨hP, rfl⟩ := (hx rest old spans out mid).1 hmid
    obtain ⟨hQ, rfl⟩ := (hy rest old _ _ r).1 hr
    exact ⟨⟨hP, hQ⟩, rfl⟩
  · rintro ⟨⟨hP, hQ⟩, rfl⟩
    exact ⟨_, (hx rest old spans out _).2 ⟨hP, rfl⟩, (hy rest old _ _ _).2 ⟨hQ, rfl⟩⟩

theorem of (hx : unit.PrintsIn place form P x a) (hP : P ↔ Q) (h : Q → a.Same b) :
    unit.PrintsIn place form Q x b := by
  intro rest old spans out r
  rw [hx rest old spans out r, hP]
  refine and_congr_right fun hQ => ?_
  rw [(h hQ).spansFrom, (h hQ).toText]

theorem format (s t u : String) : unit.PrintsIn place form True (Printer.push (s ++ t ++ u))
    (.text s ++ .text t ++ .text u) :=
  (push _).of .rfl fun _ => ⟨by simp, fun _ => rfl⟩

theorem ranged [DecidableEq σ] (slot : σ) (hx : unit.PrintsIn place form P x l) :
    unit.PrintsIn place form P (Printer.ranged slot x) (.mark (place.mark slot) l) := by
  intro rest old spans out r
  have hset (f : Mark → Span) (span : Span) :
      unit.tables rest (place.stale old (Function.update f (place.mark slot) span)) =
        unit.tables rest (place.stale old f) := by
    refine tables_congr fun m hm => ?_
    unfold CellPlace.stale
    split
    · rfl
    · rename_i hown
      refine Function.update_of_ne (fun heq => ?_) _ _
      subst heq
      exact (place.hidden slot).elim hown hm
  rw [Layout.spansFrom_mark, ← CellPlace.setSpan_cell, hset, Layout.toText_mark,
    ← byteLength_append_toText]
  rw [ranged_eq_ok]
  constructor
  · rintro ⟨y, hy, rfl⟩
    obtain ⟨hP, rfl⟩ := (hx rest old spans out y).1 hy
    exact ⟨hP, rfl⟩
  · rintro ⟨hP, rfl⟩
    exact ⟨_, (hx rest old spans out _).2 ⟨hP, rfl⟩, rfl⟩

/-- What is printed below a part has none of its marks. -/
theorem lift {action : PrintM Unit} (hx : unit.Prints P action l)
    (hfree : P → ∀ m ∈ l.allMarks, place.Free m) :
    unit.PrintsIn place form P (liftM action) l := by
  intro rest old spans out r
  refine cell_lift_eq_ok.trans ⟨?_, ?_⟩
  · rintro ⟨y, hy, rfl⟩
    obtain ⟨hP, rfl⟩ := (hx rest _ out y).1 hy
    rw [CellPlace.stale_spansFrom fun m hm => (hfree hP m hm).own,
      CellPlace.cell_spansFrom fun m hm => (hfree hP m hm).mark]
    exact ⟨hP, rfl⟩
  · rintro ⟨hP, rfl⟩
    refine ⟨_, (hx rest _ out _).2 ⟨hP, rfl⟩, ?_⟩
    rw [CellPlace.stale_spansFrom fun m hm => (hfree hP m hm).own,
      CellPlace.cell_spansFrom fun m hm => (hfree hP m hm).mark]

theorem indent (level : Nat) :
    unit.PrintsIn place form True (Printer.indent level) (.indent level) := push _

section Lists

variable {p : β → Prop} {g : β → Layout} {print : β → CellM σ α Unit}

theorem optional (first : String) {x : Option β}
    (h : ∀ b ∈ x.toList, unit.PrintsIn place form (p b) (print b) (g b)) :
    unit.PrintsIn place form (∀ b ∈ x.toList, p b) (Printer.optional first print x)
      (optionalLayout first g x) := by
  cases x with
  | none => exact pure.of (by simp) fun _ => .refl _
  | some b =>
    exact ((push first).bind (h b List.mem_cons_self)).of (by simp) fun _ => .refl _

theorem forM {xs : List β} (h : ∀ b ∈ xs, unit.PrintsIn place form (p b) (print b) (g b)) :
    unit.PrintsIn place form (∀ b ∈ xs, p b) (xs.forM print) (.concat (xs.map g)) := by
  induction xs with
  | nil => exact pure.of (by simp) fun _ => .refl _
  | cons b xs ih =>
    have hrest := ih fun c hc => h c (List.mem_cons_of_mem _ hc)
    exact ((h b List.mem_cons_self).bind hrest).of (by simp) fun _ => .refl _

theorem separated (separator : String) {xs : List β}
    (h : ∀ b ∈ xs, unit.PrintsIn place form (p b) (print b) (g b)) :
    unit.PrintsIn place form (∀ b ∈ xs, p b) (Printer.separated separator print xs)
      (.join separator (xs.map g)) := by
  induction xs with
  | nil => exact pure.of (by simp) fun _ => .refl _
  | cons b xs ih =>
    have hb := h b List.mem_cons_self
    have hrest := ih fun c hc => h c (List.mem_cons_of_mem _ hc)
    cases xs with
    | nil => exact hb.of (by simp) fun _ => .refl _
    | cons c xs =>
      refine (hb.bind ((push separator).bind hrest)).of (by simp) fun _ => ?_
      exact .assoc _ _ _

end Lists

end PrintsIn

end CompilationUnit
end EnhancedFor
