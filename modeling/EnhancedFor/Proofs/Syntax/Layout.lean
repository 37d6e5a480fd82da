import EnhancedFor.Syntax.Walk
import EnhancedFor.Proofs.Text.Revision
import EnhancedFor.Syntax.Printer

/-!
Text and spans of a layout. A printed text shows a layout at a place when its characters stand there
and the spans of all nodes and head lines in it are where the layout puts them.
-/

namespace EnhancedFor

/-- Marks of nodes, import lines and the package line: those that edits are placed by. -/
def Mark.isKey : Mark → Bool
  | .package | .importLine _ | .expr _ | .stmt _ => true
  | _ => false

def Node.mark : Node → Mark
  | .stmt id => .stmt id
  | .expr id => .expr id

@[simp] theorem Node.isKey_mark (node : Node) : node.mark.isKey = true := by
  cases node <;> rfl

namespace Layout

/-- The characters of the layout. -/
def chars : Layout → Chars
  | .text s => s.toList
  | .append a b => a.chars ++ b.chars
  | .mark _ inner => inner.chars

/-- The marks with their spans when the layout starts at an offset, the latest first. -/
def placed : Layout → Nat → List (Mark × Span)
  | .text _, _ => []
  | .append a b, n => b.placed (n + a.chars.byteLength) ++ a.placed n
  | .mark m inner, n => (m, ⟨n, n + inner.chars.byteLength⟩) :: inner.placed n

/-- The marks with a property, in the order of the text. -/
def marked (p : Mark → Bool) : Layout → List Mark
  | .text _ => []
  | .append a b => a.marked p ++ b.marked p
  | .mark m inner => if p m then m :: inner.marked p else inner.marked p

variable {a b l : Layout} {p : Mark → Bool}

@[simp] theorem chars_text (s : String) : (text s).chars = s.toList := rfl

@[simp] theorem chars_append (a b : Layout) : (a ++ b).chars = a.chars ++ b.chars := rfl

@[simp] theorem chars_mark (m : Mark) (l : Layout) : (mark m l).chars = l.chars := rfl

@[simp] theorem chars_empty : empty.chars = [] := rfl

theorem toList_writeAfter (l : Layout) (before : String) :
    (l.writeAfter before).toList = before.toList ++ l.chars := by
  induction l generalizing before with
  | text s => exact String.toList_append
  | append a b iha ihb =>
    change (b.writeAfter (a.writeAfter before)).toList = _
    rw [ihb, iha, List.append_assoc]
    rfl
  | mark m inner ih => exact ih before

theorem toList_toText (l : Layout) : l.toText.toList = l.chars := by
  rw [toText, toList_writeAfter]
  rfl

@[simp] theorem toText_text (s : String) : (text s).toText = s := String.empty_append

@[simp] theorem toText_mark (m : Mark) (l : Layout) : (mark m l).toText = l.toText := rfl

@[simp] theorem toText_empty : empty.toText = "" := rfl

@[simp] theorem toText_append (a b : Layout) : (a ++ b).toText = a.toText ++ b.toText := by
  apply String.toList_injective
  rw [String.toList_append, toList_toText, toList_toText, toList_toText, chars_append]

theorem toText_concat (parts : List Layout) :
    (concat parts).toText = String.join (parts.map toText) := by
  induction parts with
  | nil => rfl
  | cons part parts ih =>
    show (part ++ concat parts).toText = _
    rw [toText_append, ih, List.map_cons, String.join_cons]

theorem toText_join (separator : String) (parts : List Layout) :
    (join separator parts).toText = separator.intercalate (parts.map toText) := by
  induction parts with
  | nil => rfl
  | cons part parts ih =>
    cases parts with
    | nil => rfl
    | cons next parts =>
      show (part ++ text separator ++ join separator (next :: parts)).toText = _
      rw [toText_append, toText_append, ih, toText_text]
      exact String.intercalate_cons_cons.symm

theorem place_eq (l : Layout) (p : Placement) :
    l.place p = ⟨p.offset + l.chars.byteLength, l.placed p.offset ++ p.spans⟩ := by
  induction l generalizing p with
  | text s => rfl
  | append a b iha ihb =>
    change b.place (a.place p) = _
    rw [iha, ihb]
    simp [chars, placed, Nat.add_assoc]
  | mark m inner ih =>
    rw [place, ih]
    rfl

theorem marks_eq (l : Layout) : l.marks = l.placed 0 := by
  rw [marks, place_eq]
  exact List.append_nil _

@[simp] theorem marked_text (s : String) : (text s).marked p = [] := rfl

@[simp] theorem marked_append (a b : Layout) : (a ++ b).marked p = a.marked p ++ b.marked p := rfl

theorem marked_concat (parts : List Layout) :
    (concat parts).marked p = parts.flatMap (marked p) := by
  induction parts with
  | nil => rfl
  | cons part parts ih => exact congrArg (part.marked p ++ ·) ih

theorem marked_join (separator : String) (parts : List Layout) :
    (join separator parts).marked p = parts.flatMap (marked p) := by
  induction parts with
  | nil => rfl
  | cons part parts ih =>
    cases parts with
    | nil => simp [join]
    | cons next parts =>
      show (part ++ text separator ++ join separator (next :: parts)).marked p = _
      rw [marked_append, marked_append, ih, marked_text, List.append_nil]
      rfl

theorem mem_marked_of_placed {m : Mark} {s : Span} {n : Nat} (h : (m, s) ∈ l.placed n)
    (hp : p m = true) : m ∈ l.marked p := by
  induction l generalizing n with
  | text _ => simp [placed] at h
  | append a b iha ihb =>
    rcases List.mem_append.1 h with h | h
    · exact List.mem_append_right _ (ihb h)
    · exact List.mem_append_left _ (iha h)
  | mark m' inner ih =>
    rw [marked]
    rcases List.mem_cons.1 h with h | h
    · obtain rfl := (Prod.mk.inj h).1
      rw [if_pos hp]
      exact List.mem_cons_self
    · split
      · exact List.mem_cons_of_mem _ (ih h)
      · exact ih h

/-- A mark that a layout has once has one span. -/
theorem placed_unique {m : Mark} {s t : Span} {n : Nat} (hn : (l.marked p).Nodup) (hp : p m = true)
    (hs : (m, s) ∈ l.placed n) (ht : (m, t) ∈ l.placed n) : s = t := by
  induction l generalizing n with
  | text _ => simp [placed] at hs
  | append a b iha ihb =>
    obtain ⟨hna, hnb, hdisj⟩ := List.nodup_append.1 hn
    rcases List.mem_append.1 hs with hs | hs <;> rcases List.mem_append.1 ht with ht | ht
    · exact ihb hnb hs ht
    · exact (hdisj m (mem_marked_of_placed ht hp) m (mem_marked_of_placed hs hp) rfl).elim
    · exact (hdisj m (mem_marked_of_placed hs hp) m (mem_marked_of_placed ht hp) rfl).elim
    · exact iha hna hs ht
  | mark m' inner ih =>
    rw [marked] at hn
    rcases List.mem_cons.1 hs with hs' | hs' <;> rcases List.mem_cons.1 ht with ht' | ht'
    · rw [(Prod.mk.inj hs').2, (Prod.mk.inj ht').2]
    · obtain rfl := (Prod.mk.inj hs').1
      rw [if_pos hp] at hn
      exact ((List.nodup_cons.1 hn).1 (mem_marked_of_placed ht' hp)).elim
    · obtain rfl := (Prod.mk.inj ht').1
      rw [if_pos hp] at hn
      exact ((List.nodup_cons.1 hn).1 (mem_marked_of_placed hs' hp)).elim
    · refine ih ?_ hs' ht'
      split at hn
      · exact (List.nodup_cons.1 hn).2
      · exact hn

theorem lookup_placed {m : Mark} {s : Span} {n : Nat} (hn : (l.marked p).Nodup) (hp : p m = true)
    (hs : (m, s) ∈ l.placed n) : (l.placed n).lookup m = some s := by
  have hsome : ((l.placed n).lookup m).isSome = true :=
    List.lookup_isSome_iff.2 ⟨(m, s), hs, by simp⟩
  obtain ⟨t, ht⟩ := Option.isSome_iff_exists.1 hsome
  obtain ⟨before, after, heq, -⟩ := List.lookup_eq_some_iff.1 ht
  have hmem : (m, t) ∈ l.placed n := by
    rw [heq]
    exact List.mem_append_right _ List.mem_cons_self
  rw [ht, placed_unique hn hp hmem hs]

/-- The first layout stands in the second, after some of its characters. -/
inductive Part (l : Layout) : Layout → Chars → Prop where
  | here : Part l l []
  | left {a b : Layout} {pre : Chars} (h : Part l a pre) : Part l (a ++ b) pre
  | right {a b : Layout} {pre : Chars} (h : Part l b pre) : Part l (a ++ b) (a.chars ++ pre)
  | inner {m : Mark} {a : Layout} {pre : Chars} (h : Part l a pre) : Part l (.mark m a) pre

theorem Part.chars_eq {pre : Chars} (h : Part l a pre) :
    ∃ post, a.chars = pre ++ l.chars ++ post := by
  induction h with
  | here => exact ⟨[], by simp⟩
  | @left a b pre _ ih =>
    obtain ⟨post, hpost⟩ := ih
    exact ⟨post ++ b.chars, by simp [hpost]⟩
  | right _ ih =>
    obtain ⟨post, hpost⟩ := ih
    exact ⟨post, by simp [hpost]⟩
  | inner _ ih => exact ih

theorem Part.length_le {pre : Chars} (h : Part l a pre) :
    pre.byteLength + l.chars.byteLength ≤ a.chars.byteLength := by
  obtain ⟨post, hpost⟩ := h.chars_eq
  rw [hpost, Chars.byteLength_append, Chars.byteLength_append]
  omega

theorem Part.trans {pre pre' : Chars} (h : Part l a pre) (h' : Part a b pre') :
    Part l b (pre' ++ pre) := by
  induction h' with
  | here => exact h
  | left _ ih => exact .left ih
  | right _ ih =>
    rw [List.append_assoc]
    exact .right ih
  | inner _ ih => exact .inner ih

theorem part_concat {α : Type} {xs : List α} {g : α → Layout} {x : α} (hx : x ∈ xs) :
    ∃ pre, (g x).Part (concat (xs.map g)) pre := by
  induction xs with
  | nil => exact (List.not_mem_nil hx).elim
  | cons y ys ih =>
    rcases List.mem_cons.1 hx with rfl | hx
    · exact ⟨[], .left .here⟩
    · obtain ⟨pre, hpart⟩ := ih hx
      exact ⟨_, .right hpart⟩

theorem part_join {α : Type} (separator : String) {xs : List α} {g : α → Layout} {x : α}
    (hx : x ∈ xs) : ∃ pre, (g x).Part (join separator (xs.map g)) pre := by
  induction xs with
  | nil => exact (List.not_mem_nil hx).elim
  | cons y ys ih =>
    cases ys with
    | nil => exact ⟨[], List.mem_singleton.1 hx ▸ .here⟩
    | cons z zs =>
      rcases List.mem_cons.1 hx with rfl | hx
      · exact ⟨[], .left (.left .here)⟩
      · obtain ⟨pre, hpart⟩ := ih hx
        exact ⟨_, .right hpart⟩

end Layout

namespace CompilationUnit

variable {unit : CompilationUnit} {before : Chars} {a b l : Layout} {m : Mark}

/-- Marks with a property have the spans that a layout gives them when it starts at an offset. -/
def StandsAt (unit : CompilationUnit) (p : Mark → Bool) (offset : Nat) (l : Layout) : Prop :=
  ∀ m s, (m, s) ∈ l.placed offset → p m = true → unit.spans m = s

namespace StandsAt

variable {p : Mark → Bool} {n : Nat}

theorem left (h : unit.StandsAt p n (a ++ b)) : unit.StandsAt p n a :=
  fun m s hm => h m s (List.mem_append_right _ hm)

theorem right (h : unit.StandsAt p n (a ++ b)) : unit.StandsAt p (n + a.chars.byteLength) b :=
  fun m s hm => h m s (List.mem_append_left _ hm)

theorem inner (h : unit.StandsAt p n (.mark m l)) : unit.StandsAt p n l :=
  fun m s hm => h m s (List.mem_cons_of_mem _ hm)

theorem span (h : unit.StandsAt p n (.mark m l)) (hp : p m = true) :
    unit.spans m = ⟨n, n + l.chars.byteLength⟩ := h m _ List.mem_cons_self hp

theorem part {pre : Chars} (hl : l.Part a pre) (h : unit.StandsAt p n a) :
    unit.StandsAt p (n + pre.byteLength) l := by
  induction hl generalizing n with
  | here => exact h
  | left _ ih => exact ih h.left
  | right _ ih =>
    rw [Chars.byteLength_append, ← Nat.add_assoc]
    exact ih h.right
  | inner _ ih => exact ih h.inner

end StandsAt

/-- The layout stands in the text after `before`, with its keys at their spans. -/
structure Shows (unit : CompilationUnit) (before : Chars) (l : Layout) : Prop where
  text : ∃ after, unit.text.toList = before ++ l.chars ++ after
  spans : unit.StandsAt Mark.isKey before.byteLength l

namespace Shows

theorem left (h : unit.Shows before (a ++ b)) : unit.Shows before a := by
  obtain ⟨after, htext⟩ := h.text
  exact ⟨⟨b.chars ++ after, by simpa [List.append_assoc] using htext⟩, h.spans.left⟩

theorem right (h : unit.Shows before (a ++ b)) : unit.Shows (before ++ a.chars) b := by
  obtain ⟨after, htext⟩ := h.text
  refine ⟨⟨after, by simpa [List.append_assoc] using htext⟩, ?_⟩
  rw [Chars.byteLength_append]
  exact h.spans.right

theorem inner (h : unit.Shows before (.mark m l)) : unit.Shows before l := ⟨h.text, h.spans.inner⟩

theorem span (h : unit.Shows before (.mark m l)) (hk : m.isKey = true) :
    unit.spans m = ⟨before.byteLength, before.byteLength + l.chars.byteLength⟩ := h.spans.span hk

theorem part {pre : Chars} (hp : l.Part a pre) (h : unit.Shows before a) :
    unit.Shows (before ++ pre) l := by
  induction hp generalizing before with
  | here => simpa using h
  | left _ ih => exact ih h.left
  | right _ ih => simpa using ih h.right
  | inner _ ih => exact ih h.inner

end Shows

/-- Marks with a property stand where the layout puts them, if it has none of them twice. -/
theorem standsAt_print {p : Mark → Bool} (hn : (unit.layout.marked p).Nodup) :
    unit.print.StandsAt p 0 unit.layout := by
  intro m s hm hp
  change (unit.layout.marks.lookup m).getD (unit.spans m) = s
  rw [Layout.marks_eq, Layout.lookup_placed hn hp hm]
  rfl

end CompilationUnit
end EnhancedFor
