import EnhancedFor.Loop.ImportEdit
import EnhancedFor.Proofs.Lists
import EnhancedFor.Proofs.Loop.ImportList
import EnhancedFor.Proofs.Text.Revision

/-!
Lines of imports in a text, and the edits that put new ones among them and take others out. Main
statement: the edits turn the lines into those of the new list.
-/

namespace EnhancedFor

/-- The import without its line break. -/
def Import.chars (i : Import) : Chars :=
  "import ".toList ++ (if i.isStatic then "static " else "").toList ++ i.path.toList ++
    (if i.isOnDemand then ".*" else "").toList ++ ";".toList

/-- Lines of imports, with their line breaks. -/
def importsChars (imports : List Import) : Chars := imports.flatMap fun i => i.chars ++ ['\n']

theorem toList_importText (name : String) :
    (CompilationUnit.importText name).toList = (Import.ofName name).chars ++ ['\n'] := by
  have hend : ";\n".toList = ";".toList ++ ['\n'] := by decide
  rw [CompilationUnit.importText, String.toList_append, String.toList_append, hend]
  change _ = "import ".toList ++ [] ++ name.toList ++ [] ++ ";".toList ++ ['\n']
  simp only [List.append_nil, List.append_assoc]

/-- One edit that inserts all the names, unless there are none. -/
def insertNames (offset : Nat) (names : List String) : List Edit :=
  if names.isEmpty then []
  else [Edit.insert offset (String.join (names.map CompilationUnit.importText))]

theorem toList_join_importText (names : List String) :
    (String.join (names.map CompilationUnit.importText)).toList =
      importsChars (names.map .ofName) := by
  rw [String.toList_join, List.flatMap_map, importsChars, List.flatMap_map]
  simp only [toList_importText]

open Edit (Revises InsertsApart)

theorem insertNames_revises (n : Nat) (names : List String) :
    Revises n [] (insertNames n names) (importsChars (names.map .ofName)) := by
  cases names with
  | nil => exact .keep n []
  | cons name names =>
    have hswap := Revises.swap n [] (String.join ((name :: names).map CompilationUnit.importText))
    rw [toList_join_importText] at hswap
    exact hswap

namespace ImportLine

open MarkedImport

variable {n stop : Nat} {lines : List ImportLine} {names : List String}
  {gone : ImportLine → Bool}

/-- The lines stand in a text one after the other, from the offset on. -/
def Stand : Nat → List ImportLine → Prop
  | _, [] => True
  | n, l :: rest =>
    l.span = ⟨n, n + l.line.chars.byteLength⟩ ∧ Stand (n + l.line.chars.byteLength + 1) rest

/-- Takes out a line with its line break. -/
def deletion (l : ImportLine) : Edit := Edit.delete ⟨l.span.start, l.span.stop + 1⟩

/-- The edits of the lines in the order of the text. -/
def blockEdits (gone : ImportLine → Bool) (stop : Nat) : List String → List ImportLine → List Edit
  | names, [] => insertNames stop names
  | names, l :: rest =>
    insertNames l.span.start (names.filter l.line.follows) ++
      ((if gone l then [l.deletion] else []) ++
        blockEdits gone stop (names.filter (!l.line.follows ·)) rest)

theorem byteLength_line (i : Import) :
    (i.chars ++ ['\n']).byteLength = i.chars.byteLength + 1 := by
  rw [Chars.byteLength_append]
  rfl

theorem Stand.head {l : ImportLine} {rest : List ImportLine} (h : Stand n (l :: rest)) :
    l.span = ⟨n, n + l.line.chars.byteLength⟩ := h.1

theorem Stand.tail {l : ImportLine} {rest : List ImportLine} (h : Stand n (l :: rest)) :
    Stand (n + (l.line.chars ++ ['\n']).byteLength) rest := by
  rw [byteLength_line, ← Nat.add_assoc]
  exact h.2

theorem deletion_eq {l : ImportLine} (h : l.span = ⟨n, n + l.line.chars.byteLength⟩) :
    l.deletion = ⟨⟨n, n + (l.line.chars ++ ['\n']).byteLength⟩, ""⟩ := by
  rw [deletion, h, byteLength_line, ← Nat.add_assoc]
  rfl

theorem importsChars_append (a b : List Import) :
    importsChars (a ++ b) = importsChars a ++ importsChars b := List.flatMap_append

/-- The edits put the new lines where they belong and take out those that go. -/
theorem blockEdits_revises (h : Stand n lines)
    (hstop : stop = n + (importsChars (lines.map (·.line))).byteLength) :
    Revises n (importsChars (lines.map (·.line))) (blockEdits gone stop names lines)
      (importsChars (MarkedImport.staying
        (MarkedImport.interleave names (marked gone lines)))) := by
  induction lines generalizing n names with
  | nil =>
    obtain rfl : stop = n := hstop
    have hnames := insertNames_revises stop names
    rw [← staying_map_ofName] at hnames
    exact hnames
  | cons l rest ih =>
    have hcons : importsChars ((l :: rest).map (·.line)) =
        (l.line.chars ++ ['\n']) ++ importsChars (rest.map (·.line)) := rfl
    rw [hcons, Chars.byteLength_append, ← Nat.add_assoc] at hstop
    have hinsert := insertNames_revises n (names.filter l.line.follows)
    have hrest : Revises _ _ (blockEdits gone stop (names.filter (!l.line.follows ·)) rest) _ :=
      ih h.tail hstop
    have hline : Revises n (l.line.chars ++ ['\n']) (if gone l then [l.deletion] else [])
        (importsChars (MarkedImport.staying [(l.line, !gone l)])) := by
      cases gone l with
      | true =>
        rw [if_pos rfl, deletion_eq h.head]
        exact Revises.swap n _ ""
      | false =>
        have hkept : importsChars (MarkedImport.staying [(l.line, true)]) =
            l.line.chars ++ ['\n'] :=
          List.append_nil _
        exact hkept ▸ .keep n _
    have hall := hinsert.append (hline.append hrest)
    have hnew : MarkedImport.interleave names (marked gone (l :: rest)) =
        (names.filter l.line.follows).map MarkedImport.ofName ++ ([(l.line, !gone l)] ++
          MarkedImport.interleave (names.filter (!l.line.follows ·)) (marked gone rest)) := rfl
    rw [hcons, blockEdits, h.head, hnew, staying_append, staying_map_ofName, staying_append,
      importsChars_append, importsChars_append]
    exact hall

/-- The edit of a line when all of `m` lines go: the last one takes an empty line with it. -/
def clearing (m : Nat) (x : ImportLine × Nat) : Edit :=
  if x.2 + 1 == m then Edit.delete ⟨x.1.span.start, x.1.span.stop + 2⟩ else x.1.deletion

theorem isEmpty_deletion {l : ImportLine} (h : l.span.start ≤ l.span.stop) :
    l.deletion.span.isEmpty = false := by
  simp only [deletion, Edit.delete, Span.isEmpty, beq_eq_false_iff_ne]
  omega

theorem isEmpty_clearing (m : Nat) {x : ImportLine × Nat} (h : x.1.span.start ≤ x.1.span.stop) :
    (clearing m x).span.isEmpty = false := by
  unfold clearing
  split
  · simp only [Edit.delete, Span.isEmpty, beq_eq_false_iff_ne]
    omega
  · exact isEmpty_deletion h

theorem clearing_revises {k m : Nat} (h : Stand n lines) (hne : lines ≠ [])
    (hm : m = k + lines.length) :
    Revises n (importsChars (lines.map (·.line)) ++ ['\n']) ((lines.zipIdx k).map (clearing m))
      [] := by
  induction lines generalizing n k with
  | nil => exact (hne rfl).elim
  | cons l rest ih =>
    have hcons : importsChars ((l :: rest).map (·.line)) =
        (l.line.chars ++ ['\n']) ++ importsChars (rest.map (·.line)) := rfl
    rw [hcons, List.append_assoc, List.zipIdx_cons, List.map_cons]
    cases rest with
    | nil =>
      have hlast : clearing m (l, k) =
          ⟨⟨n, n + (l.line.chars ++ ['\n'] ++ ['\n']).byteLength⟩, ""⟩ := by
        have hlen : n + (l.line.chars ++ ['\n'] ++ ['\n']).byteLength =
            n + l.line.chars.byteLength + 2 := by
          have hbreak : Chars.byteLength ['\n'] = 1 := rfl
          rw [Chars.byteLength_append, byteLength_line, hbreak]
          omega
        rw [hlen, clearing, if_pos (by simpa using hm.symm), h.head]
        rfl
      rw [hlast]
      exact Revises.swap n _ ""
    | cons l' rest =>
      have hmiddle : clearing m (l, k) = l.deletion := by
        rw [clearing, if_neg]
        simp only [List.length_cons] at hm
        simp only [beq_iff_eq]
        omega
      have hrest := ih (k := k + 1) h.tail (List.cons_ne_nil _ _) (by simp at hm ⊢; omega)
      rw [hmiddle, deletion_eq h.head]
      exact (Revises.swap n (l.line.chars ++ ['\n']) "").append hrest

/-- In any order, the edits are the deletions and the insertions. -/
theorem blockEdits_perm : (blockEdits gone stop names lines).Perm
    ((lines.filter gone).map deletion ++ blockEdits (fun _ => false) stop names lines) := by
  induction lines generalizing names with
  | nil => exact .refl _
  | cons l rest ih =>
    have hdelete : ((l :: rest).filter gone).map deletion =
        (if gone l then [l.deletion] else []) ++ (rest.filter gone).map deletion := by
      cases h : gone l <;> simp [h]
    rw [blockEdits, hdelete, blockEdits]
    refine (List.Perm.append_left _ (List.Perm.append_left _ ih)).trans ?_
    simp only [Bool.false_eq_true, if_false, List.nil_append, ← List.append_assoc]
    refine List.Perm.append_right _ ?_
    rw [List.append_assoc]
    exact List.perm_append_comm

/-- Where a name is inserted: at the first line that follows it, else at the end. -/
def slot (stop : Nat) (lines : List ImportLine) (name : String) : Nat :=
  (lines.find? (·.line.follows name)).elim stop (·.span.start)

/-- The names that are inserted at an offset. -/
def group (stop : Nat) (lines : List ImportLine) (names : List String) (offset : Nat) :
    List String :=
  names.filter (slot stop lines · == offset)

theorem slot_cons (l : ImportLine) (rest : List ImportLine) (name : String) :
    slot stop (l :: rest) name =
      if l.line.follows name then l.span.start else slot stop rest name := by
  rw [slot, List.find?_cons]
  cases l.line.follows name <;> rfl

theorem slot_mem (name : String) : slot stop lines name ∈ lines.map (·.span.start) ++ [stop] := by
  rw [slot]
  cases h : lines.find? (·.line.follows name) with
  | none => simp
  | some l => exact List.mem_append_left _ (List.mem_map_of_mem (List.mem_of_find?_eq_some h))

theorem group_head {l : ImportLine} {rest : List ImportLine}
    (hl : l.span.start ∉ rest.map (·.span.start) ++ [stop]) :
    group stop (l :: rest) names l.span.start = names.filter l.line.follows := by
  refine List.filter_congr fun name _ => ?_
  rw [slot_cons]
  cases l.line.follows name with
  | true => simp
  | false =>
    have hne : slot stop rest name ≠ l.span.start := fun h => hl (h ▸ slot_mem name)
    simpa using hne

theorem group_tail {l : ImportLine} {rest : List ImportLine} {offset : Nat}
    (hne : l.span.start ≠ offset) :
    group stop (l :: rest) names offset =
      group stop rest (names.filter (!l.line.follows ·)) offset := by
  rw [group, group, List.filter_filter]
  refine List.filter_congr fun name _ => ?_
  rw [slot_cons]
  cases l.line.follows name with
  | true => simpa using hne
  | false => simp

theorem mem_insertNames {offset : Nat} {e : Edit} : e ∈ insertNames offset names ↔
    names ≠ [] ∧ e = Edit.insert offset (String.join (names.map CompilationUnit.importText)) := by
  cases names <;> simp [insertNames]

/-- Each name is inserted with all others of its place. -/
theorem mem_blockEdits {e : Edit} (hn : (lines.map (·.span.start) ++ [stop]).Nodup) :
    e ∈ blockEdits (fun _ => false) stop names lines ↔ ∃ name ∈ names,
      e = Edit.insert (slot stop lines name) (String.join
        ((group stop lines names (slot stop lines name)).map CompilationUnit.importText)) := by
  induction lines generalizing names with
  | nil =>
    have hall : group stop [] names stop = names := by simp [group, slot]
    rw [blockEdits, mem_insertNames]
    constructor
    · rintro ⟨hne, rfl⟩
      obtain ⟨name, hname⟩ := List.exists_mem_of_ne_nil names hne
      exact ⟨name, hname, by rw [show slot stop [] name = stop from rfl, hall]⟩
    · rintro ⟨name, hname, rfl⟩
      refine ⟨List.ne_nil_of_mem hname, ?_⟩
      rw [show slot stop [] name = stop from rfl, hall]
  | cons l rest ih =>
    have hl : l.span.start ∉ rest.map (·.span.start) ++ [stop] := (List.nodup_cons.1 hn).1
    have hrest := (List.nodup_cons.1 hn).2
    have hne (name : String) : l.span.start ≠ slot stop rest name := by
      intro h
      exact hl (h ▸ slot_mem name)
    rw [blockEdits, List.mem_append, mem_insertNames]
    simp only [Bool.false_eq_true, if_false, List.nil_append]
    rw [ih hrest]
    constructor
    · rintro (⟨hsome, rfl⟩ | ⟨name, hname, rfl⟩)
      · obtain ⟨name, hname⟩ := List.exists_mem_of_ne_nil _ hsome
        obtain ⟨hname, hf⟩ := List.mem_filter.1 hname
        refine ⟨name, hname, ?_⟩
        rw [slot_cons, if_pos hf, group_head hl]
      · obtain ⟨hname, hf⟩ := List.mem_filter.1 hname
        refine ⟨name, hname, ?_⟩
        rw [slot_cons, if_neg (by simpa using hf), group_tail (hne name)]
    · rintro ⟨name, hname, rfl⟩
      rw [slot_cons]
      by_cases hf : l.line.follows name = true
      · rw [if_pos hf, group_head hl]
        exact .inl ⟨List.ne_nil_of_mem (List.mem_filter.2 ⟨hname, hf⟩), rfl⟩
      · rw [if_neg hf, group_tail (hne name)]
        exact .inr ⟨name, List.mem_filter.2 ⟨hname, by simpa using hf⟩, rfl⟩

/-- Insertions stand at the starts of lines, or at the end. -/
theorem starts_blockEdits : ((blockEdits (fun _ => false) stop names lines).map
    (·.span.start)).Sublist (lines.map (·.span.start) ++ [stop]) := by
  have hnames (offset : Nat) (names : List String) :
      ((insertNames offset names).map (·.span.start)).Sublist [offset] := by
    cases names with
    | nil => exact List.nil_sublist _
    | cons name names => exact List.Sublist.refl _
  induction lines generalizing names with
  | nil => exact hnames stop names
  | cons l rest ih =>
    rw [blockEdits, List.map_append]
    exact (hnames _ _).append ih

theorem Stand.le_start (h : Stand n lines) {l : ImportLine} (hl : l ∈ lines) :
    n ≤ l.span.start := by
  induction lines generalizing n with
  | nil => simp at hl
  | cons k rest ih =>
    rcases List.mem_cons.1 hl with rfl | hl
    · exact Nat.le_of_eq (by rw [h.head])
    · have := ih h.2 hl
      omega

theorem Stand.start_le (h : Stand n lines) {l : ImportLine} (hl : l ∈ lines) :
    l.span.start ≤ l.span.stop := by
  induction lines generalizing n with
  | nil => simp at hl
  | cons k rest ih =>
    rcases List.mem_cons.1 hl with rfl | hl
    · rw [h.head]
      exact Nat.le_add_right _ _
    · exact ih h.2 hl

theorem Stand.starts_nodup (h : Stand n lines)
    (hstop : stop = n + (importsChars (lines.map (·.line))).byteLength) :
    (lines.map (·.span.start) ++ [stop]).Nodup := by
  induction lines generalizing n with
  | nil => simp
  | cons l rest ih =>
    have hcons : importsChars ((l :: rest).map (·.line)) =
        (l.line.chars ++ ['\n']) ++ importsChars (rest.map (·.line)) := rfl
    rw [hcons, Chars.byteLength_append, ← Nat.add_assoc] at hstop
    refine List.nodup_cons.2 ⟨fun hmem => ?_, ih h.tail hstop⟩
    rw [byteLength_line] at hstop
    have hstart : l.span.start = n := by rw [h.head]
    rcases List.mem_append.1 hmem with hmem | hmem
    · obtain ⟨k, hk, heq⟩ := List.mem_map.1 hmem
      have := h.2.le_start hk
      dsimp only at heq
      omega
    · have heq : l.span.start = stop := List.mem_singleton.1 hmem
      omega

/-- The end of the last line. -/
theorem Stand.getLast (h : Stand n lines) {l : ImportLine} (hl : lines.getLast? = some l) :
    l.span.stop + 1 = n + (importsChars (lines.map (·.line))).byteLength := by
  induction lines generalizing n with
  | nil => simp at hl
  | cons k rest ih =>
    have hcons : importsChars ((k :: rest).map (·.line)) =
        (k.line.chars ++ ['\n']) ++ importsChars (rest.map (·.line)) := rfl
    rw [hcons, Chars.byteLength_append, ← Nat.add_assoc]
    cases rest with
    | nil =>
      obtain rfl : k = l := Option.some.inj hl
      have hnil : (importsChars (([] : List ImportLine).map (·.line))).byteLength = 0 := rfl
      rw [h.head, byteLength_line, hnil]
      dsimp only
      omega
    | cons m rest =>
      rw [List.getLast?_cons_cons] at hl
      exact ih h.tail hl

end ImportLine

end EnhancedFor
