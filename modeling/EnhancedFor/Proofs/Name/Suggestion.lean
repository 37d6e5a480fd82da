import Mathlib.Data.List.Perm.Subperm
import EnhancedFor.Name.Candidates
import EnhancedFor.Proofs.Lists

/-!
The names made from a base can be used: each is an identifier outside the excluded names. Words have
letters and digits only, so one more character repairs a keyword or a leading digit, and among one
number more than there are excluded names one is free. Main statement: every base gives such names,
no two equal.
-/

namespace EnhancedFor

namespace Java

variable {name : String} {c : Char} {cs : List Char}

theorem isLower_of_isKeyword (h : isKeyword name = true) : ∀ c ∈ name.toList, c.isLower = true := by
  have hall : (keywords.all fun k => k.toList.all Char.isLower) = true := by decide
  have hname := List.all_eq_true.1 hall name (List.contains_iff_mem.1 h)
  exact List.all_eq_true.1 hname

theorem not_isKeyword_of_mem (hc : c ∈ name.toList) (hl : c.isLower = false) :
    isKeyword name = false := by
  cases hk : isKeyword name with
  | false => rfl
  | true => simp [isLower_of_isKeyword hk c hc] at hl

theorem isIdentifier_iff (hname : name.toList = c :: cs) : isIdentifier name = true ↔
    isIdentifierStart c = true ∧ name ≠ "_" ∧ (∀ d ∈ cs, isIdentifierPart d = true) ∧
      isKeyword name = false := by
  unfold isIdentifier
  rw [hname]
  simp [and_assoc]

theorem isIdentifierPart_of_isAlphanum (h : c.isAlphanum = true) : isIdentifierPart c = true := by
  simp [isIdentifierPart, h]

/-- Two characters or more, one of them no lower case letter, are never a keyword or a lone `_`. -/
theorem isIdentifier_of_mem {d : Char} (hname : name.toList = c :: cs)
    (hc : isIdentifierStart c = true) (hcs : ∀ e ∈ cs, isIdentifierPart e = true) (hne : cs ≠ [])
    (hd : d ∈ c :: cs) (hl : d.isLower = false) : isIdentifier name = true := by
  rw [isIdentifier_iff hname]
  refine ⟨hc, ?_, hcs, not_isKeyword_of_mem (hname ▸ hd) hl⟩
  intro hlone
  rw [hlone] at hname
  exact hne (List.cons.inj hname).2.symm

end Java

namespace Name

open Java

variable {base name : String} {c : Char} {cs word : List Char} {ws : List (List Char)} {start : Nat}
  {excluded : List String}

/-- At least one letter or digit, and nothing else. -/
def IsWord (word : List Char) : Prop := word ≠ [] ∧ ∀ c ∈ word, c.isAlphanum = true

theorem isWord_of_mem_flush (hword : ∀ c ∈ word, c.isAlphanum = true)
    (hws : ∀ w ∈ ws, IsWord w) : ∀ w ∈ flush word ws, IsWord w := by
  intro w hw
  unfold flush at hw
  split at hw
  · exact hws w hw
  · rename_i hne
    rcases List.mem_cons.1 hw with rfl | hw
    · exact ⟨by simpa using hne, hword⟩
    · exact hws w hw

/-- The word begun so far is the invariant: it may be empty, but holds letters and digits only. -/
theorem isWord_of_mem_wordsFrom {previousUpper : Bool} (hword : ∀ c ∈ word, c.isAlphanum = true) :
    ∀ w ∈ wordsFrom previousUpper word cs, IsWord w := by
  induction cs generalizing previousUpper word with
  | nil => exact isWord_of_mem_flush hword fun w hw => (List.not_mem_nil hw).elim
  | cons c cs ih =>
    have hnext : ∀ d ∈ (if c.isAlphanum then [c] else []), d.isAlphanum = true := by
      intro d hd
      split at hd
      · rename_i hc
        exact List.mem_singleton.1 hd ▸ hc
      · exact (List.not_mem_nil hd).elim
    intro w hw
    rw [wordsFrom] at hw
    split at hw
    · exact isWord_of_mem_flush hword (ih fun d hd => (List.not_mem_nil hd).elim) w hw
    · dsimp only at hw
      split at hw
      · rename_i hbegins
        rcases List.mem_cons.1 hw with rfl | hw
        · simp only [Bool.and_eq_true, Bool.not_eq_true', List.isEmpty_eq_false_iff] at hbegins
          exact ⟨hbegins.1.2, hword⟩
        · exact ih hnext w hw
      · refine ih (fun d hd => ?_) w hw
        rcases List.mem_append.1 hd with hd | hd
        · exact hword d hd
        · exact hnext d hd

/-- Letters and digits stay such in either case. -/
theorem isAlphanum_case (h : c.isAlphanum = true) :
    c.toLower.isAlphanum = true ∧ c.toUpper.isAlphanum = true := by
  have hall : ∀ n : Fin 128, (Char.ofNat n).isAlphanum = true →
      (Char.ofNat n).toLower.isAlphanum = true ∧ (Char.ofNat n).toUpper.isAlphanum = true := by
    decide
  have hlt : c.toNat < 128 := by
    have hcases : ((decide (c.val ≥ 'A'.val ∧ c.val ≤ 'Z'.val) ||
        decide (c.val ≥ 'a'.val) && decide (c.val ≤ 'z'.val)) ||
          decide (c.val ≥ '0'.val) && decide (c.val ≤ '9'.val)) = true := h
    simp only [Bool.or_eq_true, Bool.and_eq_true, decide_eq_true_eq, UInt32.le_iff_toNat_le,
      ge_iff_le] at hcases
    have hz : 'z'.val.toNat = 122 := rfl
    have hZ : 'Z'.val.toNat = 90 := rfl
    have h9 : '9'.val.toNat = 57 := rfl
    unfold Char.toNat
    omega
  have hc := hall ⟨c.toNat, hlt⟩
  rw [Char.ofNat_toNat] at hc
  exact hc h

theorem isAlphanum_of_mem_capitalize (hword : ∀ c ∈ word, c.isAlphanum = true) :
    ∀ c ∈ capitalize word, c.isAlphanum = true := by
  cases word with
  | nil => exact fun c hc => (List.not_mem_nil hc).elim
  | cons d ds =>
    intro c hc
    rcases List.mem_cons.1 hc with rfl | hc
    · exact (isAlphanum_case (hword d List.mem_cons_self)).2
    · obtain ⟨e, he, rfl⟩ := List.mem_map.1 hc
      exact (isAlphanum_case (hword e (List.mem_cons_of_mem _ he))).1

theorem isWord_lowerCamel (hne : ws ≠ []) (hws : ∀ w ∈ ws, IsWord w) : IsWord (lowerCamel ws) := by
  cases ws with
  | nil => exact (hne rfl).elim
  | cons w ws =>
    obtain ⟨hw, hchars⟩ := hws w List.mem_cons_self
    refine ⟨by simp [lowerCamel, hw], fun c hc => ?_⟩
    rcases List.mem_append.1 hc with hc | hc
    · obtain ⟨d, hd, rfl⟩ := List.mem_map.1 hc
      exact (isAlphanum_case (hchars d hd)).1
    · obtain ⟨cs, hcs, hc⟩ := List.mem_flatten.1 hc
      obtain ⟨v, hv, rfl⟩ := List.mem_map.1 hcs
      exact isAlphanum_of_mem_capitalize (hws v (List.mem_cons_of_mem _ hv)).2 c hc

theorem mem_suffixes {α : Type} {xs suffix : List α} (h : suffix ∈ suffixes xs) :
    suffix ≠ [] ∧ ∀ x ∈ suffix, x ∈ xs := by
  induction xs with
  | nil => exact (List.not_mem_nil h).elim
  | cons x xs ih =>
    rcases List.mem_cons.1 h with rfl | h
    · exact ⟨List.cons_ne_nil x xs, fun y hy => hy⟩
    · exact ⟨(ih h).1, fun y hy => List.mem_cons_of_mem _ ((ih h).2 y hy)⟩

theorem not_isDigit_of_isLower (h : c.isLower = true) : c.isDigit = false := by
  have hcases : (decide (c.val ≥ 'a'.val) && decide (c.val ≤ 'z'.val)) = true := h
  simp only [Bool.and_eq_true, decide_eq_true_eq, UInt32.le_iff_toNat_le, ge_iff_le] at hcases
  simp only [Char.isDigit, Bool.and_eq_false_iff, decide_eq_false_iff_not, UInt32.le_iff_toNat_le,
    ge_iff_le]
  have ha : 'a'.val.toNat = 97 := rfl
  have h9 : '9'.val.toNat = 57 := rfl
  omega

/-- A word made usable is an identifier. -/
theorem isIdentifier_sanitize (h : IsWord name.toList) : isIdentifier (sanitize name) = true := by
  obtain ⟨hne, hchars⟩ := h
  cases hname : name.toList with
  | nil => exact (hne hname).elim
  | cons c cs =>
    rw [hname] at hchars
    have hparts : ∀ d ∈ c :: cs, isIdentifierPart d = true :=
      fun d hd => isIdentifierPart_of_isAlphanum (hchars d hd)
    have htail : ∀ d ∈ cs, isIdentifierPart d = true :=
      fun d hd => hparts d (List.mem_cons_of_mem _ hd)
    have hstart (hdigit : c.isDigit = false) : isIdentifierStart c = true := by
      have hc := hchars c List.mem_cons_self
      simp only [Char.isAlphanum, hdigit, Bool.or_false] at hc
      simp [isIdentifierStart, hc]
    unfold sanitize
    cases hk : isKeyword name with
    | true =>
      -- A keyword starts with a letter, so only the `_` at its end is new.
      have hlower : c.isLower = true := isLower_of_isKeyword hk c (hname ▸ List.mem_cons_self)
      have hdigit : c.isDigit = false := not_isDigit_of_isLower hlower
      have hlong : (name ++ "_").toList = c :: (cs ++ ['_']) := by
        rw [String.toList_append, hname]
        rfl
      simp only [if_true, hlong, List.head?_cons, Option.any_some, hdigit, Bool.false_eq_true,
        if_false]
      refine isIdentifier_of_mem hlong (hstart hdigit) (fun d hd => ?_) (by simp) (d := '_')
        (by simp) rfl
      rcases List.mem_append.1 hd with hd | hd
      · exact htail d hd
      · exact List.mem_singleton.1 hd ▸ rfl
    | false =>
      simp only [Bool.false_eq_true, if_false, hname, List.head?_cons, Option.any_some]
      split
      · have hlong : ("_" ++ name).toList = '_' :: c :: cs := by
          rw [String.toList_append, hname]
          rfl
        exact isIdentifier_of_mem hlong rfl hparts (List.cons_ne_nil c cs) List.mem_cons_self rfl
      · rename_i hdigit
        rw [isIdentifier_iff hname]
        refine ⟨hstart (Bool.eq_false_iff.2 hdigit), ?_, htail, hk⟩
        intro hlone
        rw [hlone] at hname
        rw [← (List.cons.inj hname).1] at hchars
        exact absurd (hchars '_' List.mem_cons_self) (by decide)

theorem mem_dropRepeats {xs : List String} (h : name ∈ dropRepeats xs) : name ∈ xs := by
  fun_induction dropRepeats xs with
  | case1 x y rest _ ih => exact List.mem_cons_of_mem _ (ih h)
  | case2 x y rest _ ih =>
    rcases List.mem_cons.1 h with rfl | h
    · exact List.mem_cons_self
    · exact List.mem_cons_of_mem _ (ih h)
  | case3 xs _ => exact h

theorem dropRepeats_ne_nil {xs : List String} (h : xs ≠ []) : dropRepeats xs ≠ [] := by
  fun_induction dropRepeats xs with
  | case1 x y rest _ ih => exact ih (List.cons_ne_nil y rest)
  | case2 x y rest _ _ => exact List.cons_ne_nil _ _
  | case3 xs _ => exact h

theorem bases_ne_nil : bases base ≠ [] := by
  unfold bases
  dsimp only
  split
  · exact List.cons_ne_nil _ _
  · rename_i hne
    exact dropRepeats_ne_nil (by simpa using hne)

theorem isIdentifier_of_mem_bases (h : name ∈ bases base) : isIdentifier name = true := by
  unfold bases at h
  dsimp only at h
  split at h
  · obtain rfl := List.mem_singleton.1 h
    decide
  · obtain ⟨ws, hws, rfl⟩ := List.mem_map.1 (List.mem_of_mem_filter (mem_dropRepeats h))
    obtain ⟨hne, hin⟩ := mem_suffixes hws
    apply isIdentifier_sanitize
    rw [String.toList_ofList]
    apply isWord_lowerCamel hne
    intro w hw
    exact isWord_of_mem_wordsFrom (fun d hd => (List.not_mem_nil hd).elim) w (hin w hw)

/-- A number is written with at least one digit, and with digits only. -/
theorem digits_toString (k : Nat) :
    (toString k).toList ≠ [] ∧ ∀ d ∈ (toString k).toList, d.isDigit = true := by
  rw [Nat.toString_eq_ofList_toDigits, String.toList_ofList]
  exact ⟨Nat.toDigits_ne_nil, fun d hd => Nat.isDigit_of_mem_toDigits (by omega) (by omega) hd⟩

theorem isIdentifier_numbered (h : isIdentifier base = true) (k : Nat) :
    isIdentifier (base ++ toString k) = true := by
  obtain ⟨hne, hdigits⟩ := digits_toString k
  cases hbase : base.toList with
  | nil => simp [isIdentifier, hbase] at h
  | cons c cs =>
    obtain ⟨hc, -, hcs, -⟩ := (isIdentifier_iff hbase).1 h
    have hlong : (base ++ toString k).toList = c :: (cs ++ (toString k).toList) := by
      rw [String.toList_append, hbase, List.cons_append]
    obtain ⟨d, hd⟩ := List.exists_mem_of_ne_nil _ hne
    have hlower : d.isLower = false := by
      by_contra hlower
      have := not_isDigit_of_isLower (eq_true_of_ne_false hlower)
      exact Bool.false_ne_true (this.symm.trans (hdigits d hd))
    have hin : d ∈ cs ++ (toString k).toList := List.mem_append_right _ hd
    refine isIdentifier_of_mem hlong hc (fun e he => ?_) (List.ne_nil_of_mem hin)
      (List.mem_cons_of_mem _ hin) hlower
    rcases List.mem_append.1 he with he | he
    · exact hcs e he
    · exact isIdentifierPart_of_isAlphanum (by simp [Char.isAlphanum, hdigits e he])

theorem numbered_injective {i j : Nat} (h : base ++ toString i = base ++ toString j) : i = j := by
  have hlist := congrArg String.toList h
  rw [String.toList_append, String.toList_append] at hlist
  have hdigits := congrArg (fun ds => Nat.ofDigitChars 10 ds 0) (List.append_cancel_left hlist)
  simpa [Nat.toString_eq_ofList_toDigits] using hdigits

/-- Of one number more than there are excluded names, one is free. -/
theorem exists_free (base : String) (first : Nat) (excluded : List String) :
    ∃ i ≤ excluded.length, base ++ toString (first + i) ∉ excluded := by
  by_contra hall
  push Not at hall
  have hnodup : ((List.range (excluded.length + 1)).map
      fun i => base ++ toString (first + i)).Nodup := by
    apply List.Nodup.map _ List.nodup_range
    intro i j h
    have := numbered_injective h
    omega
  have hsub : (List.range (excluded.length + 1)).map (fun i => base ++ toString (first + i)) ⊆
      excluded := by
    intro name hname
    obtain ⟨i, hi, rfl⟩ := List.mem_map.1 hname
    exact hall i (by have := List.mem_range.1 hi; omega)
  have hle := (hnodup.subperm hsub).length_le
  rw [List.length_map, List.length_range] at hle
  omega

/-- The search ends at the first free number, which is before the numbers run over. -/
theorem firstNumbered?_eq_some {first i : Nat} (hi : i ≤ excluded.length)
    (hfree : base ++ toString (first + i) ∉ excluded) (hbound : first + i < numberBound) :
    ∃ k, first ≤ k ∧ k ≤ first + i ∧
      firstNumbered? base first excluded = some (base ++ toString k) := by
  unfold firstNumbered?
  dsimp only
  rw [List.find?_map]
  generalize hp : ((fun name => !excluded.contains name) ∘
    fun i => base ++ toString ((first + i) % numberBound)) = p
  have hpi : p i = true := by
    rw [← hp]
    simpa [Nat.mod_eq_of_lt hbound] using hfree
  cases hfind : (List.range (excluded.length + 1)).find? p with
  | none =>
    rw [List.find?_eq_none] at hfind
    exact (hfind i (List.mem_range.2 (by omega)) hpi).elim
  | some j =>
    obtain ⟨-, -, hleast⟩ := List.find?_range_eq_some.1 hfind
    have hj : j ≤ i := by
      by_contra hlt
      have := hleast i (by omega)
      simp [hpi] at this
    refine ⟨first + j, by omega, by omega, ?_⟩
    rw [Option.map_some, Nat.mod_eq_of_lt (by omega)]

/-- A base, or a base with a number between two others; the plain base only where numbers start at
zero. -/
inductive MadeFrom (base : String) (first last : Nat) : String → Prop where
  | plain {b : String} (hb : b ∈ bases base) (hfirst : first = 0) : MadeFrom base first last b
  | numbered {b : String} {k : Nat} (hb : b ∈ bases base) (hk : first ≤ k) (hlast : k ≤ last) :
    MadeFrom base first last (b ++ toString k)

theorem MadeFrom.isIdentifier {first last : Nat} (h : MadeFrom base first last name) :
    isIdentifier name = true := by
  cases h with
  | plain hb _ => exact isIdentifier_of_mem_bases hb
  | numbered hb _ _ => exact isIdentifier_numbered (isIdentifier_of_mem_bases hb) _

/-- The names tried first: all bases, with the number `start` unless it is zero. -/
def candidates (base : String) (start : Nat) : List String :=
  (bases base).map fun b => if start == 0 then b else b ++ toString start

theorem madeFrom_of_mem_candidates {last : Nat} (h : name ∈ candidates base start)
    (hlast : start ≤ last) : MadeFrom base start last name := by
  obtain ⟨b, hb, rfl⟩ := List.mem_map.1 h
  split
  · rename_i hzero
    exact .plain hb (beq_iff_eq.1 hzero)
  · exact .numbered hb (Nat.le_refl start) hlast

/-- The candidates that are not excluded. -/
def freeCandidates (base : String) (start : Nat) (excluded : List String) : List String :=
  ((candidates base start).filter fun name => !excluded.contains name).eraseDups

theorem mem_freeCandidates :
    name ∈ freeCandidates base start excluded ↔ name ∈ candidates base start ∧ name ∉ excluded := by
  simp [freeCandidates]

/-- The free candidates, or the numbered name where there are none. -/
theorem suggest_eq (base : String) (start : Nat) (excluded : List String) :
    suggest base start excluded = if (freeCandidates base start excluded).isEmpty then
      (firstNumbered? ((bases base).getLast?.getD fallbackBase) (max start 1) excluded).toList
    else freeCandidates base start excluded := rfl

/-- Where no candidate is free, a base with a free number is the answer. -/
theorem suggest_eq_numbered (h : freeCandidates base start excluded = [])
    (hbound : start + excluded.length < numberBound) :
    ∃ b ∈ bases base, ∃ k, start ≤ k ∧ k ≤ start + excluded.length ∧
      suggest base start excluded = [b ++ toString k] := by
  obtain ⟨b, hlast⟩ : ∃ b, (bases base).getLast? = some b :=
    ⟨_, List.getLast?_eq_some_getLast bases_ne_nil⟩
  have hb : b ∈ bases base := List.mem_of_getLast? hlast
  -- From zero the plain base is excluded as well, so one number less is needed.
  obtain ⟨i, hi, hle, hfree⟩ : ∃ i ≤ excluded.length, max start 1 + i ≤ start + excluded.length ∧
      b ++ toString (max start 1 + i) ∉ excluded := by
    by_cases hzero : start = 0
    · subst hzero
      have hplain : b ∈ excluded := by
        by_contra hout
        have hmem : b ∈ freeCandidates base 0 excluded :=
          mem_freeCandidates.2 ⟨List.mem_map.2 ⟨b, hb, rfl⟩, hout⟩
        exact List.not_mem_nil (h ▸ hmem)
      obtain ⟨i, hi, hfree⟩ := exists_free b 1 (excluded.erase b)
      have hpos := List.length_pos_of_mem hplain
      rw [List.length_erase_of_mem hplain] at hi
      refine ⟨i, by omega, by omega, ?_⟩
      rwa [List.mem_erase_of_ne] at hfree
      intro heq
      have hdigits := congrArg String.toList heq
      rw [String.toList_append, List.append_right_eq_self] at hdigits
      exact (digits_toString _).1 hdigits
    · obtain ⟨i, hi, hfree⟩ := exists_free b start excluded
      have hmax : max start 1 = start := by omega
      exact ⟨i, hi, by omega, by rwa [hmax]⟩
  obtain ⟨k, hk, hki, hfound⟩ := firstNumbered?_eq_some hi hfree (by omega)
  refine ⟨b, hb, k, by omega, by omega, ?_⟩
  rw [suggest_eq, h, hlast, Option.getD_some, hfound]
  rfl

theorem not_mem_of_mem_suggest (h : name ∈ suggest base start excluded) : name ∉ excluded := by
  rw [suggest_eq] at h
  split at h
  · have hfound := List.find?_some (Option.mem_toList.1 h)
    simpa using hfound
  · exact (mem_freeCandidates.1 h).2

theorem nodup_suggest : (suggest base start excluded).Nodup := by
  rw [suggest_eq]
  split
  · cases firstNumbered? ((bases base).getLast?.getD fallbackBase) (max start 1) excluded with
    | none => exact List.nodup_nil
    | some name => exact List.nodup_singleton name
  · exact nodup_eraseDups _

section

variable (hbound : start + excluded.length < numberBound)

include hbound

theorem suggest_ne_nil : suggest base start excluded ≠ [] := by
  by_cases hfree : freeCandidates base start excluded = []
  · obtain ⟨b, -, k, -, -, heq⟩ := suggest_eq_numbered hfree hbound
    rw [heq]
    exact List.cons_ne_nil _ _
  · rw [suggest_eq, if_neg (by rwa [List.isEmpty_iff])]
    exact hfree

theorem madeFrom_of_mem_suggest (h : name ∈ suggest base start excluded) :
    MadeFrom base start (start + excluded.length) name := by
  by_cases hfree : freeCandidates base start excluded = []
  · obtain ⟨b, hb, k, hk, hlast, heq⟩ := suggest_eq_numbered hfree hbound
    rw [heq, List.mem_singleton] at h
    rw [h]
    exact .numbered hb hk hlast
  · rw [suggest_eq, if_neg (by rwa [List.isEmpty_iff])] at h
    exact madeFrom_of_mem_candidates (mem_freeCandidates.1 h).1 (Nat.le_add_right _ _)

end

/-- For every base, first number and list of excluded names: there is a suggestion, no two are
equal, and each is an identifier that is not excluded. Numbers do not run over: the last one tried
is at most the first plus the number of excluded names. -/
theorem suggest_usable (base : String) (start : Nat) (excluded : List String)
    (hbound : start + excluded.length < numberBound) :
    suggest base start excluded ≠ [] ∧ (suggest base start excluded).Nodup ∧
      ∀ name ∈ suggest base start excluded, isIdentifier name = true ∧ name ∉ excluded ∧
        MadeFrom base start (start + excluded.length) name := by
  refine ⟨suggest_ne_nil hbound, nodup_suggest, fun name hname => ?_⟩
  have hmade := madeFrom_of_mem_suggest hbound hname
  exact ⟨hmade.isIdentifier, not_mem_of_mem_suggest hname, hmade⟩

/-- A keyword gets a `_`, and a number when that name is taken as well. -/
theorem keyword_numbered : 0 + ["int_"].length < numberBound ∧
    suggest "Int" 0 ["int_"] = ["int_1"] ∧ isIdentifier "int_1" = true ∧ "int_1" ∉ ["int_"] := by
  have heq : suggest "Int" 0 ["int_"] = ["int_1"] := by decide
  have hbound : 0 + ["int_"].length < numberBound := by decide
  obtain ⟨-, -, husable⟩ := suggest_usable "Int" 0 ["int_"] hbound
  obtain ⟨hname, hout, -⟩ := husable "int_1" (heq ▸ List.mem_singleton_self _)
  exact ⟨hbound, heq, hname, hout⟩

end Name
end EnhancedFor
