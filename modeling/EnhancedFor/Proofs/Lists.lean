import Mathlib.Data.List.Forall2
import Mathlib.Data.List.Nodup
import Mathlib.Data.List.Pairwise

/-!
Facts about lists that the later modules share.
-/

namespace EnhancedFor

variable {α β γ : Type}

theorem nodup_eraseDups [BEq α] [LawfulBEq α] (xs : List α) : xs.eraseDups.Nodup := by
  induction hlen : xs.length using Nat.strongRecOn generalizing xs with
  | ind k ih =>
    cases xs with
    | nil => exact List.nodup_nil
    | cons x xs =>
      have hlt : (xs.filter fun y => !y == x).length < k :=
        hlen ▸ Nat.lt_succ_of_le (List.length_filter_le _ xs)
      rw [List.eraseDups_cons]
      refine List.nodup_cons.2 ⟨fun hmem => ?_, ih _ hlt _ rfl⟩
      have := (List.mem_filter.1 (List.mem_eraseDups.1 hmem)).2
      simp at this

theorem map_zipIdx_fst (xs : List α) (f : α → β) (k : Nat) :
    (xs.zipIdx k).map (fun x => f x.1) = xs.map f := by
  conv_rhs => rw [← List.zipIdx_map_fst k xs, List.map_map]
  rfl

theorem flatMap_zipIdx (xs : List α) (f : α → List β) (k : Nat) :
    (xs.zipIdx k).flatMap (fun x => f x.1) = xs.flatMap f := by
  rw [← List.flatMap_map, List.zipIdx_map_fst]

theorem flatMap_filterMap (xs : List α) (g : α → Option β) (f : β → List γ) :
    (xs.filterMap g).flatMap f = xs.flatMap fun x => (g x).toList.flatMap f := by
  induction xs with
  | nil => rfl
  | cons x xs ih => cases h : g x <;> simp [h, ih]

theorem findSome?_congr {f g : α → Option β} {xs : List α} (h : ∀ x ∈ xs, f x = g x) :
    xs.findSome? f = xs.findSome? g := by
  induction xs with
  | nil => rfl
  | cons x xs ih =>
    rw [List.findSome?_cons, List.findSome?_cons, h x List.mem_cons_self,
      ih fun y hy => h y (List.mem_cons_of_mem _ hy)]

theorem nodup_indices (xs : List α) : (xs.zipIdx.map Prod.snd).Nodup := by
  rw [List.zipIdx_map_snd]
  exact List.nodup_range'

/-- Lists that tell from which place they come have no entry in common. -/
theorem nodup_flatMap_zipIdx {xs : List α} {g : α × Nat → List β} (index : β → Option Nat)
    (hnodup : ∀ x ∈ xs.zipIdx, (g x).Nodup)
    (hindex : ∀ x ∈ xs.zipIdx, ∀ b ∈ g x, index b = some x.2) : (xs.zipIdx.flatMap g).Nodup := by
  refine List.nodup_flatMap.2 ⟨hnodup, ?_⟩
  refine (List.pairwise_map.1 (nodup_indices xs)).imp_of_mem fun {x y} hx hy hne b hbx hby => hne ?_
  have hsame := (hindex x hx b hbx).symm.trans (hindex y hy b hby)
  exact Option.some.inj hsame

/-- Of the entries of a list no two have a property. -/
theorem eq_of_pairwise_not {xs : List α} {P : α → Prop} {x y : α}
    (h : xs.Pairwise fun x y => ¬ (P x ∧ P y)) (hx : x ∈ xs) (hy : y ∈ xs) (hPx : P x) (hPy : P y) :
    x = y := by
  have : Std.Symm fun x y => ¬ (P x ∧ P y) := ⟨fun _ _ hnot hboth => hnot hboth.symm⟩
  by_contra hne
  exact h.forall hx hy hne ⟨hPx, hPy⟩

theorem find?_eq_some_of_unique {xs : List α} {p : α → Bool} {x : α} (hx : x ∈ xs)
    (hp : p x = true) (hunique : ∀ y ∈ xs, p y = true → y = x) : xs.find? p = some x := by
  cases h : xs.find? p with
  | none => exact (List.find?_eq_none.1 h x hx hp).elim
  | some y => rw [hunique y (List.mem_of_find?_eq_some h) (List.find?_some h)]

/-- The answers that are there belong to the questions that have one, in order. -/
theorem forall₂_filterMap {p : α → Bool} {R : α → β → Prop} {xs : List α}
    {ys : List (Option β)}
    (h : List.Forall₂ (fun x y => y.isSome = p x ∧ ∀ z, y = some z → R x z) xs ys) :
    List.Forall₂ R (xs.filter p) (ys.filterMap id) := by
  induction h with
  | nil => exact .nil
  | @cons x y xs ys hxy _ ih =>
    obtain ⟨hsome, hr⟩ := hxy
    cases y with
    | none => simpa [← hsome] using ih
    | some z => simpa [← hsome] using ⟨hr z rfl, ih⟩

theorem forall_mem_zipIdx (xs : List α) (p : α → Prop) (k : Nat) :
    (∀ x ∈ xs.zipIdx k, p x.1) ↔ ∀ a ∈ xs, p a := by
  conv_rhs => rw [← List.zipIdx_map_fst k xs, List.forall_mem_map]

end EnhancedFor
