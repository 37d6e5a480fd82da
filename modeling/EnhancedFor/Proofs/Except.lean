import Mathlib.Data.List.Forall2

/-!
Facts about computations that may fail, one after the other and along lists.
-/

namespace EnhancedFor

variable {ε σ α β : Type}

theorem bind_eq_ok {x : Except ε α} {f : α → Except ε β} {b : β} :
    (x >>= f) = .ok b ↔ ∃ a, x = .ok a ∧ f a = .ok b := by
  cases x <;> simp [bind, Except.bind]

theorem mapError_eq_ok {δ : Type} {x : Except ε α} {f : ε → δ} {a : α} :
    x.mapError f = .ok a ↔ x = .ok a := by
  cases x <;> simp [Except.mapError]

theorem foldlM_congr {f g : σ → α → Except ε σ} {xs : List α}
    (h : ∀ x ∈ xs, ∀ s, f s x = g s x) (s : σ) : xs.foldlM f s = xs.foldlM g s := by
  induction xs generalizing s with
  | nil => rfl
  | cons x xs ih =>
    rw [List.foldlM_cons, List.foldlM_cons, h x List.mem_cons_self]
    exact congrArg _ (funext fun s => ih (fun y hy => h y (List.mem_cons_of_mem _ hy)) s)

theorem foldlM_ok {f : List β → α → Except ε (List β)} {g : α → List β}
    {xs : List α} (h : ∀ x ∈ xs, ∀ out, f out x = .ok ((g x).reverse ++ out)) (out : List β) :
    xs.foldlM f out = .ok ((xs.flatMap g).reverse ++ out) := by
  induction xs generalizing out with
  | nil => rfl
  | cons x xs ih =>
    rw [List.foldlM_cons, h x List.mem_cons_self, List.flatMap_cons, List.reverse_append,
      List.append_assoc]
    exact ih (fun y hy => h y (List.mem_cons_of_mem _ hy)) _

theorem foldlM_mem {f : σ → α → Except ε σ} {xs : List α} {s t : σ}
    (h : xs.foldlM f s = .ok t) : ∀ x ∈ xs, ∃ s t, f s x = .ok t := by
  induction xs generalizing s with
  | nil => exact fun x hx => (List.not_mem_nil hx).elim
  | cons y ys ih =>
    rw [List.foldlM_cons] at h
    cases hy : f s y with
    | error e => simp [hy, bind, Except.bind] at h
    | ok s' =>
      simp only [hy, bind, Except.bind] at h
      intro x hx
      rcases List.mem_cons.1 hx with rfl | hx
      · exact ⟨s, s', hy⟩
      · exact ih h x hx

theorem foldlM_isOk {f : σ → α → Except ε σ} {xs : List α}
    (h : ∀ x ∈ xs, ∀ state, ∃ next, f state x = .ok next) (state : σ) :
    ∃ last, xs.foldlM f state = .ok last := by
  induction xs generalizing state with
  | nil => exact ⟨state, rfl⟩
  | cons x xs ih =>
    obtain ⟨next, hnext⟩ := h x List.mem_cons_self state
    rw [List.foldlM_cons, hnext]
    exact ih (fun y hy => h y (List.mem_cons_of_mem _ hy)) next

theorem mapM_ok {f : α → Except ε β} {g : α → β} {xs : List α}
    (h : ∀ x ∈ xs, f x = .ok (g x)) : xs.mapM f = .ok (xs.map g) := by
  induction xs with
  | nil => rfl
  | cons x xs ih =>
    rw [List.mapM_cons, h x List.mem_cons_self, ih fun y hy => h y (List.mem_cons_of_mem _ hy)]
    rfl

theorem mapM_isOk {f : α → Except ε β} {xs : List α} :
    (∃ ys, xs.mapM f = .ok ys) ↔ ∀ x ∈ xs, ∃ y, f x = .ok y := by
  induction xs with
  | nil => exact ⟨fun _ x hx => (List.not_mem_nil hx).elim, fun _ => ⟨[], rfl⟩⟩
  | cons x xs ih =>
    rw [List.forall_mem_cons, ← ih, List.mapM_cons]
    cases hx : f x with
    | error e => simp [bind, Except.bind]
    | ok y =>
      cases hxs : xs.mapM f with
      | error e => simp [bind, Except.bind]
      | ok ys => simp [bind, Except.bind, pure, Except.pure]

theorem forall₂_of_mapM {f : α → Except ε β} {xs : List α} {ys : List β}
    (h : xs.mapM f = .ok ys) : List.Forall₂ (fun x y => f x = .ok y) xs ys := by
  induction xs generalizing ys with
  | nil =>
    obtain rfl := Except.ok.inj h
    exact .nil
  | cons x xs ih =>
    rw [List.mapM_cons] at h
    cases hx : f x with
    | error e => simp [hx, bind, Except.bind] at h
    | ok y =>
      cases hrest : xs.mapM f with
      | error e => simp [hx, hrest, bind, Except.bind] at h
      | ok rest =>
        rw [hx, hrest] at h
        obtain rfl := Except.ok.inj h
        exact .cons hx (ih hrest)

end EnhancedFor
