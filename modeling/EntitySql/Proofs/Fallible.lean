import EntitySql.Fault
import Mathlib.Data.List.Forall2

/-!
# Computations that may fail

What a successful sequence of steps says about each step, and when two sequences of
steps succeed or fail together.
-/

namespace EntitySql

variable {ε α β γ δ : Type}

/-- Two steps succeed when the first does, and the second with its result. -/
theorem bind_eq_ok_iff {x : Except ε α} {f : α → Except ε β} {b : β} :
    x >>= f = .ok b ↔ ∃ a, x = .ok a ∧ f a = .ok b := by
  cases x <;> simp [bind, Except.bind]

/-- Changing a result needs a result. -/
theorem map_eq_ok_iff {x : Except ε α} {f : α → β} {b : β} :
    x.map f = .ok b ↔ ∃ a, x = .ok a ∧ f a = b := by
  cases x <;> simp [Except.map]

/-- Changing a result keeps the fault that there is instead. -/
theorem map_eq_error_iff {x : Except ε α} {f : α → β} {e : ε} :
    x.map f = .error e ↔ x = .error e := by
  cases x <;> simp [Except.map]

/-- Changing a fault needs a fault. -/
theorem mapError_eq_error_iff {x : Except ε α} {f : ε → δ} {e : δ} :
    x.mapError f = .error e ↔ ∃ e', x = .error e' ∧ f e' = e := by
  cases x <;> simp [Except.mapError]

/-- Steps for all items succeed when each does. -/
theorem mapM_eq_ok_iff {f : α → Except ε β} {xs : List α} {ys : List β} :
    xs.mapM f = .ok ys ↔ List.Forall₂ (fun x y => f x = .ok y) xs ys := by
  induction xs generalizing ys with
  | nil => cases ys <;> simp [pure, Except.pure]
  | cons x xs ih =>
    rw [List.mapM_cons, bind_eq_ok_iff]
    constructor
    · rintro ⟨y, hy, hrest⟩
      obtain ⟨ys', hys, hcons⟩ := bind_eq_ok_iff.mp hrest
      cases hcons
      exact .cons hy (ih.mp hys)
    · intro h
      cases h with
      | cons hy hys => exact ⟨_, hy, bind_eq_ok_iff.mpr ⟨_, ih.mpr hys, rfl⟩⟩

/-- Steps for all items succeed exactly when the step for each item does. -/
theorem exists_mapM_eq_ok_iff {f : α → Except ε β} {xs : List α} :
    (∃ ys, xs.mapM f = .ok ys) ↔ ∀ x ∈ xs, ∃ y, f x = .ok y := by
  induction xs with
  | nil => simp [pure, Except.pure]
  | cons x xs ih =>
    rw [List.forall_mem_cons, ← ih]
    cases hx : f x <;> cases hxs : xs.mapM f <;>
      simp [hx, hxs, pure, Except.pure, bind, Except.bind]

/-- Steps for all items fail as the first of them does that fails. -/
theorem mapM_eq_error_iff {f : α → Except ε β} {xs : List α} {e : ε} :
    xs.mapM f = .error e ↔ ∃ (i : Nat) (x : α), xs[i]? = some x ∧ f x = .error e ∧
      ∀ j < i, ∀ y, xs[j]? = some y → ∃ b, f y = .ok b := by
  induction xs with
  | nil => simp [pure, Except.pure]
  | cons x xs ih =>
    rw [List.mapM_cons]
    cases hx : f x with
    | error e' =>
      -- the first item fails, so no later one is the first to fail
      constructor
      · rintro ⟨⟩
        exact ⟨0, x, rfl, hx, by simp⟩
      · rintro ⟨i, y, hy, hfault, hbefore⟩
        cases i with
        | zero =>
          cases hy
          rw [hx] at hfault
          cases hfault
          rfl
        | succ i =>
          obtain ⟨b, hb⟩ := hbefore 0 (Nat.zero_lt_succ i) x rfl
          rw [hx] at hb
          cases hb
    | ok b =>
      have hrest : (Except.ok b >>= fun b => xs.mapM f >>= fun bs => pure (b :: bs)) = .error e ↔
          xs.mapM f = .error e := by
        show (xs.mapM f >>= fun bs => .ok (b :: bs)) = .error e ↔ _
        cases xs.mapM f <;> simp [bind, Except.bind]
      -- what fails among the rest fails one place later among all
      rw [hrest, ih]
      constructor
      · rintro ⟨i, y, hy, hfault, hbefore⟩
        refine ⟨i + 1, y, hy, hfault, fun j hj z hz => ?_⟩
        cases j with
        | zero =>
          cases hz
          exact ⟨b, hx⟩
        | succ j => exact hbefore j (Nat.lt_of_succ_lt_succ hj) z hz
      · rintro ⟨i, y, hy, hfault, hbefore⟩
        cases i with
        | zero =>
          cases hy
          rw [hx] at hfault
          cases hfault
        | succ i =>
          exact ⟨i, y, hy, hfault, fun j hj z hz => hbefore (j + 1) (Nat.succ_lt_succ hj) z hz⟩

/-- Results that are changed step by step are changed at the end. -/
theorem map_bind_eq {x : Except ε α} {f : α → Except ε γ} {g : β → Except ε δ} {c : α → β}
    {c' : γ → δ} (h : ∀ a, g (c a) = (f a).map c') : x.map c >>= g = (x >>= f).map c' := by
  cases x with
  | error e => rfl
  | ok a => exact h a

/-- Results that are changed item by item are changed at the end. -/
theorem mapM_map_eq {f : α → Except ε β} {g : α → Except ε γ} {c : β → γ}
    (h : ∀ a, g a = (f a).map c) (xs : List α) : xs.mapM g = (xs.mapM f).map (List.map c) := by
  induction xs with
  | nil => rfl
  | cons x xs ih =>
    rw [List.mapM_cons, List.mapM_cons, h, ih]
    exact map_bind_eq fun a => map_bind_eq fun as => rfl

/-- Two computations succeed with related results, or both fail. -/
inductive Agree (related : α → β → Prop) : Except ε α → Except ε β → Prop
  | ok {a : α} {b : β} (h : related a b) : Agree related (.ok a) (.ok b)
  | error (e e' : ε) : Agree related (.error e) (.error e')

namespace Agree

variable {related : α → β → Prop} {related' : γ → δ → Prop}

/-- A computation agrees with itself. -/
theorem refl (x : Except ε α) : Agree Eq x x := by
  cases x with
  | ok a => exact .ok rfl
  | error e => exact .error e e

/-- Steps that agree, one after the other, agree. -/
theorem bind {x : Except ε α} {y : Except ε β} {f : α → Except ε γ} {g : β → Except ε δ}
    (h : Agree related x y) (hnext : ∀ a b, related a b → Agree related' (f a) (g b)) :
    Agree related' (x >>= f) (y >>= g) := by
  cases h with
  | ok h => exact hnext _ _ h
  | error e e' => exact .error e e'

/-- Results that agree are changed to results that agree. -/
theorem map {x : Except ε α} {y : Except ε β} {f : α → γ} {g : β → δ} (h : Agree related x y)
    (hchange : ∀ a b, related a b → related' (f a) (g b)) :
    Agree related' (x.map f) (y.map g) := by
  cases h with
  | ok h => exact .ok (hchange _ _ h)
  | error e e' => exact .error e e'

/-- Steps for items that agree one by one agree. -/
theorem mapM {f : α → Except ε γ} {g : β → Except ε δ} {xs : List α} {ys : List β}
    (hitems : List.Forall₂ related xs ys)
    (hstep : ∀ a b, related a b → Agree related' (f a) (g b)) :
    Agree (List.Forall₂ related') (xs.mapM f) (ys.mapM g) := by
  induction hitems with
  | nil => exact .ok .nil
  | cons hhead _ ih =>
    rw [List.mapM_cons, List.mapM_cons]
    refine bind (hstep _ _ hhead) fun c c' hc => bind ih fun cs cs' hcs => ?_
    exact .ok (.cons hc hcs)

end Agree

end EntitySql
