import Mathlib.Data.List.Forall2

/-!
This module contains when a computation that may fail gives a result, and when it fails.
-/

namespace StrategyDesk

variable {ε ε' β γ : Type} {x : Except ε β}

theorem bind_eq_ok_iff {f : β → Except ε γ} {y : γ} :
    (x >>= f) = .ok y ↔ ∃ a, x = .ok a ∧ f a = .ok y := by
  cases x with
  | error e => simp [bind, Except.bind]
  | ok a => simp [bind, Except.bind]

theorem check_bind_eq_ok_iff {check : Except ε Unit} {f : Unit → Except ε γ} {y : γ} :
    (check >>= f) = .ok y ↔ check = .ok () ∧ f () = .ok y := by
  rw [bind_eq_ok_iff]
  exact ⟨fun ⟨(), h⟩ => h, fun h => ⟨(), h⟩⟩

theorem bind_eq_error_iff {f : β → Except ε γ} {e : ε} :
    (x >>= f) = .error e ↔ x = .error e ∨ ∃ a, x = .ok a ∧ f a = .error e := by
  cases x with
  | error e => simp [bind, Except.bind]
  | ok a => simp [bind, Except.bind]

theorem refuse_eq_ok_iff {p : Prop} [Decidable p] {e : ε} {y : β} :
    (if p then .error e else x) = .ok y ↔ ¬p ∧ x = .ok y := by
  split <;> simp [*]

theorem mapError_eq_ok_iff {f : ε → ε'} {y : β} : x.mapError f = .ok y ↔ x = .ok y := by
  cases x with
  | error e =>
    show Except.error (f e) = .ok y ↔ _
    simp
  | ok a =>
    show (Except.ok a : Except ε' β) = .ok y ↔ _
    simp

theorem mapError_eq_error_iff {f : ε → ε'} {e : ε'} :
    x.mapError f = .error e ↔ ∃ a, x = .error a ∧ f a = e := by
  cases x with
  | error a =>
    show Except.error (f a) = .error e ↔ _
    simp
  | ok a =>
    show (Except.ok a : Except ε' β) = .error e ↔ _
    simp

theorem forM_eq_ok_iff {f : β → Except ε Unit} {xs : List β} :
    xs.forM f = .ok () ↔ ∀ x ∈ xs, f x = .ok () := by
  induction xs with
  | nil => simp [pure, Except.pure]
  | cons x xs ih =>
    rw [List.forall_mem_cons, ← ih]
    show (f x >>= fun _ => xs.forM f) = _ ↔ _
    cases hx : f x with
    | error e => simp [bind, Except.bind]
    | ok u => simp [bind, Except.bind]

theorem forM_congr {f g : β → Except ε Unit} {xs : List β} (h : ∀ x ∈ xs, f x = g x) :
    xs.forM f = xs.forM g := by
  induction xs with
  | nil => rfl
  | cons x xs ih =>
    rw [List.forall_mem_cons] at h
    show (f x >>= fun _ => xs.forM f) = (g x >>= fun _ => xs.forM g)
    rw [h.1, ih h.2]

theorem mapM_eq_ok_iff {f : β → Except ε γ} {xs : List β} {ys : List γ} :
    xs.mapM f = .ok ys ↔ List.Forall₂ (fun x y => f x = .ok y) xs ys := by
  induction xs generalizing ys with
  | nil => simp [pure, Except.pure, eq_comm]
  | cons x xs ih =>
    rw [List.mapM_cons]
    simp only [bind_eq_ok_iff, ih, List.forall₂_cons_left_iff]
    constructor
    . rintro ⟨y, hy, zs, hzs, ⟨⟩⟩
      exact ⟨y, zs, hy, hzs, rfl⟩
    . rintro ⟨y, zs, hy, hzs, rfl⟩
      exact ⟨y, hy, zs, hzs, rfl⟩

theorem exists_mapM_eq_ok_iff {f : β → Except ε γ} {xs : List β} :
    (∃ ys, xs.mapM f = .ok ys) ↔ ∀ x ∈ xs, ∃ y, f x = .ok y := by
  simp only [mapM_eq_ok_iff]
  induction xs with
  | nil => simp
  | cons x xs ih =>
    rw [List.forall_mem_cons, ← ih]
    simp only [List.forall₂_cons_left_iff]
    constructor
    . rintro ⟨_, y, ys, hy, hys, rfl⟩
      exact ⟨⟨y, hy⟩, ys, hys⟩
    . rintro ⟨⟨y, hy⟩, ys, hys⟩
      exact ⟨_, y, ys, hy, hys, rfl⟩

theorem mapM_eq_error_iff {f : β → Except ε γ} {xs : List β} {e : ε} :
    xs.mapM f = .error e ↔ ∃ before x after, xs = before ++ x :: after ∧
      (∀ y ∈ before, ∃ z, f y = .ok z) ∧ f x = .error e := by
  induction xs with
  | nil => simp [pure, Except.pure]
  | cons x xs ih =>
    rw [List.mapM_cons]
    constructor
    . intro h
      rcases bind_eq_error_iff.mp h with h | ⟨y, hy, h⟩
      . exact ⟨[], x, xs, rfl, by simp, h⟩
      . rcases bind_eq_error_iff.mp h with h | ⟨_, _, ⟨⟩⟩
        obtain ⟨before, z, after, rfl, hbefore, hz⟩ := ih.mp h
        exact ⟨x :: before, z, after, rfl, List.forall_mem_cons.mpr ⟨⟨y, hy⟩, hbefore⟩, hz⟩
    . rintro ⟨before, z, after, heq, hbefore, hz⟩
      rw [List.cons_eq_append_iff] at heq
      rcases heq with ⟨rfl, heq⟩ | ⟨before, rfl, rfl⟩
      . cases heq
        exact bind_eq_error_iff.mpr (.inl hz)
      . rw [List.forall_mem_cons] at hbefore
        obtain ⟨⟨y, hy⟩, hbefore⟩ := hbefore
        apply bind_eq_error_iff.mpr
        refine .inr ⟨y, hy, bind_eq_error_iff.mpr (.inl ?_)⟩
        exact ih.mpr ⟨before, z, after, rfl, hbefore, hz⟩

theorem exists_ok_of_toOption {f : β → γ} {y : γ} (h : x.toOption.map f = some y) :
    ∃ r, x = .ok r ∧ f r = y := by
  cases x with
  | error e => cases h
  | ok r =>
    injection h with h
    exact ⟨r, rfl, h⟩

def error? : Except ε β → Option ε
  | .error e => some e
  | .ok _ => none

theorem exists_error_of_error? {f : ε → γ} {y : γ} (h : (error? x).map f = some y) :
    ∃ e, x = .error e ∧ f e = y := by
  cases x with
  | error e =>
    injection h with h
    exact ⟨e, rfl, h⟩
  | ok r => cases h

/-! ## Ways to end -/

inductive Ends (failure : ε → Prop) (result : β → Prop) : Except ε β → Prop where
  | ok {a : β} (h : result a) : Ends failure result (.ok a)
  | error {e : ε} (h : failure e) : Ends failure result (.error e)

namespace Ends

variable {failure : ε → Prop} {failure' : ε' → Prop} {result : β → Prop} {result' : γ → Prop}

theorem of_eq_ok {a : β} (h : x = .ok a) : Ends failure (· = a) x := by
  rw [h]
  exact .ok rfl

theorem bind {f : β → Except ε γ} (hx : Ends failure result x)
    (hf : ∀ a, result a → Ends failure result' (f a)) : Ends failure result' (x >>= f) := by
  cases hx with
  | ok h => exact hf _ h
  | error h => exact .error h

theorem mapError {f : ε → ε'} (hx : Ends failure result x)
    (hf : ∀ e, failure e → failure' (f e)) : Ends failure' result (x.mapError f) := by
  cases hx with
  | ok h => exact .ok h
  | error h => exact .error (hf _ h)

theorem refuse {p : Prop} [Decidable p] {e : ε} (he : failure e)
    (hx : ¬p → Ends failure result x) : Ends failure result (if p then .error e else x) := by
  split
  . exact .error he
  . next hp => exact hx hp

theorem forM {f : γ → Except ε Unit} {xs : List γ}
    (h : ∀ y ∈ xs, Ends failure (fun _ => True) (f y)) : Ends failure (fun _ => True) (xs.forM f) := by
  induction xs with
  | nil => exact .ok trivial
  | cons y ys ih =>
    rw [List.forall_mem_cons] at h
    exact h.1.bind fun _ _ => ih h.2

end Ends
end StrategyDesk
