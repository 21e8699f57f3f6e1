import StrategyDesk.Arithmetic

/-!
This module contains the averages that indicators are made of: plain averages over a window that
moves along a list, and averages that are smoothed from one element to the next.
-/

namespace StrategyDesk
namespace Average

open Arithmetic

def windows {β : Type} (p : Nat) : List β → List (List β)
  | [] => []
  | x :: xs =>
    if p = 0 || xs.length + 1 < p then [] else (x :: xs).take p :: windows p xs

def running {β γ : Type} (step : γ → β → γ) (start : γ) : List β → List γ
  | [] => [start]
  | x :: xs => start :: running step (step start x) xs

@[simp]
theorem length_running {β γ : Type} (step : γ → β → γ) (start : γ) (xs : List β) :
    (running step start xs).length = xs.length + 1 := by
  induction xs generalizing start with
  | nil => rfl
  | cons x xs ih => simp [running, ih]

theorem length_windows {β : Type} (p : Nat) (xs : List β) (hp : p ≠ 0) :
    (windows p xs).length = xs.length + 1 - p := by
  induction xs with
  | nil => simp [windows]; omega
  | cons x xs ih =>
    simp only [windows, hp, decide_false, Bool.false_or, decide_eq_true_eq]
    split
    · simp
      omega
    · simp [ih]
      omega

variable {α : Type} [Arithmetic α]

def plain (p : Nat) (xs : List α) : List α :=
  (windows p xs).map mean

def smoothed (step : α → α → α) (p : Nat) (xs : List α) : List α :=
  if p = 0 || xs.length < p then [] else running step (mean (xs.take p)) (xs.drop p)

def exponential (p : Nat) : List α → List α :=
  smoothed (fun average x => (x - average) * (2 / (ofNat p + 1)) + average) p

def weighted (p : Nat) : List α → List α :=
  smoothed (fun average x => (average * ofNat (p - 1) + x) / ofNat p) p

theorem length_smoothed (step : α → α → α) (p : Nat) (xs : List α) (hp : p ≠ 0) :
    (smoothed step p xs).length = xs.length + 1 - p := by
  simp only [smoothed, hp, decide_false, Bool.false_or, decide_eq_true_eq]
  split
  · simp
    omega
  · simp
    omega

end Average
end StrategyDesk
