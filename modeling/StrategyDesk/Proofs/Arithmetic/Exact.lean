import Mathlib
import StrategyDesk.Arithmetic

/-!
This module contains exact arithmetic. Prices and amounts are rational numbers in it, all of them
finite, and every operation gives its true result.
-/

namespace StrategyDesk

/-- What rational numbers have no answer for. Exact arithmetic may take any answer. -/
class Conventions where
  sqrt : ℚ → ℚ
  infinity : ℚ
  text : ℚ → String

namespace Arithmetic

variable [Conventions]

instance : Arithmetic ℚ where
  decidableLT := inferInstance
  decidableLE := inferInstance
  ofNat n := n
  abs x := |x|
  sqrt := Conventions.sqrt
  infinity := Conventions.infinity
  isNaN _ := false
  isFinite _ := true
  text := Conventions.text

theorem sum_eq (xs : List ℚ) : sum xs = xs.sum := by
  have hstart : sum xs = xs.foldl (· + ·) 0 := congrArg (xs.foldl (· + ·)) neg_zero
  rw [hstart]
  exact List.sum_eq_foldl.symm

theorem mean_eq (xs : List ℚ) : mean xs = xs.sum / xs.length := by
  rw [← sum_eq]
  rfl

theorem least_eq (a b : ℚ) : least a b = min a b := by
  unfold least
  split
  . next hlt => exact (min_eq_left hlt.le).symm
  . next hle => exact (min_eq_right (not_lt.mp hle)).symm

theorem greatest_eq (a b : ℚ) : greatest a b = max a b := by
  unfold greatest
  split
  . next hlt => exact (max_eq_left hlt.le).symm
  . next hle => exact (max_eq_right (not_lt.mp hle)).symm

end Arithmetic
end StrategyDesk
