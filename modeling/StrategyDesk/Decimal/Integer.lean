import StrategyDesk.Decimal.Reader

/-!
This module contains the reading of whole numbers of 64 bits.
-/

namespace StrategyDesk
namespace Decimal

inductive IntegerError where
  | empty
  | badDigit
  | tooLarge
  | tooSmall
  deriving Repr, DecidableEq

def IntegerError.message : IntegerError → String
  | .empty => "cannot parse integer from empty string"
  | .badDigit => "invalid digit found in string"
  | .tooLarge => "number too large to fit in target type"
  | .tooSmall => "number too small to fit in target type"

def maxInteger : Int := Nat.pow 2 63 - 1

def readDigits (negative : Bool) (n : Int) : List Char → Except IntegerError Int
  | [] => .ok n
  | c :: s =>
    if !c.isDigit then
      .error .badDigit
    else if negative then
      let n := 10 * n - digitValue c
      if n < -maxInteger - 1 then .error .tooSmall else readDigits negative n s
    else
      let n := 10 * n + digitValue c
      if maxInteger < n then .error .tooLarge else readDigits negative n s

def readInteger (s : List Char) : Except IntegerError Int :=
  match splitSign s with
  | (_, []) => .error (if s.isEmpty then .empty else .badDigit)
  | (negative, ds) => readDigits negative 0 ds

theorem readDigits_bounds {negative : Bool} {n m : Int} {s : List Char}
    (h : readDigits negative n s = .ok m)
    (hn : if negative then -maxInteger - 1 ≤ n ∧ n ≤ 0 else 0 ≤ n ∧ n ≤ maxInteger) :
    if negative then -maxInteger - 1 ≤ m ∧ m ≤ 0 else 0 ≤ m ∧ m ≤ maxInteger := by
  induction s generalizing n with
  | nil =>
    simp only [readDigits, Except.ok.injEq] at h
    exact h ▸ hn
  | cons c s ih =>
    simp only [readDigits] at h
    cases negative <;> simp only [if_true, if_false, Bool.false_eq_true] at h hn ih ⊢
    all_goals
      split at h
      · simp at h
      · split at h
        · simp at h
        · exact ih h (by omega)

theorem readInteger_bounds {s : List Char} {m : Int} (h : readInteger s = .ok m) :
    -maxInteger - 1 ≤ m ∧ m ≤ maxInteger := by
  have hmax : maxInteger = 9223372036854775807 := rfl
  unfold readInteger at h
  split at h
  · simp at h
  · rename_i negative ds _ _
    have := readDigits_bounds h (by cases negative <;> simp [hmax])
    cases negative <;> simp at this <;> omega

end Decimal
end StrategyDesk
