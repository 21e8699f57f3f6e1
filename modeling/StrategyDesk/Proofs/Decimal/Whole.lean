import StrategyDesk.Decimal.Integer
import StrategyDesk.Proofs.Decimal.Numeral

/-!
This module contains which texts are read as whole numbers: an optional sign and digits.
-/

namespace StrategyDesk
namespace Decimal

def signed (negative : Bool) (n : Nat) : Int :=
  if negative then -n else n

def IsInteger (s : List Char) (z : Int) : Prop :=
  ∃ negative sign digits, IsSign negative sign ∧ digits ≠ [] ∧ (∀ c ∈ digits, c.isDigit = true) ∧
    s = sign ++ digits ∧ z = signed negative (Nat.ofDigitChars 10 digits 0)

variable {negative : Bool} {n : Nat} {z : Int} {c : Char} {s : List Char}

theorem readDigits_of_cons (h : readDigits negative (signed negative n) (c :: s) = .ok z) :
    c.isDigit = true ∧ readDigits negative (signed negative (10 * n + digitValue c)) s = .ok z := by
  unfold readDigits at h
  split at h
  . cases h
  . next hdigit =>
    refine ⟨by simpa using hdigit, ?_⟩
    cases negative with
    | false =>
      have hnext : signed false (10 * n + digitValue c) = 10 * signed false n + digitValue c := by
        simp [signed]
      rw [hnext]
      simp only [Bool.false_eq_true, if_false] at h
      split at h
      . cases h
      . exact h
    | true =>
      have hnext : signed true (10 * n + digitValue c) = 10 * signed true n - digitValue c := by
        simp [signed]
        omega
      rw [hnext]
      simp only [if_true] at h
      split at h
      . cases h
      . exact h

theorem readDigits_eq (h : readDigits negative (signed negative n) s = .ok z) :
    (∀ c ∈ s, c.isDigit = true) ∧ z = signed negative (Nat.ofDigitChars 10 s n) := by
  induction s generalizing n with
  | nil =>
    cases h
    simp
  | cons c s ih =>
    obtain ⟨hdigit, hrest⟩ := readDigits_of_cons h
    obtain ⟨hdigits, hz⟩ := ih hrest
    rw [List.forall_mem_cons, Nat.ofDigitChars_cons]
    exact ⟨⟨hdigit, hdigits⟩, hz⟩

theorem isInteger_of_readInteger (h : readInteger s = .ok z) : IsInteger s z := by
  obtain ⟨sign, hsign, hs⟩ := exists_sign s
  unfold readInteger at h
  split at h
  . cases h
  . next negative digits hne hsplit =>
    rw [hsplit] at hsign hs
    obtain ⟨hdigits, hz⟩ := readDigits_eq (n := 0) (by simpa [signed] using h)
    exact ⟨negative, sign, digits, hsign, by simpa using hne, hdigits, hs, hz⟩

end Decimal
end StrategyDesk
