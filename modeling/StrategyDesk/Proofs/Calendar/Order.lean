import StrategyDesk.Calendar.Window

/-!
This module contains the order of points in time. Of two points in time the seconds decide which is
the earlier one, and the fraction if these are equal.
-/

namespace StrategyDesk
namespace Instant

variable {a b c : Instant}

theorem le_def : a ≤ b ↔ a.seconds < b.seconds ∨ a.seconds = b.seconds ∧ a.nanos ≤ b.nanos :=
  Iff.rfl

theorem lt_def : a < b ↔ a.seconds < b.seconds ∨ a.seconds = b.seconds ∧ a.nanos < b.nanos :=
  Iff.rfl

theorem not_le : ¬a ≤ b ↔ b < a := by
  rw [le_def, lt_def]
  omega

theorem lt_irrefl (a : Instant) : ¬a < a := by
  rw [lt_def]
  omega

theorem lt_of_le_of_lt (hab : a ≤ b) (hbc : b < c) : a < c := by
  rw [le_def] at hab
  rw [lt_def] at hbc ⊢
  omega

theorem lt_of_lt_of_le (hab : a < b) (hbc : b ≤ c) : a < c := by
  rw [lt_def] at hab ⊢
  rw [le_def] at hbc
  omega

theorem le_of_lt (h : a < b) : a ≤ b := by
  rw [lt_def] at h
  rw [le_def]
  omega

theorem le_trans (hab : a ≤ b) (hbc : b ≤ c) : a ≤ c := by
  rw [le_def] at hab hbc ⊢
  omega

theorem le_total (a b : Instant) : a ≤ b ∨ b ≤ a := by
  rw [le_def, le_def]
  omega

theorem le_antisymm (hab : a ≤ b) (hba : b ≤ a) : a = b := by
  rw [le_def] at hab hba
  obtain ⟨_, _⟩ := a
  obtain ⟨_, _⟩ := b
  simp only [mk.injEq]
  dsimp only at hab hba
  omega

theorem lt_of_le_of_ne (hab : a ≤ b) (hne : a ≠ b) : a < b := by
  rw [← not_le]
  intro hba
  exact hne (le_antisymm hab hba)

end Instant

theorem Window.contains_of_le {w w' : Window} {t : Instant} (hfirst : w.first ≤ w'.first)
    (hlast : w'.last ≤ w.last) (h : w'.contains t = true) : w.contains t = true := by
  simp only [contains, Bool.and_eq_true, decide_eq_true_eq] at *
  exact ⟨Instant.le_trans hfirst h.1, Instant.le_trans h.2 hlast⟩

end StrategyDesk
