import Mathlib.Data.Int.Init
import StrategyDesk.Proofs.Calendar.Order

/-!
This module contains times that follow one another at equal distance, and which of them lie in a
window. A window that begins a number of steps before its end holds as many times, and one more if
it ends at one of them. Only a window that ends in a leap second can miss one, since its beginning
is counted back from the second after.
-/

namespace StrategyDesk

namespace Instant

variable {t now : Instant} {times : Int → Instant}

/-- Where seconds are counted from: in a leap second, the point as far in the second after. -/
def settled (t : Instant) : Instant where
  seconds := t.seconds + t.nanos / 1000000000
  nanos := t.nanos % 1000000000

def Skips (now : Instant) (times : Int → Instant) : Prop :=
  ∃ k, now < times k ∧ times k < now.settled

theorem settled_of_lt (h : t.nanos < 1000000000) : t.settled = t := by
  unfold settled
  rw [Nat.mod_eq_of_lt h]
  have hseconds : (t.nanos : Int) / 1000000000 = 0 := by omega
  rw [hseconds, Int.add_zero]

theorem le_settled (t : Instant) : t ≤ t.settled := by
  rw [le_def, settled]
  dsimp only
  omega

theorem before_eq {seconds : Int} (h : seconds ≠ 0) :
    t.before seconds = { t.settled with seconds := t.settled.seconds - seconds } := by
  unfold before settled
  rw [if_neg h, mk.injEq]
  dsimp only
  omega

theorem not_skips (h : now.nanos < 1000000000) : ¬now.Skips times := by
  rintro ⟨k, hlater, hearlier⟩
  rw [settled_of_lt h] at hearlier
  exact lt_irrefl now (lt_of_le_of_lt (le_of_lt hlater) hearlier)

end Instant

open Instant

def IsProgression (step : Nat) (times : Int → Instant) : Prop :=
  ∀ k, times k = (times (k + 1)).before step

namespace IsProgression

variable {step : Nat} {times : Int → Instant} {now : Instant}

theorem nanos_lt (h : IsProgression step times) (hstep : step ≠ 0) (k : Int) :
    (times k).nanos < 1000000000 := by
  rw [h k, before_eq (by omega)]
  exact Nat.mod_lt _ (by decide)

theorem apply_pred (h : IsProgression step times) (hstep : step ≠ 0) (k : Int) :
    times (k - 1) = { times k with seconds := (times k).seconds - step } := by
  rw [h (k - 1), Int.sub_add_cancel, before_eq (by omega), settled_of_lt (h.nanos_lt hstep k)]

theorem apply_succ (h : IsProgression step times) (hstep : step ≠ 0) (k : Int) :
    times (k + 1) = { times k with seconds := (times k).seconds + step } := by
  have hk := h.apply_pred hstep (k + 1)
  rw [Int.add_sub_cancel] at hk
  rw [hk]
  dsimp only
  rw [Int.sub_add_cancel]

theorem apply_eq (h : IsProgression step times) (hstep : step ≠ 0) (k : Int) :
    times k = { times 0 with seconds := (times 0).seconds + step * k } := by
  induction k with
  | zero => rw [Int.mul_zero, Int.add_zero]
  | succ k ih =>
    rw [h.apply_succ hstep, ih]
    dsimp only
    rw [Int.mul_add, Int.mul_one, Int.add_assoc]
  | pred k ih =>
    rw [h.apply_pred hstep, ih]
    dsimp only
    rw [Int.mul_sub, Int.mul_one, Int.add_sub_assoc]

theorem apply_add (h : IsProgression step times) (hstep : step ≠ 0) (k n : Int) :
    times (k + n) = { times k with seconds := (times k).seconds + step * n } := by
  rw [h.apply_eq hstep (k + n), h.apply_eq hstep k]
  dsimp only
  rw [Int.mul_add, Int.add_assoc]

theorem before_le_iff (h : IsProgression step times) (hstep : step ≠ 0) {n : Nat} (hn : n ≠ 0)
    (k : Int) : now.before (step * n) ≤ times k ↔ now.settled ≤ times (k + n) := by
  have hspan : (step : Int) * n ≠ 0 := Int.mul_ne_zero (by omega) (by omega)
  rw [before_eq hspan, h.apply_add hstep, le_def, le_def]
  dsimp only
  omega

/-! ## Where a point in time lies -/

theorem exists_last_lt (h : IsProgression step times) (hstep : step ≠ 0) (t : Instant) :
    ∃ last, ∀ k, times k < t ↔ k ≤ last := by
  refine ⟨(t.seconds - (times 0).seconds - if (times 0).nanos < t.nanos then 0 else 1) / step,
    ?_⟩
  intro k
  rw [Int.le_ediv_iff_mul_le (by omega), h.apply_eq hstep k, lt_def, Int.mul_comm k]
  dsimp only
  split
  . omega
  . omega

theorem exists_last_le (h : IsProgression step times) (hstep : step ≠ 0) (t : Instant) :
    ∃ last, ∀ k, times k ≤ t ↔ k ≤ last := by
  obtain ⟨last, hlast⟩ := h.exists_last_lt hstep { t with nanos := t.nanos + 1 }
  refine ⟨last, ?_⟩
  intro k
  rw [← hlast k, le_def, lt_def]
  dsimp only
  omega

end IsProgression

/--
Where the present time lies among others: the last of them that it has reached, and the last one
that lies before what it counts as.
-/
structure LiesAt (now : Instant) (times : Int → Instant) (reached passed : Int) : Prop where
  reached : ∀ k, times k ≤ now ↔ k ≤ reached
  passed : ∀ k, times k < now.settled ↔ k ≤ passed

namespace LiesAt

variable {step : Nat} {times : Int → Instant} {now : Instant} {reached passed : Int}

theorem contains_iff (hlies : LiesAt now times reached passed) (h : IsProgression step times)
    (hstep : step ≠ 0) {n : Nat} (hn : n ≠ 0) (k : Int) :
    Window.contains { first := now.before (step * n), last := now } (times k) = true ↔
      passed - n < k ∧ k ≤ reached := by
  -- The beginning is counted back from what the present time counts as, but the end is the present
  -- time itself. So the one bound comes from `passed`, the other from `reached`.
  have hpassed : now.settled ≤ times (k + n) ↔ passed - n < k := by
    rw [← Decidable.not_iff_not, Instant.not_le, hlies.passed]
    omega
  simp only [Window.contains, Bool.and_eq_true, decide_eq_true_eq, h.before_le_iff hstep hn,
    hpassed, hlies.reached]

theorem eq_of_mem (hlies : LiesAt now times reached passed) (h : IsProgression step times)
    (hstep : step ≠ 0) {k : Int} (hk : times k = now) : reached = passed + 1 := by
  have hsettled : now.settled = now := by
    rw [← hk]
    exact settled_of_lt (h.nanos_lt hstep k)
  have hreached : k ≤ reached := by
    rw [← hlies.reached, hk, le_def]
    omega
  have hnext : ¬k + 1 ≤ reached := by
    rw [← hlies.reached, h.apply_succ hstep, hk, le_def]
    dsimp only
    omega
  have hpassed : ¬k ≤ passed := by
    rw [← hlies.passed, hsettled, hk]
    exact lt_irrefl now
  have hprevious : k - 1 ≤ passed := by
    rw [← hlies.passed, hsettled, h.apply_pred hstep, hk, lt_def]
    dsimp only
    omega
  omega

theorem eq_of_skips (hlies : LiesAt now times reached passed) (h : IsProgression step times)
    (hstep : step ≠ 0) (hnow : now.nanos < 2000000000) (hskips : now.Skips times) :
    passed = reached + 1 := by
  obtain ⟨k, hlater, hearlier⟩ := hskips
  have hnanos := h.nanos_lt hstep k
  have hreached : ¬k ≤ reached := by
    rw [← hlies.reached, Instant.not_le]
    exact hlater
  have hpassed : k ≤ passed := by
    rw [← hlies.passed]
    exact hearlier
  -- A leap second is one second long. So the time that is skipped lies in the second after, and the
  -- times before and after it do not.
  rw [lt_def] at hlater hearlier
  unfold settled at hearlier
  dsimp only at hearlier
  have hprevious : k - 1 ≤ reached := by
    rw [← hlies.reached, h.apply_pred hstep, le_def]
    dsimp only
    omega
  have hnext : ¬k + 1 ≤ passed := by
    rw [← hlies.passed, h.apply_succ hstep, lt_def, settled]
    dsimp only
    omega
  omega

theorem eq_of_not_skips (hlies : LiesAt now times reached passed) (hmem : ∀ k, times k ≠ now)
    (hskips : ¬now.Skips times) : reached = passed := by
  have hreached : reached ≤ passed := by
    have hle := (hlies.reached reached).mpr (Int.le_refl reached)
    rw [← hlies.passed]
    exact lt_of_lt_of_le (lt_of_le_of_ne hle (hmem reached)) (le_settled now)
  have hpassed : passed ≤ reached := by
    have hlt := (hlies.passed passed).mpr (Int.le_refl passed)
    have hnotLater : ¬now < times passed := fun hlater => hskips ⟨passed, hlater, hlt⟩
    rw [← Instant.not_le, Decidable.not_not] at hnotLater
    exact (hlies.reached passed).mp hnotLater
  omega

end LiesAt

theorem IsProgression.exists_liesAt {step : Nat} {times : Int → Instant}
    (h : IsProgression step times) (hstep : step ≠ 0) (now : Instant) :
    ∃ reached passed, LiesAt now times reached passed := by
  obtain ⟨reached, hreached⟩ := h.exists_last_le hstep now
  obtain ⟨passed, hpassed⟩ := h.exists_last_lt hstep now.settled
  exact ⟨reached, passed, hreached, hpassed⟩

end StrategyDesk
