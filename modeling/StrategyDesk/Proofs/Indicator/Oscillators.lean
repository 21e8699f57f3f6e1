import StrategyDesk.Proofs.Indicator.Averages

/-!
This module contains that oscillators stay between 0 and 100, in exact arithmetic. The averages
behind a relative strength are never negative, and a close lies inside the range of its window.
-/

namespace StrategyDesk

open Arithmetic Set

namespace Indicator

/-! ## Relative strength -/

section Strength

variable [Conventions] {cs : List (Candle ℚ)} {period : Nat} {v : ℚ}

theorem nonneg_of_mem_gains : ∀ x ∈ gains cs, x ∈ Ici (0 : ℚ) := by
  intro x hx
  obtain ⟨⟨before, c⟩, _, rfl⟩ := List.mem_map.mp hx
  dsimp only
  split
  . next hup => exact hup.le
  . exact le_refl (0 : ℚ)

theorem nonneg_of_mem_losses : ∀ x ∈ losses cs, x ∈ Ici (0 : ℚ) := by
  intro x hx
  obtain ⟨⟨before, c⟩, _, rfl⟩ := List.mem_map.mp hx
  dsimp only
  split
  . next hdown =>
    have hdown : c.close - before.close < 0 := hdown
    exact neg_nonneg.mpr hdown.le
  . exact le_refl (0 : ℚ)

theorem relativeStrength_mem {gain loss : ℚ} (hgain : 0 ≤ gain) (hloss : 0 ≤ loss) :
    relativeStrength gain loss ∈ Icc (0 : ℚ) 100 := by
  have hratio : 1 ≤ 1 + gain / loss := le_add_of_nonneg_right (div_nonneg hgain hloss)
  have hshare : 100 / (1 + gain / loss) ≤ 100 := div_le_self (by norm_num) hratio
  have hnonneg : 0 ≤ 100 / (1 + gain / loss) := by positivity
  unfold relativeStrength
  split
  . show (100 : ℚ) ∈ Icc (0 : ℚ) 100
    simp
  . show 100 - 100 / (1 + gain / loss) ∈ Icc (0 : ℚ) 100
    exact ⟨sub_nonneg.mpr hshare, sub_le_self 100 hnonneg⟩

theorem mem_of_mem_rsiValues (hperiod : period ≠ 0) (hv : v ∈ rsiValues period cs) :
    v ∈ Icc (0 : ℚ) 100 := by
  have hconvex : Convex ℚ (Ici (0 : ℚ)) := convex_Ici 0
  obtain ⟨gain, hgain, loss, hloss, rfl⟩ := exists_of_mem_zipWith hv
  apply relativeStrength_mem
  . exact Average.weighted_mem hconvex hperiod nonneg_of_mem_gains hgain
  . exact Average.weighted_mem hconvex hperiod nonneg_of_mem_losses hloss

end Strength

/-! ## Ranges -/

section Ranges

variable [Conventions]

theorem percentK_mem {window : List (Candle ℚ)} (hne : window ≠ [])
    (h : ∀ c ∈ window, c.low ≤ c.close ∧ c.close ≤ c.high) :
    percentK window ∈ Icc (0 : ℚ) 100 := by
  have hlast := List.getLast?_eq_some_getLast hne
  have hmem := List.getLast_mem hne
  generalize window.getLast hne = last at hlast hmem
  obtain ⟨hlow, hhigh⟩ := h last hmem
  have hlow := (lowest_le (List.mem_map_of_mem (f := Candle.low) hmem)).trans hlow
  have hhigh := hhigh.trans (le_highest (List.mem_map_of_mem (f := Candle.high) hmem))
  unfold percentK
  rw [hlast]
  generalize lowest (window.map Candle.low) = low at hlow
  generalize highest (window.map Candle.high) = high at hhigh
  dsimp only
  split
  . show (50 : ℚ) ∈ Icc (0 : ℚ) 100
    constructor <;> norm_num
  . next hflat =>
    have hwidth : 0 < high - low := by
      apply sub_pos.mpr
      apply lt_of_le_of_ne (hlow.trans hhigh)
      rintro rfl
      exact hflat (beq_self_eq_true low)
    have hshare : (last.close - low) / (high - low) ≤ 1 := by
      rw [div_le_one₀ hwidth]
      linarith
    have hnonneg : 0 ≤ (last.close - low) / (high - low) :=
      div_nonneg (sub_nonneg.mpr hlow) hwidth.le
    show (last.close - low) / (high - low) * 100 ∈ Icc (0 : ℚ) 100
    constructor <;> linarith

theorem mem_of_mem_percentKs {kPeriod : Nat} {cs : List (Candle ℚ)} (hk : kPeriod ≠ 0)
    (h : ∀ c ∈ cs, c.low ≤ c.close ∧ c.close ≤ c.high) :
    ∀ x ∈ percentKs kPeriod cs, x ∈ Icc (0 : ℚ) 100 := by
  intro x hx
  obtain ⟨window, hwindow, rfl⟩ := List.mem_map.mp hx
  apply percentK_mem
  . apply List.ne_nil_of_length_pos
    rw [Average.length_of_mem_windows hwindow]
    exact Nat.pos_of_ne_zero hk
  . intro c hc
    exact h c ((Average.isInfix_of_mem_windows hwindow).mem hc)

end Ranges

/--
Every relative strength lies between 0 and 100, and so do both outputs of a stochastic oscillator if
each close lies between the low and the high of its candle.
-/
theorem oscillators_in_range [Conventions] (cs : List (Candle ℚ)) :
    (∀ period, period ≠ 0 → ∀ i r, ((Indicator.rsi period).compute cs).readingAt? i = some r →
      ∃ v, r = .simple v ∧ 0 ≤ v ∧ v ≤ 100) ∧
    ((∀ c ∈ cs, c.low ≤ c.close ∧ c.close ≤ c.high) →
      ∀ kPeriod dPeriod, kPeriod ≠ 0 → dPeriod ≠ 0 →
      ∀ i r, ((Indicator.stochastic kPeriod dPeriod).compute cs).readingAt? i = some r →
        ∃ k d, r = .stochastic k d ∧ 0 ≤ k ∧ k ≤ 100 ∧ 0 ≤ d ∧ d ≤ 100) := by
  constructor
  . intro period hperiod i r hr
    obtain ⟨v, hv, rfl⟩ := List.mem_map.mp (mem_readings_of_readingAt? hr)
    exact ⟨v, rfl, mem_of_mem_rsiValues hperiod hv⟩
  . intro hcs kPeriod dPeriod hkPeriod hdPeriod i r hr
    have hks := mem_of_mem_percentKs hkPeriod hcs
    have hmem : r ∈ List.zipWith Reading.stochastic ((percentKs kPeriod cs).drop (dPeriod - 1))
        (Average.plain dPeriod (percentKs kPeriod cs)) := mem_readings_of_readingAt? hr
    obtain ⟨k, hk, d, hd, rfl⟩ := exists_of_mem_zipWith hmem
    have hkrange := hks k (List.mem_of_mem_drop hk)
    have hdrange := Average.plain_mem (convex_Icc 0 100) hdPeriod hks hd
    exact ⟨k, d, rfl, hkrange.1, hkrange.2, hdrange.1, hdrange.2⟩

section Sample

attribute [local instance] exactRoots

def rangingCandles : List (Candle ℚ) :=
  [(9, 10, 12), (10, 12, 13), (8, 9, 12), (9, 13, 14)].map fun (low, close, high) =>
    { time := { seconds := 0 }, openPrice := close, high, low, close, volume := 1 }

theorem oscillators_in_range_ranging :
    (∀ c ∈ rangingCandles, c.low ≤ c.close ∧ c.close ≤ c.high) ∧
    ∃ v k d, ((Indicator.rsi 2).compute rangingCandles).readingAt? 3 = some (.simple v) ∧
      v = 1000 / 13 ∧ 0 ≤ v ∧ v ≤ 100 ∧
      ((Indicator.stochastic 2 2).compute rangingCandles).readingAt? 3 = some (.stochastic k d) ∧
      k = 250 / 3 ∧ d = 155 / 3 ∧ 0 ≤ k ∧ k ≤ 100 ∧ 0 ≤ d ∧ d ≤ 100 := by
  have hcs : ∀ c ∈ rangingCandles, c.low ≤ c.close ∧ c.close ≤ c.high := by
    decide +kernel
  have hstrength : (((Indicator.rsi 2).compute rangingCandles).readingAt? 3).map
      (·.output? none) = some (some (1000 / 13)) := by
    decide +kernel
  have hrange : (((Indicator.stochastic 2 2).compute rangingCandles).readingAt? 3).map
      (fun r => (r.output? (some "k"), r.output? (some "d"))) =
        some (some (250 / 3), some (155 / 3)) := by
    decide +kernel
  obtain ⟨hrsi, hstochastic⟩ := oscillators_in_range rangingCandles
  obtain ⟨r, hr, hv⟩ := Option.map_eq_some_iff.mp hstrength
  obtain ⟨s, hs, hkd⟩ := Option.map_eq_some_iff.mp hrange
  obtain ⟨v, rfl, hvmin, hvmax⟩ := hrsi 2 (by decide) 3 r hr
  obtain ⟨k, d, rfl, hranges⟩ := hstochastic hcs 2 2 (by decide) (by decide) 3 s hs
  obtain ⟨hk, hd⟩ := Prod.mk.inj hkd
  exact ⟨hcs, v, k, d, hr, Option.some.inj hv, hvmin, hvmax, hs, Option.some.inj hk,
    Option.some.inj hd, hranges⟩

end Sample

end Indicator
end StrategyDesk
