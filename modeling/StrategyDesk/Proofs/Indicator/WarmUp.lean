import StrategyDesk.Proofs.Indicator.Online
import StrategyDesk.Proofs.Strategy.Admission

/-!
This module contains how many candles an indicator takes before it says something. There is one
reading for each candle from the first sufficient one on, and the readings belong to the last candles.
-/

namespace StrategyDesk

variable {α : Type} [Arithmetic α]

theorem Candle.length_neighbours {β : Type} (xs : List β) :
    (neighbours xs).length = xs.length - 1 := by
  unfold neighbours
  simp

omit [Arithmetic α] in
theorem Candle.length_closes (cs : List (Candle α)) : (closes cs).length = cs.length :=
  List.length_map Candle.close

namespace Average

theorem length_plain {p : Nat} (xs : List α) (hp : p ≠ 0) :
    (plain p xs).length = xs.length + 1 - p := by
  unfold plain
  rw [List.length_map, length_windows p xs hp]

theorem length_exponential {p : Nat} (xs : List α) (hp : p ≠ 0) :
    (exponential p xs).length = xs.length + 1 - p :=
  length_smoothed _ p xs hp

theorem length_weighted {p : Nat} (xs : List α) (hp : p ≠ 0) :
    (weighted p xs).length = xs.length + 1 - p :=
  length_smoothed _ p xs hp

end Average

namespace Indicator

omit [Arithmetic α] in
theorem HasPeriods.minCandles_pos {ind : Indicator α} (h : ind.HasPeriods) :
    0 < ind.minCandles := by
  cases ind <;> simp [HasPeriods, periods, minCandles] at h ⊢ <;> omega

theorem minCandles_pos {ind : Indicator α} (h : ind.validate = .ok ()) : 0 < ind.minCandles :=
  (hasPeriods_of_validate h).minCandles_pos

/-! ## Readings -/

section Readings

variable (cs : List (Candle α))

theorem length_macdLine {fast slow : Nat} (prices : List α) (hfast : fast ≠ 0) (hslow : slow ≠ 0) :
    (macdLine fast slow prices).length = prices.length + 1 - max fast slow := by
  unfold macdLine
  simp only [List.length_zipWith, List.length_drop, Average.length_exponential _ hfast,
    Average.length_exponential _ hslow]
  omega

theorem length_macdReadings {fast slow signal : Nat} (prices : List α) (hfast : fast ≠ 0)
    (hslow : slow ≠ 0) (hsignal : signal ≠ 0) :
    (macdReadings fast slow signal prices).length =
      prices.length + 1 - (max fast slow + signal - 1) := by
  unfold macdReadings
  simp only [List.length_zipWith, List.length_drop, Average.length_exponential _ hsignal,
    length_macdLine prices hfast hslow]
  omega

theorem length_gains : (gains cs).length = cs.length - 1 := by
  unfold gains
  rw [List.length_map, Candle.length_neighbours]

theorem length_losses : (losses cs).length = cs.length - 1 := by
  unfold losses
  rw [List.length_map, Candle.length_neighbours]

theorem length_trueRanges : (trueRanges cs).length = cs.length - 1 := by
  unfold trueRanges
  rw [List.length_map, Candle.length_neighbours]

theorem length_rsiValues {period : Nat} (hperiod : period ≠ 0) :
    (rsiValues period cs).length = cs.length + 1 - (period + 1) := by
  unfold rsiValues
  simp only [List.length_zipWith, Average.length_weighted _ hperiod, length_gains, length_losses]
  omega

theorem length_stochasticReadings {kPeriod dPeriod : Nat} (hk : kPeriod ≠ 0) (hd : dPeriod ≠ 0) :
    (stochasticReadings kPeriod dPeriod cs).length =
      cs.length + 1 - (kPeriod + dPeriod - 1) := by
  unfold stochasticReadings
  simp only [List.length_zipWith, List.length_drop, List.length_map, Average.length_plain _ hd,
    Average.length_windows _ _ hk]
  omega

theorem length_turnovers : (turnovers cs).length = cs.length := by
  unfold turnovers
  simp

theorem length_readings {ind : Indicator α} (hperiods : ind.HasPeriods) (hvwap : ind ≠ .vwap) :
    (ind.readings cs).length = cs.length + 1 - ind.minCandles := by
  have hcloses := Candle.length_closes cs
  cases ind with
  | sma period =>
    have hperiod : period ≠ 0 := hasPeriods_iff.mp hperiods
    simp only [readings, minCandles, List.length_map, Average.length_plain _ hperiod, hcloses]
  | ema period =>
    have hperiod : period ≠ 0 := hasPeriods_iff.mp hperiods
    simp only [readings, minCandles, List.length_map, Average.length_exponential _ hperiod, hcloses]
  | rsi period =>
    have hperiod : period ≠ 0 := hasPeriods_iff.mp hperiods
    simp only [readings, minCandles, List.length_map, length_rsiValues cs hperiod]
  | macd fast slow signal =>
    have hperiods : fast ≠ 0 ∧ slow ≠ 0 ∧ signal ≠ 0 := hasPeriods_iff.mp hperiods
    obtain ⟨hfast, hslow, hsignal⟩ := hperiods
    simp only [readings, minCandles, length_macdReadings _ hfast hslow hsignal, hcloses]
  | bollinger period k =>
    have hperiod : period ≠ 0 := hasPeriods_iff.mp hperiods
    simp only [readings, minCandles, List.length_map, Average.length_windows _ _ hperiod, hcloses]
  | stochastic kPeriod dPeriod =>
    have hperiods : kPeriod ≠ 0 ∧ dPeriod ≠ 0 := hasPeriods_iff.mp hperiods
    simp only [readings, minCandles, length_stochasticReadings cs hperiods.1 hperiods.2]
  | atr period =>
    have hperiod : period ≠ 0 := hasPeriods_iff.mp hperiods
    simp only [readings, minCandles, List.length_map, Average.length_weighted _ hperiod,
      length_trueRanges]
    omega
  | vwap => exact absurd rfl hvwap

end Readings

/-! ## Series -/

section Series

variable (ind : Indicator α) (cs : List (Candle α))

theorem size_compute : (ind.compute cs).points.size = (ind.readings cs).length := by
  have hle := ind.online_readings.length_le cs
  unfold compute Series.ofReadings
  simp only [List.size_toArray, List.length_map, List.length_zip, List.length_drop]
  split
  . next hnone =>
    rw [List.isEmpty_iff.mp hnone]
    simp
  . omega

theorem offset_compute (h : ind.readings cs ≠ []) :
    (ind.compute cs).offset = cs.length - (ind.readings cs).length := by
  unfold compute Series.ofReadings
  simp [h]

theorem time_of_points {j : Nat} {p : Point α} (h : (ind.compute cs).points[j]? = some p) :
    cs[(ind.compute cs).offset + j]?.map Candle.time = some p.time := by
  apply Series.time_of_pointAt?
  show (ind.compute cs).pointAt? _ = _
  unfold Series.pointAt?
  rw [if_pos (Nat.le_add_right _ _), Nat.add_sub_cancel_left]
  exact h

variable {ind cs}

theorem readingAt?_compute {i : Nat} (hperiods : ind.HasPeriods) (hvwap : ind ≠ .vwap)
    (hi : i < cs.length) :
    (ind.compute cs).readingAt? i =
      if ind.minCandles ≤ i + 1 then (ind.readings cs)[i + 1 - ind.minCandles]? else none := by
  have hpos := hperiods.minCandles_pos
  have hlength := length_readings cs hperiods hvwap
  unfold compute
  rw [Series.readingAt?_ofReadings (ind.online_readings.length_le cs)]
  by_cases hmin : ind.minCandles ≤ i + 1
  . rw [if_pos (by omega), if_pos hmin]
    congr 1
    omega
  . rw [if_neg hmin]
    split
    . apply List.getElem?_eq_none
      omega
    . rfl

theorem isSome_readingAt?_compute {i : Nat} (hperiods : ind.HasPeriods) (hvwap : ind ≠ .vwap)
    (hi : i < cs.length) :
    ((ind.compute cs).readingAt? i).isSome = true ↔ ind.minCandles ≤ i + 1 := by
  have hpos := hperiods.minCandles_pos
  have hlength := length_readings cs hperiods hvwap
  rw [readingAt?_compute hperiods hvwap hi]
  split
  . next hmin =>
    rw [List.getElem?_eq_getElem (by omega)]
    simp [hmin]
  . next hmin => simp [hmin]

end Series

end Indicator

/-! ## Required candles -/

namespace Config

variable {cfg : Config α} {ki : KeyedIndicator α}

omit [Arithmetic α] in
theorem requiredCandles_spec (cfg : Config α) :
    cfg.requiredCandles ∈ 1 :: cfg.indicators.map (fun ki => ki.indicator.minCandles) ∧
      ∀ count ∈ 1 :: cfg.indicators.map (fun ki => ki.indicator.minCandles),
        count ≤ cfg.requiredCandles := by
  apply List.max?_eq_some_iff.mp
  exact List.max?_cons'

omit [Arithmetic α] in
theorem requiredCandles_pos (cfg : Config α) : 0 < cfg.requiredCandles := by
  apply (requiredCandles_spec cfg).2
  exact List.mem_cons_self

omit [Arithmetic α] in
theorem minCandles_le_requiredCandles (h : ki ∈ cfg.indicators) :
    ki.indicator.minCandles ≤ cfg.requiredCandles := by
  apply (requiredCandles_spec cfg).2
  apply List.mem_cons_of_mem
  exact List.mem_map_of_mem h

theorem exists_minCandles_eq (hvalid : ∀ ki ∈ cfg.indicators, ki.indicator.validate = .ok ())
    (hsome : cfg.indicators ≠ []) :
    ∃ ki ∈ cfg.indicators, ki.indicator.minCandles = cfg.requiredCandles := by
  rcases List.mem_cons.mp (requiredCandles_spec cfg).1 with hone | hmem
  . obtain ⟨ki, hki⟩ := List.exists_mem_of_ne_nil _ hsome
    have hpos := Indicator.minCandles_pos (hvalid ki hki)
    have hle := minCandles_le_requiredCandles hki
    exact ⟨ki, hki, by omega⟩
  . exact List.mem_map.mp hmem

end Config
end StrategyDesk
