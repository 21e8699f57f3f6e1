import StrategyDesk.Proofs.Backtest.Rounds
import StrategyDesk.Proofs.Indicator.Counting

/-!
This module contains to which candles the points of an indicator belong. Its series begins at the
first candle that is sufficient and has a point for each one from there on. No candle after it changes
a point.
-/

namespace StrategyDesk

/-! ## Running totals -/

theorem Average.getElem?_running {β γ : Type} (step : γ → β → γ) (start : γ) {xs : List β} {i : Nat}
    (h : i ≤ xs.length) : (running step start xs)[i]? = some ((xs.take i).foldl step start) := by
  induction xs generalizing start i with
  | nil =>
    rw [Nat.le_zero.mp h]
    rfl
  | cons x xs ih =>
    cases i with
    | zero => rfl
    | succ i => exact ih (step start x) (Nat.le_of_succ_le_succ h)

variable {α : Type} [Arithmetic α]

def volumeUpTo (cs : List (Candle α)) (i : Nat) : α :=
  ((cs.take (i + 1)).map Candle.volume).foldl (· + ·) 0

theorem volume_of_turnovers {cs : List (Candle α)} {i : Nat} {total : α × α}
    (h : (Indicator.turnovers cs)[i]? = some total) : total.2 = volumeUpTo cs i := by
  have hi := (List.getElem?_eq_some_iff.mp h).1
  rw [Indicator.length_turnovers] at hi
  unfold Indicator.turnovers at h
  rw [List.getElem?_tail, Average.getElem?_running _ _ (by omega)] at h
  injection h with h
  rw [← h]
  unfold volumeUpTo
  rw [List.foldl_map]
  exact (List.foldl_hom Prod.snd fun _ _ => rfl).symm

/-! ## Series -/

/-- Whether a series has one point for each candle from a place on, at the time of that candle. -/
structure Series.Covers (s : Series α) (cs : List (Candle α)) (offset : Nat) : Prop where
  offset_eq : s.offset = offset
  size_add : s.points.size + offset = cs.length
  time_eq : ∀ j p, s.points[j]? = some p → cs[offset + j]?.map Candle.time = some p.time

namespace Indicator

variable {ind : Indicator α} {cs : List (Candle α)}

theorem covers_compute (h : ind.readings cs ≠ []) :
    (ind.compute cs).Covers cs (cs.length - (ind.readings cs).length) := by
  have hle := ind.online_readings.length_le cs
  constructor
  . exact offset_compute ind cs h
  . rw [size_compute]
    omega
  . intro j p hp
    rw [← offset_compute ind cs h]
    exact time_of_points ind cs hp

theorem size_compute_eq_zero_iff (hvalid : ind.validate = .ok ()) (hvwap : ind ≠ .vwap) :
    (ind.compute cs).points.size = 0 ↔ cs.length < ind.minCandles := by
  rw [size_compute, length_readings cs (hasPeriods_of_validate hvalid) hvwap]
  omega

theorem covers_of_le (hvalid : ind.validate = .ok ()) (hvwap : ind ≠ .vwap)
    (h : ind.minCandles ≤ cs.length) : (ind.compute cs).Covers cs (ind.minCandles - 1) := by
  have hpos := minCandles_pos hvalid
  have hlength := length_readings cs (hasPeriods_of_validate hvalid) hvwap
  have hoffset : cs.length - (ind.readings cs).length = ind.minCandles - 1 := by omega
  rw [← hoffset]
  apply covers_compute
  apply List.ne_nil_of_length_pos
  omega

end Indicator

/-! ## Volume -/

section Volume

open Counted

variable {cs : List (Candle α)} {i : Nat}

theorem firstVolume_le (cs : List (Candle α)) : firstVolume cs ≤ cs.length := by
  rw [← Indicator.length_turnovers cs]
  exact List.findIdx_le_length

theorem volumeUpTo_of_lt (h : i < firstVolume cs) : (volumeUpTo cs i == 0) = true := by
  have hle := firstVolume_le cs
  have hi : i < (Indicator.turnovers cs).length := by
    rw [Indicator.length_turnovers]
    omega
  have hnot := List.not_of_lt_findIdx h
  rw [← volume_of_turnovers (List.getElem?_eq_getElem hi)]
  simpa using hnot

theorem volumeUpTo_firstVolume (h : firstVolume cs < cs.length) :
    (volumeUpTo cs (firstVolume cs) == 0) = false := by
  have hi : firstVolume cs < (Indicator.turnovers cs).length := by
    rw [Indicator.length_turnovers]
    exact h
  have hfirst : (!((Indicator.turnovers cs)[firstVolume cs].2 == 0)) = true :=
    List.findIdx_getElem (w := hi)
  rw [← volume_of_turnovers (List.getElem?_eq_getElem hi)]
  simpa using hfirst

theorem firstVolume_eq_iff_isLeast :
    IsLeast { i | i < cs.length ∧ (volumeUpTo cs i == 0) = false } i ↔
      i < cs.length ∧ firstVolume cs = i := by
  constructor
  . rintro ⟨⟨hi, hvolume⟩, hleast⟩
    have hle : firstVolume cs ≤ i := by
      by_contra hlt
      rw [volumeUpTo_of_lt (Nat.lt_of_not_le hlt)] at hvolume
      cases hvolume
    have hge := hleast ⟨Nat.lt_of_le_of_lt hle hi, volumeUpTo_firstVolume (by omega)⟩
    exact ⟨hi, Nat.le_antisymm hle hge⟩
  . rintro ⟨hi, rfl⟩
    refine ⟨⟨hi, volumeUpTo_firstVolume hi⟩, ?_⟩
    rintro k ⟨hk, hvolume⟩
    by_contra hlt
    rw [volumeUpTo_of_lt (Nat.lt_of_not_le hlt)] at hvolume
    cases hvolume

theorem size_compute_vwap_eq_zero_iff :
    (Indicator.vwap.compute cs).points.size = 0 ↔
      ∀ i, i < cs.length → (volumeUpTo cs i == 0) = true := by
  rw [Indicator.size_compute, length_readings_vwap]
  constructor
  . intro hzero i hi
    exact volumeUpTo_of_lt (by omega)
  . intro hall
    by_contra hsome
    have hlt : firstVolume cs < cs.length := by omega
    have hfirst := volumeUpTo_firstVolume hlt
    rw [hall _ hlt] at hfirst
    cases hfirst

theorem covers_compute_vwap (h : firstVolume cs < cs.length) :
    (Indicator.vwap.compute cs).Covers cs (firstVolume cs) := by
  have hlength := length_readings_vwap cs
  have hoffset : cs.length - (Indicator.vwap.readings cs).length = firstVolume cs := by omega
  rw [← hoffset]
  apply Indicator.covers_compute
  apply List.ne_nil_of_length_pos
  omega

end Volume

/-! ## Required candles -/

namespace Config

open Counted

variable {cfg : Config α} {n : Nat}

def HasValues (cfg : Config α) (cs : List (Candle α)) : Prop :=
  ∀ ki ∈ cfg.indicators, ∃ s, compute ki.indicator cs = .ok s ∧
    ∃ last, last + 1 = cs.length ∧ (s.readingAt? last).isSome = true

theorem hasValues_of_length (hvalid : cfg.validate = .ok ())
    (hvwap : ∀ ki ∈ cfg.indicators, ki.indicator ≠ .vwap) (hn : n ≤ maxCount)
    (h : Counted.requiredCandles cfg = .ok n) {cs : List (Candle α)} (hcs : cs.length = n) :
    cfg.HasValues cs := by
  obtain ⟨hfits, rfl⟩ := requiredCandles_eq_ok_iff.mp h
  have hpos := cfg.requiredCandles_pos
  intro ki hki
  have hki' := validate_indicator hvalid hki
  have hmin := minCandles_le_requiredCandles hki
  refine ⟨_, compute_of_le hki' (hfits ki hki) (by omega), cs.length - 1, by omega, ?_⟩
  rw [Indicator.isSome_readingAt?_compute (Indicator.hasPeriods_of_validate hki') (hvwap ki hki)
    (by omega)]
  omega

theorem requiredCandles_le_of_hasValues (hvalid : cfg.validate = .ok ())
    (hsome : cfg.indicators ≠ []) (hvwap : ∀ ki ∈ cfg.indicators, ki.indicator ≠ .vwap)
    (hn : n ≤ maxCount) (h : Counted.requiredCandles cfg = .ok n) {cs : List (Candle α)}
    (hcs : cfg.HasValues cs) : n ≤ cs.length := by
  obtain ⟨hfits, rfl⟩ := requiredCandles_eq_ok_iff.mp h
  obtain ⟨ki, hki, hmin⟩ := exists_minCandles_eq (fun _ => validate_indicator hvalid) hsome
  have hki' := validate_indicator hvalid hki
  by_contra hlt
  obtain ⟨s, hs, last, hlast, hvalue⟩ := hcs ki hki
  rw [compute_of_le hki' (hfits ki hki) (by omega)] at hs
  injection hs with hs
  subst hs
  rw [Indicator.isSome_readingAt?_compute (Indicator.hasPeriods_of_validate hki') (hvwap ki hki)
    (by omega)] at hvalue
  omega

end Config

/--
Whatever candles follow, an indicator either says nothing at a candle, or it says the same in all its
outputs, at the time of that candle. If there is no count after its period, there is no series for
the longer list and none for the shorter one.
-/
theorem Indicator.compute_causal {ind : Indicator α} (hperiods : ind.HasPeriods)
    {cs ds : List (Candle α)} (hmax : (cs ++ ds).length ≤ maxCount) :
    if ind.seesChanges = true ∧ maxCount < ind.greatestSum then
      Counted.compute ind cs = .error .overflow ∧ Counted.compute ind (cs ++ ds) = .error .overflow
    else
      ∃ s later, Counted.compute ind cs = .ok s ∧ Counted.compute ind (cs ++ ds) = .ok later ∧
        ∀ i : Fin cs.length,
          (later.readingAt? i = none ∧ s.readingAt? i = none) ∨
          ∃ r, later.readingAt? i = some r ∧ s.readingAt? i = some r ∧
            later.pointAt? i = some { time := cs[i].time, reading := r } ∧
            s.pointAt? i = some { time := cs[i].time, reading := r } := by
  have hlength : cs.length ≤ maxCount := by
    rw [List.length_append] at hmax
    omega
  rw [Counted.compute_eq hperiods hlength, Counted.compute_eq hperiods hmax]
  split
  . exact ⟨rfl, rfl⟩
  . refine ⟨_, _, rfl, rfl, ?_⟩
    intro i
    have hi : i < (cs ++ ds).length := by
      rw [List.length_append]
      omega
    rw [pointAt?_compute ind i.isLt, pointAt?_compute ind hi, List.getElem_append_left i.isLt,
      ind.readingAt?_append cs ds i.isLt]
    cases (ind.compute cs).readingAt? i with
    | none => exact .inl ⟨rfl, rfl⟩
    | some r => exact .inr ⟨r, rfl, rfl, rfl, rfl⟩

theorem Indicator.compute_causal_growing :
    (Indicator.macd 2 3 2 : Indicator Float).HasPeriods ∧
    (candlesOfCloses [1, 2, 4, 8] ++ candlesOfCloses [16]).length ≤ maxCount ∧
    ∃ s later r, Counted.compute (.macd 2 3 2) (candlesOfCloses [1, 2, 4, 8]) = .ok s ∧
      Counted.compute (.macd 2 3 2) (candlesOfCloses [1, 2, 4, 8] ++ candlesOfCloses [16]) =
        .ok later ∧
      s.pointAt? 3 = some { time := { seconds := 259200 }, reading := r } ∧
      later.pointAt? 3 = some { time := { seconds := 259200 }, reading := r } := by
  have hperiods : (Indicator.macd 2 3 2 : Indicator Float).HasPeriods := hasPeriods_iff.mpr (by decide)
  have hmax : (candlesOfCloses [1, 2, 4, 8] ++ candlesOfCloses [16]).length ≤ maxCount := by decide
  refine ⟨hperiods, hmax, ?_⟩
  have hcausal := Indicator.compute_causal hperiods hmax
  rw [if_neg (by decide)] at hcausal
  obtain ⟨s, later, hs, hlater, hreadings⟩ := hcausal
  have hsome : (s.readingAt? 3).isSome = true := by
    have hmacd := (Counted.macd_eq hperiods (by decide)).symm.trans hs
    injection hmacd with hs
    rw [← hs, isSome_readingAt?_compute hperiods nofun (by decide)]
    decide
  rcases hreadings ⟨3, by decide⟩ with ⟨_, hnone⟩ | ⟨r, _, _, hlaterPoint, hpoint⟩
  . rw [hnone] at hsome
    cases hsome
  . exact ⟨s, later, r, hs, hlater, hpoint, hlaterPoint⟩

open Counted in
/--
If the warm-up of an indicator can be counted, its series is empty on fewer candles. Otherwise it
begins at the last candle of the warm-up and has one point for each candle from there on. The average
by volume begins at the first candle at which the volume so far is not zero. Therefore the required
candles are the least number of candles on which all indicators have a value at the end.
-/
theorem Series.covers_after_warmUp (α : Type) [Arithmetic α] :
    (∀ ind : Indicator α, ind.validate = .ok () → ind ≠ .vwap → ∀ n, minCandles ind = .ok n →
      0 < n ∧ ∀ cs : List (Candle α), cs.length ≤ maxCount → ∃ s, compute ind cs = .ok s ∧
        (s.points.size = 0 ↔ cs.length < n) ∧ (n ≤ cs.length → s.Covers cs (n - 1))) ∧
    (∀ cs : List (Candle α), cs.length ≤ maxCount → ∃ s, compute .vwap cs = .ok s ∧
      (s.points.size = 0 ↔ ∀ i, i < cs.length → (volumeUpTo cs i == 0) = true) ∧
      ∀ i, IsLeast { i | i < cs.length ∧ (volumeUpTo cs i == 0) = false } i → s.Covers cs i) ∧
    ∀ cfg : Config α, cfg.validate = .ok () → cfg.indicators ≠ [] →
      (∀ ki ∈ cfg.indicators, ki.indicator ≠ .vwap) → ∀ n, n ≤ maxCount →
      requiredCandles cfg = .ok n →
        IsLeast { m | ∀ cs : List (Candle α), cs.length = m → cfg.HasValues cs } n := by
  refine ⟨?_, ?_, ?_⟩
  . intro ind hvalid hvwap n hn
    obtain ⟨hfits, rfl⟩ := minCandles_eq_ok_iff.mp hn
    refine ⟨Indicator.minCandles_pos hvalid, ?_⟩
    intro cs hmax
    refine ⟨_, compute_of_le hvalid hfits hmax, ?_, ?_⟩
    . exact Indicator.size_compute_eq_zero_iff hvalid hvwap
    . exact Indicator.covers_of_le hvalid hvwap
  . intro cs hmax
    refine ⟨_, vwap_eq, size_compute_vwap_eq_zero_iff, ?_⟩
    intro i hi
    obtain ⟨hlt, rfl⟩ := firstVolume_eq_iff_isLeast.mp hi
    exact covers_compute_vwap hlt
  . intro cfg hvalid hsome hvwap n hmax hn
    constructor
    . intro cs hcs
      exact Config.hasValues_of_length hvalid hvwap hmax hn hcs
    . intro m hm
      have hflat : (List.replicate m (Candle.mk ⟨0, 0⟩ 0 0 0 0 0 : Candle α)).length = m :=
        List.length_replicate
      have hle := Config.requiredCandles_le_of_hasValues hvalid hsome hvwap hmax hn (hm _ hflat)
      rw [hflat] at hle
      exact hle

open Counted in
theorem Series.covers_growing :
    (∃ s, compute (.macd 2 3 2) (candlesOfCloses [1, 2, 4, 8, 16]) = .ok s ∧
      s.Covers (candlesOfCloses [1, 2, 4, 8, 16]) 3) ∧
    (∃ s, compute .vwap (candlesOfCloses [1, 2, 4, 8, 16]) = .ok s ∧
      s.Covers (candlesOfCloses [1, 2, 4, 8, 16]) 0) ∧
    IsLeast { m | ∀ cs : List (Candle Float), cs.length = m → (strengthConfig 14).HasValues cs }
      15 := by
  obtain ⟨hindicators, hvwap, hconfigs⟩ := Series.covers_after_warmUp Float
  refine ⟨?_, ?_, ?_⟩
  . obtain ⟨_, hmacd⟩ := hindicators (.macd 2 3 2) rfl nofun 4 rfl
    obtain ⟨s, hs, _, hcovers⟩ := hmacd (candlesOfCloses [1, 2, 4, 8, 16]) (by decide)
    exact ⟨s, hs, hcovers (by decide)⟩
  . obtain ⟨s, hs, _, hcovers⟩ := hvwap (candlesOfCloses [1, 2, 4, 8, 16]) (by decide)
    have hvolume : (volumeUpTo (candlesOfCloses [1, 2, 4, 8, 16]) 0 == 0) = false := by
      decide +kernel
    exact ⟨s, hs, hcovers 0 ⟨⟨by decide, hvolume⟩, fun _ _ => Nat.zero_le _⟩⟩
  . have hrsi : ∀ ki ∈ (strengthConfig 14).indicators, ki.indicator ≠ .vwap := by
      intro ki hki
      rw [List.mem_singleton.mp hki]
      exact nofun
    exact hconfigs (strengthConfig 14) rfl nofun hrsi 15 (by decide) rfl

open Counted in
/-- With the greatest period there is neither a warm-up nor a series, not even an empty one. -/
theorem Series.none_of_greatest_period :
    (Indicator.parse "ATR(18446744073709551615)".toList).toOption.map
        (fun ind => (ind.name, ind.periods)) = some ("ATR", [("period", maxCount)]) ∧
      (Indicator.atr maxCount : Indicator Float).validate = .ok () ∧
      minCandles (.atr maxCount : Indicator Float) = .error .overflow ∧
      ∀ s, compute (.atr maxCount) (candlesOfCloses [100]) ≠ .ok s := by
  refine ⟨by decide +kernel, rfl, rfl, ?_⟩
  intro s hs
  have hfault : compute (.atr maxCount) (candlesOfCloses [100]) = .error .overflow := by
    apply atr_of_lt
    decide
  rw [hfault] at hs
  cases hs

end StrategyDesk
