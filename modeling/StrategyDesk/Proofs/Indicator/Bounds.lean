import StrategyDesk.Proofs.Backtest.Balance
import StrategyDesk.Proofs.Indicator.Averages

/-!
This module contains the bounds of averaging indicators, in exact arithmetic. Each of them lies
between the least and the greatest of the prices or ranges that it averages.
-/

namespace StrategyDesk

open Arithmetic Candle Set

def Between (xs : List ℚ) (v : ℚ) : Prop :=
  ∃ least greatest, xs.min? = some least ∧ xs.max? = some greatest ∧ least ≤ v ∧ v ≤ greatest

namespace Indicator

variable [Conventions]

theorem between_of_forall {xs : List ℚ} {v : ℚ}
    (h : ∀ lo hi, (∀ x ∈ xs, x ∈ Icc lo hi) → v ∈ Icc lo hi) : Between xs v := by
  have hne : xs ≠ [] := by
    rintro rfl
    have hv := h 1 0 nofun
    exact absurd (hv.1.trans hv.2) (by norm_num)
  have hv := h (lowest xs) (highest xs) fun x hx => ⟨lowest_le hx, le_highest hx⟩
  exact ⟨lowest xs, highest xs, min?_eq_lowest hne, max?_eq_highest hne, hv.1, hv.2⟩

variable {cs : List (Candle ℚ)} {period i : Nat} {v : ℚ}

/-! ## Trailing windows -/

def trailing {α : Type} (period : Nat) (cs : List (Candle α)) (i : Nat) : List (Candle α) :=
  (cs.drop (i + 1 - period)).take period

omit [Conventions] in
theorem length_trailing {α : Type} {cs : List (Candle α)} (hmin : period ≤ i + 1)
    (hi : i < cs.length) : (trailing period cs i).length = period := by
  unfold trailing
  rw [List.length_take, List.length_drop]
  omega

omit [Conventions] in
theorem getElem?_windows_closes {α : Type} {cs : List (Candle α)} (hperiod : period ≠ 0)
    (hmin : period ≤ i + 1) (hi : i < cs.length) :
    (Average.windows period (closes cs))[i + 1 - period]? =
      some (closes (trailing period cs i)) := by
  have hcloses := length_closes cs
  rw [Average.getElem?_windows hperiod (by omega)]
  unfold trailing closes
  rw [List.map_take, List.map_drop]

omit [Conventions] in
theorem reading_of_windows {α : Type} [Arithmetic α] {ind : Indicator α} {cs : List (Candle α)}
    {f : List α → Reading α} {r : Reading α} (hperiods : ind.HasPeriods) (hvwap : ind ≠ .vwap)
    (hmin : ind.minCandles = period)
    (hreadings : ind.readings cs = (Average.windows period (closes cs)).map f)
    (h : (ind.compute cs).readingAt? i = some r) :
    period ≤ i + 1 ∧ i < cs.length ∧ r = f (closes (trailing period cs i)) := by
  have hi := lt_length_of_readingAt? h
  have hpos := hperiods.minCandles_pos
  rw [readingAt?_compute hperiods hvwap hi, hmin] at h
  split at h
  . next hcovered =>
    rw [hreadings, List.getElem?_map, getElem?_windows_closes (by omega) hcovered hi] at h
    injection h with h
    exact ⟨hcovered, hi, h.symm⟩
  . cases h

theorem between_mean_trailing (hperiod : period ≠ 0) (hmin : period ≤ i + 1) (hi : i < cs.length) :
    Between (closes (trailing period cs i)) (mean (closes (trailing period cs i))) := by
  have hlength := length_trailing hmin hi
  apply between_of_forall
  intro lo hi hbounds
  apply mean_mem (convex_Icc lo hi) _ hbounds
  apply List.ne_nil_of_length_pos
  rw [length_closes]
  omega

theorem halfWidth_nonneg {k : ℚ} (hk : 0 < k) (hsqrt : ∀ x, 0 ≤ Conventions.sqrt x)
    (window : List ℚ) : 0 ≤ k * deviation window (mean window) :=
  mul_nonneg hk.le (hsqrt _)

/-! ## True ranges -/

theorem trueRange_nonneg (c : Candle ℚ) (before : ℚ) : 0 ≤ c.trueRange before := by
  unfold trueRange
  rw [greatest_eq]
  apply le_max_of_le_right
  exact abs_nonneg (c.low - before)

theorem nonneg_of_mem_trueRanges : ∀ x ∈ trueRanges cs, x ∈ Ici (0 : ℚ) := by
  intro x hx
  obtain ⟨⟨before, c⟩, _, rfl⟩ := List.mem_map.mp hx
  exact trueRange_nonneg c before.close

/-! ## Average by volume -/

structure Worth (lo hi : ℚ) (total : ℚ × ℚ) : Prop where
  le_turnover : lo * total.2 ≤ total.1
  turnover_le : total.1 ≤ hi * total.2

omit [Conventions] in
theorem Worth.add {lo hi price volume : ℚ} {total : ℚ × ℚ} (h : Worth lo hi total)
    (hvolume : 0 ≤ volume) (hprice : volume ≠ 0 → price ∈ Icc lo hi) :
    Worth lo hi (total.1 + price * volume, total.2 + volume) := by
  have hbounds : lo * volume ≤ price * volume ∧ price * volume ≤ hi * volume := by
    by_cases hzero : volume = 0
    . simp [hzero]
    . obtain ⟨hlo, hhi⟩ := hprice hzero
      exact ⟨mul_le_mul_of_nonneg_right hlo hvolume, mul_le_mul_of_nonneg_right hhi hvolume⟩
  constructor
  . rw [mul_add]
    exact add_le_add h.le_turnover hbounds.1
  . rw [mul_add]
    exact add_le_add h.turnover_le hbounds.2

omit [Conventions] in
theorem Worth.div_mem {lo hi : ℚ} {total : ℚ × ℚ} (h : Worth lo hi total) (hpos : 0 < total.2) :
    total.1 / total.2 ∈ Icc lo hi :=
  ⟨(le_div_iff₀ hpos).mpr h.le_turnover, (div_le_iff₀ hpos).mpr h.turnover_le⟩

def addCandle (total : ℚ × ℚ) (c : Candle ℚ) : ℚ × ℚ :=
  (total.1 + c.typicalPrice * c.volume, total.2 + c.volume)

theorem cons_turnovers (cs : List (Candle ℚ)) :
    (0, 0) :: turnovers cs = Average.running addCandle (0, 0) cs := by
  cases cs <;> rfl

theorem volume_pos_of_mem_running {start : ℚ × ℚ} (hvolumes : ∀ c ∈ cs, 0 ≤ c.volume)
    (hstart : 0 < start.2) : ∀ total ∈ Average.running addCandle start cs, 0 < total.2 := by
  refine Average.forall_mem_running (P := fun total : ℚ × ℚ => 0 < total.2) hstart ?_
  intro total c hc htotal
  exact add_pos_of_pos_of_nonneg htotal (hvolumes c hc)

theorem volume_pos_of_mem_dropWhile {start : ℚ × ℚ} (hvolumes : ∀ c ∈ cs, 0 ≤ c.volume)
    (hstart : 0 ≤ start.2) :
    ∀ total ∈ (Average.running addCandle start cs).dropWhile (fun total => total.2 == 0),
      0 < total.2 := by
  induction cs generalizing start with
  | nil =>
    unfold Average.running
    rw [List.dropWhile_cons]
    split
    . exact List.forall_mem_nil _
    . next hsome =>
      have hpos := lt_of_le_of_ne hstart fun hzero => hsome (beq_iff_eq.mpr hzero.symm)
      rwa [List.forall_mem_singleton]
  | cons c cs ih =>
    have hlater := List.forall_mem_cons.mp hvolumes
    rw [Average.running, List.dropWhile_cons]
    split
    . exact ih hlater.2 (add_nonneg hstart hlater.1)
    . next hsome =>
      have hpos := lt_of_le_of_ne hstart fun hzero => hsome (beq_iff_eq.mpr hzero.symm)
      exact volume_pos_of_mem_running hvolumes hpos

theorem mem_of_mem_vwapValues {lo hi : ℚ} (hvolumes : ∀ c ∈ cs, 0 ≤ c.volume)
    (hprices : ∀ c ∈ cs, c.volume ≠ 0 → c.typicalPrice ∈ Icc lo hi) (hv : v ∈ vwapValues cs) :
    v ∈ Icc lo hi := by
  obtain ⟨total, htotal, rfl⟩ := List.mem_map.mp hv
  have hdropped : (((0, 0) : ℚ × ℚ).2 == 0) = true := beq_self_eq_true 0
  have hworth : Worth lo hi total := by
    have hmem : total ∈ (0, 0) :: turnovers cs :=
      List.mem_cons_of_mem _ ((List.dropWhile_suffix _).mem htotal)
    rw [cons_turnovers] at hmem
    refine Average.forall_mem_running (P := Worth lo hi) ?_ ?_ total hmem
    . exact ⟨by simp, by simp⟩
    . intro total c hc htotal
      exact htotal.add (hvolumes c hc) (hprices c hc)
  have hpos : 0 < total.2 := by
    apply @volume_pos_of_mem_dropWhile _ cs (0, 0) hvolumes (le_refl 0)
    rw [← cons_turnovers, List.dropWhile_cons, if_pos hdropped]
    exact htotal
  have hsome : (total.2 == 0) = false := beq_false_of_ne hpos.ne'
  dsimp only
  rw [hsome]
  exact hworth.div_mem hpos

end Indicator

/--
On candles that can be replayed, the average of a window and the middle of Bollinger bands lie
between the least and the greatest close of the window, and an exponential average between those of
all closes so far. The average by volume lies between the least and the greatest price so far at
which there was a volume. The average true range lies between the least and the greatest true range
so far and is not negative. If roots are not negative, bands of a positive width are in order.
-/
theorem Indicator.averages_in_range [Conventions] {symbol : String} {cs : List (Candle ℚ)}
    (hvalid : Simulation.validateCandles symbol cs = .ok ()) :
    (∀ period, period ≠ 0 → ∀ i r, ((Indicator.sma period).compute cs).readingAt? i = some r →
      ∃ v, r = .simple v ∧ Between (closes (trailing period cs i)) v) ∧
    (∀ period k, period ≠ 0 → ∀ i r,
      ((Indicator.bollinger period k).compute cs).readingAt? i = some r →
      ∃ upper middle lower, r = .bollinger upper middle lower ∧
        Between (closes (trailing period cs i)) middle ∧
        (0 < k → (∀ x, 0 ≤ Conventions.sqrt x) → lower ≤ middle ∧ middle ≤ upper)) ∧
    (∀ period, period ≠ 0 → ∀ i r, ((Indicator.ema period).compute cs).readingAt? i = some r →
      ∃ v, r = .simple v ∧ Between (closes (cs.take (i + 1))) v) ∧
    (∀ i r, (Indicator.vwap.compute cs).readingAt? i = some r →
      ∃ v, r = .simple v ∧
        Between (((cs.take (i + 1)).filter (·.volume ≠ 0)).map typicalPrice) v) ∧
    (∀ period, period ≠ 0 → ∀ i r, ((Indicator.atr period).compute cs).readingAt? i = some r →
      ∃ v, r = .simple v ∧ 0 ≤ v ∧ Between (trueRanges (cs.take (i + 1))) v) := by
  refine ⟨?_, ?_, ?_, ?_, ?_⟩
  . intro period hperiod i r hr
    have hperiods : (Indicator.sma period : Indicator ℚ).HasPeriods := hasPeriods_iff.mpr hperiod
    have hreadings : (Indicator.sma period).readings cs =
        (Average.windows period (closes cs)).map fun window => .simple (mean window) := List.map_map
    obtain ⟨hmin, hi, rfl⟩ := reading_of_windows hperiods (by simp) rfl hreadings hr
    exact ⟨_, rfl, between_mean_trailing hperiod hmin hi⟩
  . intro period k hperiod i r hr
    have hperiods : (Indicator.bollinger period k).HasPeriods := hasPeriods_iff.mpr hperiod
    obtain ⟨hmin, hi, rfl⟩ := reading_of_windows hperiods (by simp) rfl rfl hr
    refine ⟨_, _, _, rfl, between_mean_trailing hperiod hmin hi, ?_⟩
    intro hk hsqrt
    have hwidth := halfWidth_nonneg hk hsqrt (closes (trailing period cs i))
    exact ⟨sub_le_self _ hwidth, le_add_of_nonneg_right hwidth⟩
  . intro period hperiod i r hr
    obtain ⟨v, hv, rfl⟩ := List.mem_map.mp (mem_readings_take_of_readingAt? hr)
    refine ⟨v, rfl, between_of_forall ?_⟩
    intro lo hi hbounds
    exact Average.exponential_mem (convex_Icc lo hi) hperiod hbounds hv
  . intro i r hr
    obtain ⟨v, hv, rfl⟩ := List.mem_map.mp (mem_readings_take_of_readingAt? hr)
    refine ⟨v, rfl, between_of_forall ?_⟩
    intro lo hi hbounds
    refine mem_of_mem_vwapValues ?_ ?_ hv
    . intro c hc
      exact not_lt.mp (Simulation.amounts_of_checkCandles hvalid c (List.mem_of_mem_take hc)).1
    . intro c hc hvolume
      apply hbounds
      apply List.mem_map_of_mem
      exact List.mem_filter.mpr ⟨hc, decide_eq_true hvolume⟩
  . intro period hperiod i r hr
    obtain ⟨v, hv, rfl⟩ := List.mem_map.mp (mem_readings_take_of_readingAt? hr)
    have hnonneg := Average.weighted_mem (convex_Ici 0) hperiod nonneg_of_mem_trueRanges hv
    refine ⟨v, rfl, hnonneg, between_of_forall ?_⟩
    intro lo hi hbounds
    exact Average.weighted_mem (convex_Icc lo hi) hperiod hbounds hv

namespace Indicator

section Sample

attribute [local instance] exactRoots

def thinCandles : List (Candle ℚ) :=
  [(0, 9, 10, 12, 0), (60, 10, 12, 13, 2), (120, 8, 9, 12, 1)].map
    fun (seconds, low, close, high, volume) =>
      { time := { seconds }, openPrice := close, high, low, close, volume }

theorem averages_in_range_thin :
    Simulation.validateCandles "BTC" thinCandles = .ok () ∧
    (∃ v, ((Indicator.sma 2).compute thinCandles).readingAt? 2 = some (.simple v) ∧
      v = 21 / 2 ∧ Between (closes (trailing 2 thinCandles 2)) v) ∧
    (∃ upper middle lower, ((Indicator.bollinger 2 2).compute thinCandles).readingAt? 2 =
        some (.bollinger upper middle lower) ∧
      Between (closes (trailing 2 thinCandles 2)) middle ∧ lower ≤ middle ∧ middle ≤ upper) ∧
    (∃ v, ((Indicator.ema 2).compute thinCandles).readingAt? 2 = some (.simple v) ∧
      v = 29 / 3 ∧ Between (closes (thinCandles.take 3)) v) ∧
    (∃ v, (Indicator.vwap.compute thinCandles).readingAt? 2 = some (.simple v) ∧
      v = 11 ∧ Between (((thinCandles.take 3).filter (·.volume ≠ 0)).map typicalPrice) v) ∧
    ∃ v, ((Indicator.atr 2).compute thinCandles).readingAt? 2 = some (.simple v) ∧
      v = 7 / 2 ∧ 0 ≤ v ∧ Between (trueRanges (thinCandles.take 3)) v := by
  have hvalid : Simulation.validateCandles "BTC" thinCandles = .ok () := by
    rfl
  have hplain : (((Indicator.sma 2).compute thinCandles).readingAt? 2).map (·.output? none) =
      some (some (21 / 2)) := by
    decide +kernel
  have hbands : (((Indicator.bollinger 2 2).compute thinCandles).readingAt? 2).map
      (·.output? (some "upper")) = some (some (27 / 2)) := by
    decide +kernel
  have hexponential : (((Indicator.ema 2).compute thinCandles).readingAt? 2).map
      (·.output? none) = some (some (29 / 3)) := by
    decide +kernel
  have hvolume : ((Indicator.vwap.compute thinCandles).readingAt? 2).map
      (·.output? none) = some (some 11) := by
    decide +kernel
  have hranges : (((Indicator.atr 2).compute thinCandles).readingAt? 2).map
      (·.output? none) = some (some (7 / 2)) := by
    decide +kernel
  obtain ⟨hsma, hbollinger, hema, hvwap, hatr⟩ := averages_in_range hvalid
  refine ⟨hvalid, ?_, ?_, ?_, ?_, ?_⟩
  . obtain ⟨r, hr, hv⟩ := Option.map_eq_some_iff.mp hplain
    obtain ⟨v, rfl, hbetween⟩ := hsma 2 (by decide) 2 r hr
    exact ⟨v, hr, Option.some.inj hv, hbetween⟩
  . obtain ⟨r, hr, _⟩ := Option.map_eq_some_iff.mp hbands
    obtain ⟨upper, middle, lower, rfl, hbetween, hordered⟩ := hbollinger 2 2 (by decide) 2 r hr
    exact ⟨upper, middle, lower, hr, hbetween, hordered (by decide) Rat.sqrt_nonneg⟩
  . obtain ⟨r, hr, hv⟩ := Option.map_eq_some_iff.mp hexponential
    obtain ⟨v, rfl, hbetween⟩ := hema 2 (by decide) 2 r hr
    exact ⟨v, hr, Option.some.inj hv, hbetween⟩
  . obtain ⟨r, hr, hv⟩ := Option.map_eq_some_iff.mp hvolume
    obtain ⟨v, rfl, hbetween⟩ := hvwap 2 r hr
    exact ⟨v, hr, Option.some.inj hv, hbetween⟩
  . obtain ⟨r, hr, hv⟩ := Option.map_eq_some_iff.mp hranges
    obtain ⟨v, rfl, hnonneg, hbetween⟩ := hatr 2 (by decide) 2 r hr
    exact ⟨v, hr, Option.some.inj hv, hnonneg, hbetween⟩

end Sample

end Indicator
end StrategyDesk
