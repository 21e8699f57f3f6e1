import Mathlib.Data.Int.Interval
import StrategyDesk.Proofs.Calendar.Progression
import StrategyDesk.Proofs.Calendar.Rfc3339
import StrategyDesk.Proofs.Csv.Loading
import StrategyDesk.Proofs.Live.Entry
import StrategyDesk.Proofs.Live.Floor

/-!
This module contains how many candles the work on a pair goes on with if there is no gap in the
candles of its symbol. They are as many as were wanted, or one more, wherever the present time lies
among them, except that one can be missing in a leap second.
-/

namespace StrategyDesk

theorem Timeframe.seconds_ne_zero (timeframe : Timeframe) : timeframe.seconds ≠ 0 := by
  cases timeframe <;> decide

/-! ## Candles without a gap -/

theorem Candle.complaint?_eq_none_iff {α : Type} [Arithmetic α] {c : Candle α} {place : String} :
    c.complaint? place none = none ↔
      (!Arithmetic.isFinite c.volume || decide (c.volume < 0)) = false ∧
        (!Arithmetic.isFinite c.close || decide (c.close ≤ 0)) = false := by
  unfold complaint?
  dsimp only
  split
  . next hvolume => simp [hvolume]
  . next hvolume =>
    split
    . next hclose => simp [hclose]
    . next hclose => simp [hvolume, hclose]

/-- Candles that follow one another at the distance of a timeframe. None of them is faulty. -/
structure Gapless (timeframe : Timeframe) (candleAt : Int → Candle Float) : Prop where
  progression : IsProgression timeframe.seconds fun k => (candleAt k).time
  valid : ∀ k place, (candleAt k).complaint? place none = none

/-- Whether some candles are just those that begin in a window, and each of them comes once. -/
structure AreWithin (candleAt : Int → Candle Float) (w : Window) (cs : List (Candle Float)) :
    Prop where
  nodup : cs.Nodup
  mem_iff : ∀ c, c ∈ cs ↔ ∃ k, candleAt k = c ∧ w.contains c.time = true

section Supply

variable {timeframe : Timeframe} {candleAt : Int → Candle Float} {w : Window}
  {cs : List (Candle Float)}

theorem Gapless.injective (h : Gapless timeframe candleAt) : Function.Injective candleAt := by
  intro k l hkl
  have hstep := timeframe.seconds_ne_zero
  have hk := h.progression.apply_eq hstep k
  have hl := h.progression.apply_eq hstep l
  dsimp only at hk hl
  rw [hkl, hl, Instant.mk.injEq] at hk
  have hmul : (timeframe.seconds : Int) * l = timeframe.seconds * k := by omega
  exact (Int.eq_of_mul_eq_mul_left (by omega) hmul).symm

theorem AreWithin.length_eq (hcs : AreWithin candleAt w cs) (h : Gapless timeframe candleAt)
    {first last : Int}
    (hplaces : ∀ k, w.contains (candleAt k).time = true ↔ first < k ∧ k ≤ last) :
    cs.length = (last - first).toNat := by
  have hperm : cs.Perm ((Finset.Ioc first last).toList.map candleAt) := by
    rw [List.perm_ext_iff_of_nodup hcs.nodup ((Finset.nodup_toList _).map h.injective)]
    intro c
    rw [hcs.mem_iff, List.mem_map]
    constructor
    . rintro ⟨k, rfl, hk⟩
      exact ⟨k, by simpa using (hplaces k).mp hk, rfl⟩
    . rintro ⟨k, hk, rfl⟩
      exact ⟨k, rfl, (hplaces k).mpr (by simpa using hk)⟩
  rw [hperm.length_eq, List.length_map, Finset.length_toList, Int.card_Ioc]

theorem Gapless.areWithin (h : Gapless timeframe candleAt) {first : Int} {n : Nat}
    (hplaces : ∀ k, w.contains (candleAt k).time = true ↔ first < k ∧ k ≤ first + n) :
    AreWithin candleAt w ((List.range n).map fun i : Nat => candleAt (first + 1 + i)) where
  nodup := by
    apply List.nodup_range.map
    intro i j hij
    have hplace := h.injective hij
    omega
  mem_iff := by
    intro c
    rw [List.mem_map]
    constructor
    . rintro ⟨i, hi, rfl⟩
      rw [List.mem_range] at hi
      exact ⟨_, rfl, (hplaces _).mpr (by omega)⟩
    . rintro ⟨k, rfl, hk⟩
      have hbounds := (hplaces k).mp hk
      refine ⟨(k - first - 1).toNat, ?_, ?_⟩
      . rw [List.mem_range]
        omega
      . congr 1
        omega

theorem AreWithin.validateCandles_eq_ok (hcs : AreWithin candleAt w cs)
    (h : Gapless timeframe candleAt) (hordered : cs.Pairwise fun c d => c.time < d.time)
    (symbol : String) : Simulation.validateCandles symbol cs = .ok () := by
  cases hvalidate : Simulation.validateCandles symbol cs with
  | ok u => rfl
  | error f =>
    obtain ⟨i, c, reason, hc, hreason, _⟩ :=
      Csv.exists_complaint_of_checkCandles hordered (by rintro t ⟨⟩) hvalidate
    obtain ⟨k, rfl, _⟩ := (hcs.mem_iff c).mp (List.mem_of_getElem? hc)
    rw [h.valid k] at hreason
    cases hreason

end Supply

/-! ## Enough candles -/

section Enough

variable {α : Type} [Arithmetic α] {cfg : Config α}

omit [Arithmetic α] in
theorem Indicator.greatestSum_le (ind : Indicator α) : ind.greatestSum ≤ ind.minCandles + 1 := by
  unfold greatestSum minCandles
  cases ind <;> dsimp only <;> omega

omit [Arithmetic α] in
theorem Counted.requiredCandles_of_lt (h : cfg.requiredCandles < maxCount) :
    requiredCandles cfg = .ok cfg.requiredCandles := by
  rw [requiredCandles_eq_ok_iff]
  refine ⟨?_, rfl⟩
  intro ki hki
  have hsum := Indicator.greatestSum_le ki.indicator
  have hmin := Config.minCandles_le_requiredCandles hki
  omega

theorem Signal.exists_latest_eq {cs : List (Candle α)} (h : cfg.requiredCandles ≤ cs.length)
    (id symbol : String) (now : Instant) :
    ∃ last, cs.getLast? = some last ∧
      latest id cfg symbol cs now = (Simulation.validateCandles symbol cs).map fun _ =>
        if cfg.rules.entersAt (.compute cfg.indicators cs) (cs.length - 1) then
          some (.entry id symbol cfg.risk last.close now) else none := by
  have hpos := Config.requiredCandles_pos cfg
  have hne : cs ≠ [] := List.ne_nil_of_length_pos (by omega)
  refine ⟨cs.getLast hne, List.getLast?_eq_some_getLast hne, ?_⟩
  cases hvalidate : Simulation.validateCandles symbol cs with
  | error f =>
    unfold latest
    rw [hvalidate]
    rfl
  | ok u => exact latest_eq hvalidate (List.getLast?_eq_some_getLast hne) h

end Enough

namespace Live
namespace Pair

variable {p : Pair} {settings : LiveSettings} {now : Instant} {candleAt : Int → Candle Float}
  {cs : List (Candle Float)}

theorem bars_of_le (h : p.wanted settings ≤ maxBars) : p.bars settings = p.wanted settings :=
  Nat.min_eq_left h

theorem wanted_ne_zero (p : Pair) (settings : LiveSettings) : p.wanted settings ≠ 0 := by
  have hpos := Config.requiredCandles_pos p.strategy.config
  unfold wanted
  omega

theorem window_request (h : p.wanted settings ≤ maxBars) :
    (p.request settings now).window =
      { first := now.before (p.strategy.config.timeframe.seconds * p.wanted settings)
        last := now } := by
  unfold request windowStart
  rw [bars_of_le h]

theorem countWanted_of_le (h : p.wanted settings ≤ maxBars) :
    p.countWanted settings = .ok (p.wanted settings) := by
  have hmax : maxBars < maxCount := by decide
  unfold wanted at h
  unfold countWanted
  rw [Counted.requiredCandles_of_lt (by omega)]
  exact Count.add_of_le (by omega)

theorem isReachable_of_le (h : p.wanted settings ≤ maxBars)
    (hstart : (now.before (p.strategy.config.timeframe.seconds * p.wanted settings)).inCalendar =
      true) : p.isReachable settings now = true := by
  unfold isReachable windowStart
  rw [countWanted_of_le h, bars_of_le h, hstart]
  rfl

section Supplied

variable (hbars : p.wanted settings ≤ maxBars)
  (hgapless : Gapless p.strategy.config.timeframe candleAt)
  (hcs : AreWithin candleAt (p.request settings now).window cs)

include hbars hgapless hcs

theorem exists_length_eq :
    ∃ reached passed, LiesAt now (fun k => (candleAt k).time) reached passed ∧
      cs.length = (p.wanted settings + reached - passed).toNat := by
  have hstep := Timeframe.seconds_ne_zero p.strategy.config.timeframe
  obtain ⟨reached, passed, hlies⟩ := hgapless.progression.exists_liesAt hstep now
  refine ⟨reached, passed, hlies, ?_⟩
  rw [window_request hbars] at hcs
  rw [hcs.length_eq hgapless
    (hlies.contains_iff hgapless.progression hstep (wanted_ne_zero p settings))]
  congr 1
  omega

theorem length_of_mem (hmem : ∃ k, (candleAt k).time = now) :
    cs.length = p.wanted settings + 1 := by
  obtain ⟨reached, passed, hlies, hlength⟩ := exists_length_eq hbars hgapless hcs
  obtain ⟨k, hk⟩ := hmem
  have hplace := hlies.eq_of_mem hgapless.progression (Timeframe.seconds_ne_zero _) hk
  omega

theorem length_of_skips (hnow : now.nanos < 2000000000)
    (hskips : now.Skips fun k => (candleAt k).time) : cs.length + 1 = p.wanted settings := by
  obtain ⟨reached, passed, hlies, hlength⟩ := exists_length_eq hbars hgapless hcs
  have hplace := hlies.eq_of_skips hgapless.progression (Timeframe.seconds_ne_zero _) hnow hskips
  have hwanted := wanted_ne_zero p settings
  omega

theorem length_of_not_skips (hmem : ¬∃ k, (candleAt k).time = now)
    (hskips : ¬now.Skips fun k => (candleAt k).time) : cs.length = p.wanted settings := by
  obtain ⟨reached, passed, hlies, hlength⟩ := exists_length_eq hbars hgapless hcs
  have hplace := hlies.eq_of_not_skips (fun k hk => hmem ⟨k, hk⟩) hskips
  omega

end Supplied

/--
The work on a pair is never short of candles, leap seconds apart. Let the candles of its symbol
follow one another without a gap, and let the source give just those in the window that it is asked
for. Then the work goes on with as many candles as were wanted, and with one more if one of them
begins at the present time. In a leap second one is missing if it begins in the second after, but
not so far in it as the present time is in the leap second. So it is left to the rules whether there
is a signal, unless that happens and nothing was wanted beyond what the indicators need.
-/
theorem supplied_of_gapless {p : Pair} {settings : LiveSettings} {now : Instant}
    (hnow : now.nanos < 2000000000) (hbars : p.wanted settings ≤ maxBars)
    (hstart : (now.before (p.strategy.config.timeframe.seconds * p.wanted settings)).inCalendar =
      true)
    {candleAt : Int → Candle Float} (hgapless : Gapless p.strategy.config.timeframe candleAt)
    {replies : Host Id} {cs : List (Candle Float)}
    (hreply : replies (.fetch (p.request settings now)) = .ok cs)
    (hcs : AreWithin candleAt (p.request settings now).window cs) :
    let cfg := p.strategy.config
    let bars := cfg.requiredCandles + settings.warmupBuffer
    let times := fun k => (candleAt k).time
    (p.request settings now).window =
      { first := now.before (cfg.timeframe.seconds * bars), last := now } ∧
    (p.work settings now).run.step replies = (p.react cs now).run ∧
    (now.nanos < 1000000000 → cs.length = bars ∨ cs.length = bars + 1) ∧
    ((∃ k, times k = now) → cs.length = bars + 1) ∧
    (now.Skips times → cs.length + 1 = bars) ∧
    ((¬∃ k, times k = now) → ¬now.Skips times → cs.length = bars) ∧
    (cs.length < cfg.requiredCandles ↔ settings.warmupBuffer = 0 ∧ now.Skips times) ∧
    (cfg.requiredCandles ≤ cs.length → ∃ last, cs.getLast? = some last ∧
      p.latest now cs = (Simulation.validateCandles p.symbol cs).map fun _ =>
        if cfg.rules.entersAt (.compute cfg.indicators cs) (cs.length - 1) then
          some (.entry p.strategy.id p.symbol cfg.risk last.close now) else none) ∧
    (cs.Pairwise (fun c d => c.time < d.time) →
      Simulation.validateCandles p.symbol cs = .ok ()) ∧
    (cfg.validate = .ok () →
      Counted.latest p.strategy.id cfg p.symbol cs now = .ok (p.latest now cs)) := by
  intro cfg bars times
  have honTime : (∃ k, times k = now) → cs.length = bars + 1 :=
    length_of_mem hbars hgapless hcs
  have hmissing : now.Skips times → cs.length + 1 = bars :=
    length_of_skips hbars hgapless hcs hnow
  have hotherwise : (¬∃ k, times k = now) → ¬now.Skips times → cs.length = bars :=
    length_of_not_skips hbars hgapless hcs
  have hplain : ¬now.Skips times → cs.length = bars ∨ cs.length = bars + 1 := by
    intro hskips
    by_cases hmem : ∃ k, times k = now
    . exact .inr (honTime hmem)
    . exact .inl (hotherwise hmem hskips)
  have hshort : cs.length < cfg.requiredCandles ↔
      settings.warmupBuffer = 0 ∧ now.Skips times := by
    by_cases hskips : now.Skips times
    . have hlength := hmissing hskips
      rw [and_iff_left hskips]
      omega
    . have hlength := hplain hskips
      have hnotShort : ¬cs.length < cfg.requiredCandles := by omega
      exact iff_of_false hnotShort fun h => hskips h.2
  have hlength : cs.length ≤ bars + 1 := by
    by_cases hskips : now.Skips times
    . have hlength := hmissing hskips
      omega
    . have hlength := hplain hskips
      omega
  refine ⟨window_request hbars, ?_, fun h => hplain (Instant.not_skips h), honTime, hmissing,
    hotherwise, hshort, fun h => Signal.exists_latest_eq h _ _ _,
    fun h => hcs.validateCandles_eq_ok hgapless h p.symbol, ?_⟩
  . rw [work_of_isReachable (isReachable_of_le hbars hstart)]
    show afterCandles p now (replies (.fetch (p.request settings now))) = _
    rw [hreply]
    rfl
  . intro hvalid
    have hmax : bars + 1 < maxCount :=
      Nat.lt_of_le_of_lt (Nat.add_le_add_right hbars 1) (by decide)
    have hrequired : Counted.requiredCandles cfg = .ok cfg.requiredCandles :=
      Counted.requiredCandles_of_lt (by omega)
    exact Counted.latest_of_requiredCandles hvalid (by omega) hrequired

def hourlyAt (k : Int) : Candle Float where
  time := { seconds := 1483228800 + 3600 * k }
  openPrice := 110
  high := 110
  low := 110
  close := 110
  volume := 1

def hourlyPair : Pair where
  strategy := { Floor.trading "s-1" .active ["BTC"] with
    config := { crossingConfig ["BTC"] with
      timeframe := .hour1, indicators := [{ key := "sma", indicator := .sma 3 }] } }
  symbol := "BTC"

def endOfYear : Instant where
  seconds := 1483228799
  nanos := 1500000000

theorem gapless_hourlyAt : Gapless .hour1 hourlyAt where
  progression := by
    intro k
    have hnanos : (hourlyAt (k + 1)).time.nanos < 1000000000 := Nat.zero_lt_succ _
    rw [Instant.before_eq (by decide), Instant.settled_of_lt hnanos]
    simp only [hourlyAt, Timeframe.seconds, Instant.mk.injEq, and_true]
    omega
  valid := by
    intro k place
    have hfirst : (hourlyAt 0).complaint? place none = none := by
      rw [Candle.complaint?_eq_none_iff]
      decide +kernel
    have hvolume : (hourlyAt k).volume = (hourlyAt 0).volume := rfl
    have hclose : (hourlyAt k).close = (hourlyAt 0).close := rfl
    rw [Candle.complaint?_eq_none_iff] at hfirst ⊢
    rw [hvolume, hclose]
    exact hfirst

theorem skips_endOfYear : endOfYear.Skips fun k => (hourlyAt k).time :=
  ⟨0, by decide, by decide⟩

theorem areWithin_hourly {bars : Nat} (hbars : bars ≠ 0) :
    AreWithin hourlyAt { first := endOfYear.before (3600 * bars), last := endOfYear }
      ((List.range (bars - 1)).map fun i : Nat => hourlyAt (-bars + 1 + i)) := by
  apply gapless_hourlyAt.areWithin
  intro k
  rw [Instant.before_eq (by omega)]
  simp only [Window.contains, Instant.le_def, Instant.settled, endOfYear, hourlyAt,
    Bool.and_eq_true, decide_eq_true_eq]
  omega

theorem supplied_of_hourly :
    let settings : LiveSettings := { warmupBuffer := 1 }
    let cs := (List.range 3).map fun i : Nat => hourlyAt (-4 + 1 + i)
    endOfYear.nanos < 2000000000 ∧ hourlyPair.wanted settings = 4 ∧
    (endOfYear.before (3600 * 4)).inCalendar = true ∧ Gapless .hour1 hourlyAt ∧
    AreWithin hourlyAt (hourlyPair.request settings endOfYear).window cs ∧
    endOfYear.Skips (fun k => (hourlyAt k).time) ∧
    (hourlyPair.work settings endOfYear).run.step (Floor.supplying (.ok cs)) =
      (hourlyPair.react cs endOfYear).run ∧
    cs.length + 1 = hourlyPair.wanted settings ∧
    ∃ signal, hourlyPair.latest endOfYear cs = .ok (some signal) := by
  intro settings cs
  have hcs : AreWithin hourlyAt (hourlyPair.request settings endOfYear).window cs :=
    areWithin_hourly (by decide)
  have hordered : cs.Pairwise fun c d => c.time < d.time := by decide
  have henters : hourlyPair.strategy.config.rules.entersAt
      (.compute hourlyPair.strategy.config.indicators cs) (cs.length - 1) = true := by
    decide +kernel
  have hreply :
      Floor.supplying (.ok cs) (.fetch (hourlyPair.request settings endOfYear)) = .ok cs := rfl
  have hnow : endOfYear.nanos < 2000000000 := by decide
  have hbars : hourlyPair.wanted settings ≤ maxBars := by decide
  obtain ⟨_, hwork, _, _, hmissing, _, _, hlatest, hvalid, _⟩ :=
    supplied_of_gapless hnow hbars (by decide) gapless_hourlyAt hreply hcs
  obtain ⟨last, _, hlatest⟩ := hlatest (by decide)
  rw [hvalid hordered, if_pos henters] at hlatest
  exact ⟨hnow, rfl, by decide, gapless_hourlyAt, hcs, skips_endOfYear, hwork,
    hmissing skips_endOfYear, _, hlatest⟩

/--
Without the spare candle it goes on with two, although three are wanted and there is no gap. That is
too few, so there is no signal.
-/
theorem short_in_leap_second :
    let settings : LiveSettings := { warmupBuffer := 0 }
    let cs := (List.range 2).map fun i : Nat => hourlyAt (-3 + 1 + i)
    hourlyPair.strategy.config.validate = .ok () ∧ endOfYear.IsProper ∧
    hourlyPair.wanted settings = 3 ∧ 3 ≤ maxBars ∧
    (endOfYear.before (3600 * 3)).inCalendar = true ∧ Gapless .hour1 hourlyAt ∧
    AreWithin hourlyAt (hourlyPair.request settings endOfYear).window cs ∧
    cs.Pairwise (fun c d => c.time < d.time) ∧
    (hourlyPair.work settings endOfYear).run.step (Floor.supplying (.ok cs)) =
      (hourlyPair.react cs endOfYear).run ∧
    ¬(cs.length = 3 ∨ cs.length = 3 + 1) ∧
    cs.length < hourlyPair.strategy.config.requiredCandles ∧
    hourlyPair.latest endOfYear cs = .ok none := by
  intro settings cs
  have hcs : AreWithin hourlyAt (hourlyPair.request settings endOfYear).window cs :=
    areWithin_hourly (by decide)
  have hreachable : hourlyPair.isReachable settings endOfYear = true :=
    isReachable_of_le (by decide) (by decide)
  refine ⟨rfl, ⟨by decide, by decide, by decide⟩, rfl, by decide, by decide, gapless_hourlyAt,
    hcs, by decide, ?_, by decide, by decide, rfl⟩
  rw [work_of_isReachable hreachable]
  rfl

end Pair
end Live
end StrategyDesk
