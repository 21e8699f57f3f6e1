import StrategyDesk.Proofs.Backtest.Lookahead
import StrategyDesk.Proofs.Indicator.WarmUp
import StrategyDesk.Signal

/-!
This module contains why it is enough for a live strategy to look at recent candles. If its indicators
see no more than a window of candles, they say the same whether or not there were candles before, and
the strategy enters live where it enters in a replay of all candles.
-/

namespace StrategyDesk

/-! ## Indicators that see a window -/

namespace Average

variable {β : Type}

theorem windows_drop (p m : Nat) (xs : List β) : windows p (xs.drop m) = (windows p xs).drop m := by
  induction xs generalizing m with
  | nil => simp [windows]
  | cons x xs ih =>
    cases m with
    | zero => rfl
    | succ m =>
      rw [List.drop_succ_cons, ih]
      by_cases hp : p = 0 ∨ xs.length + 1 < p
      . have hxs : windows p xs = [] := by
          apply windows_of_length_lt
          omega
        have hcons : windows p (x :: xs) = [] := by
          apply windows_of_length_lt
          rw [List.length_cons]
          exact hp
        rw [hxs, hcons, List.drop_nil, List.drop_nil]
      . rw [windows_cons (by omega) (by omega), List.drop_succ_cons]

theorem plain_drop {α : Type} [Arithmetic α] (p m : Nat) (xs : List α) :
    plain p (xs.drop m) = (plain p xs).drop m := by
  unfold plain
  rw [windows_drop, List.map_drop]

end Average

variable {α : Type} [Arithmetic α]

omit [Arithmetic α] in
theorem Candle.closes_drop (m : Nat) (cs : List (Candle α)) :
    closes (cs.drop m) = (closes cs).drop m :=
  List.map_drop

namespace Indicator

/-- Whether the value at a candle comes from as many candles as the first value needs. -/
def seesWindow : Indicator α → Bool
  | .sma _ | .bollinger _ _ | .stochastic _ _ => true
  | _ => false

variable {ind : Indicator α}

omit [Arithmetic α] in
theorem ne_vwap_of_seesWindow (h : ind.seesWindow = true) : ind ≠ .vwap := by
  rintro rfl
  cases h

theorem stochasticReadings_drop (kPeriod dPeriod m : Nat) (cs : List (Candle α)) :
    stochasticReadings kPeriod dPeriod (cs.drop m) =
      (stochasticReadings kPeriod dPeriod cs).drop m := by
  unfold stochasticReadings
  rw [Average.windows_drop, List.map_drop]
  dsimp only
  rw [Average.plain_drop, List.drop_zipWith, List.drop_drop, List.drop_drop, Nat.add_comm]

theorem readings_drop (h : ind.seesWindow = true) (m : Nat) (cs : List (Candle α)) :
    ind.readings (cs.drop m) = (ind.readings cs).drop m := by
  cases ind with
  | sma period =>
    simp only [readings, Candle.closes_drop, Average.plain_drop, List.map_drop]
  | bollinger period k =>
    simp only [readings, Candle.closes_drop, Average.windows_drop, List.map_drop]
  | stochastic kPeriod dPeriod => exact stochasticReadings_drop kPeriod dPeriod m cs
  | _ => cases h

theorem readingAt?_drop {m i : Nat} {cs : List (Candle α)} (h : ind.seesWindow = true)
    (hvalid : ind.validate = .ok ()) (hmin : ind.minCandles ≤ i + 1) (hi : i < (cs.drop m).length) :
    (ind.compute (cs.drop m)).readingAt? i = (ind.compute cs).readingAt? (i + m) := by
  have hvwap := ne_vwap_of_seesWindow h
  have hperiods := hasPeriods_of_validate hvalid
  have hlength : (cs.drop m).length = cs.length - m := List.length_drop
  rw [readingAt?_compute hperiods hvwap hi, readingAt?_compute hperiods hvwap (by omega),
    if_pos hmin, if_pos (by omega), readings_drop h, List.getElem?_drop]
  congr 1
  omega

end Indicator

/-! ## Rules -/

section Rules

variable {cfg : Config α} {cs : List (Candle α)} {m i : Nat}

structure Config.SeesWindow (cfg : Config α) : Prop where
  valid : cfg.validate = .ok ()
  indicators : ∀ ki ∈ cfg.indicators, ki.indicator.seesWindow = true

theorem SeriesSet.value?_drop (h : cfg.SeesWindow) (hrequired : cfg.requiredCandles ≤ i + 1)
    (hi : i < (cs.drop m).length) (field : String) :
    (compute cfg.indicators (cs.drop m)).value? field i =
      (compute cfg.indicators cs).value? field (i + m) := by
  unfold value?
  dsimp only
  rw [get?_compute, get?_compute]
  cases hfind : cfg.indicators.reverse.find? fun ki => (FieldRef.ofText field).key == ki.key with
  | none => rfl
  | some ki =>
    have hki : ki ∈ cfg.indicators := List.mem_reverse.mp (List.mem_of_find?_eq_some hfind)
    have hmin := Config.minCandles_le_requiredCandles hki
    have hreading := Indicator.readingAt?_drop (h.indicators ki hki)
      (Config.validate_indicator h.valid hki) (by omega) hi
    simp only [Option.map_some, Option.bind_eq_bind, Option.bind_some, hreading]

theorem Rule.holdsAt_drop (h : cfg.SeesWindow) (hrequired : cfg.requiredCandles ≤ i)
    (hi : i < (cs.drop m).length) (r : Rule α) :
    r.holdsAt (.compute cfg.indicators (cs.drop m)) i =
      r.holdsAt (.compute cfg.indicators cs) (i + m) := by
  have hpos := Config.requiredCandles_pos cfg
  obtain ⟨before, rfl⟩ : ∃ before, i = before + 1 := ⟨i - 1, by omega⟩
  have hplace : before + 1 + m = before + m + 1 := by omega
  unfold holdsAt
  rw [SeriesSet.value?_drop h (by omega) hi, hplace]
  dsimp only
  rw [SeriesSet.value?_drop h hrequired (by omega)]

theorem RuleSet.entersAt_drop (h : cfg.SeesWindow) (hrequired : cfg.requiredCandles ≤ i)
    (hi : i < (cs.drop m).length) (rs : RuleSet α) :
    rs.entersAt (.compute cfg.indicators (cs.drop m)) i =
      rs.entersAt (.compute cfg.indicators cs) (i + m) := by
  unfold entersAt
  simp only [Rule.holdsAt_drop h hrequired hi]

theorem RuleSet.exitsAt_drop (h : cfg.SeesWindow) (hrequired : cfg.requiredCandles ≤ i)
    (hi : i < (cs.drop m).length) (rs : RuleSet α) :
    rs.exitsAt (.compute cfg.indicators (cs.drop m)) i =
      rs.exitsAt (.compute cfg.indicators cs) (i + m) := by
  unfold exitsAt
  simp only [Rule.holdsAt_drop h hrequired hi]

end Rules

/-! ## Entries -/

namespace Simulation

theorem complaint?_of_eq_none {c : Candle α} {place place' : String}
    {previous previous' : Option Instant} (hprevious : previous' = previous ∨ previous' = none)
    (h : c.complaint? place previous = none) : c.complaint? place' previous' = none := by
  unfold Candle.complaint? at h ⊢
  split at h
  . cases h
  . next hvolume =>
    rw [if_neg hvolume]
    split at h
    . cases h
    . next hclose =>
      rw [if_neg hclose]
      rcases hprevious with rfl | rfl
      . cases previous' with
        | none => rfl
        | some before =>
          dsimp only at h ⊢
          split at h
          . cases h
          . next hlater => rw [if_neg hlater]
      . rfl

theorem checkCandles_of_eq_ok {symbol : String} {index index' : Nat}
    {previous previous' : Option Instant} {cs : List (Candle α)}
    (hprevious : previous' = previous ∨ previous' = none)
    (h : checkCandles symbol index previous cs = .ok ()) :
    checkCandles symbol index' previous' cs = .ok () := by
  induction cs generalizing index index' previous previous' with
  | nil => rfl
  | cons c cs ih =>
    unfold checkCandles at h ⊢
    split at h
    . cases h
    . next hnone =>
      rw [complaint?_of_eq_none hprevious hnone]
      exact ih (.inl rfl) h

theorem validateCandles_drop {symbol : String} {cs : List (Candle α)}
    (h : validateCandles symbol cs = .ok ()) (m : Nat) :
    validateCandles symbol (cs.drop m) = .ok () := by
  induction cs generalizing m with
  | nil =>
    rw [List.drop_nil]
    exact h
  | cons c cs ih =>
    cases m with
    | zero => exact h
    | succ m =>
      apply ih
      unfold validateCandles checkCandles at h
      split at h
      . cases h
      . exact checkCandles_of_eq_ok (.inr rfl) h

theorem isSome_step {cfg : Config α} {symbol : String} {set : SeriesSet α} {i : Nat} {c : Candle α}
    {acct : Account α} (hstake : ¬ acct.stake cfg.risk ≤ 0) :
    (step cfg symbol set i c (acct, none)).2.isSome = cfg.rules.entersAt set i := by
  rw [held_step hstake]
  cases cfg.rules.entersAt set i with
  | true => rfl
  | false => rfl

end Simulation

theorem Signal.latest_of_validateCandles {id symbol : String} {cfg : Config α}
    {cs : List (Candle α)} {last : Candle α} {now : Instant}
    (hcs : Simulation.validateCandles symbol cs = .ok ()) (hlast : cs.getLast? = some last) :
    latest id cfg symbol cs now =
      .ok (if cfg.requiredCandles ≤ cs.length ∧
          cfg.rules.entersAt (.compute cfg.indicators cs) (cs.length - 1) = true then
        some (.entry id symbol cfg.risk last.close now) else none) := by
  unfold latest
  rw [hcs, hlast]
  simp only [bind, Except.bind]
  split
  . next hshort =>
    rw [if_neg fun h => absurd h.1 (Nat.not_le_of_lt hshort)]
    rfl
  . next hlong =>
    split
    . next henters =>
      rw [if_pos ⟨Nat.le_of_not_lt hlong, henters⟩]
      rfl
    . next henters =>
      rw [if_neg fun h => henters h.2]
      rfl

theorem Signal.latest_eq {id symbol : String} {cfg : Config α} {cs : List (Candle α)}
    {last : Candle α} {now : Instant} (hcs : Simulation.validateCandles symbol cs = .ok ())
    (hlast : cs.getLast? = some last) (hrequired : cfg.requiredCandles ≤ cs.length) :
    latest id cfg symbol cs now =
      .ok (if cfg.rules.entersAt (.compute cfg.indicators cs) (cs.length - 1) then
        some (.entry id symbol cfg.risk last.close now) else none) := by
  rw [latest_of_validateCandles hcs hlast]
  simp only [hrequired, true_and]

/--
A strategy whose indicators see a window decides the same on recent candles as on all of them: at each
candle behind the required ones every rule holds or does not hold in both, and so the strategy enters
and leaves at the same candles. At the last candle there is a live signal just where the replay of all
candles opens a position.
-/
theorem RuleSet.holds_in_window {cfg : Config α} (hvalid : cfg.validate = .ok ())
    (hwindow : ∀ ki ∈ cfg.indicators, ki.indicator.seesWindow = true) (history : List (Candle α))
    (m : Nat) (hlength : cfg.requiredCandles + 1 ≤ (history.drop m).length) :
    let recent := history.drop m
    let live := SeriesSet.compute cfg.indicators recent
    let past := SeriesSet.compute cfg.indicators history
    (∀ i, cfg.requiredCandles ≤ i → i < recent.length →
      (∀ r : Rule α, r.holdsAt live i = r.holdsAt past (i + m)) ∧
      cfg.rules.entersAt live i = cfg.rules.entersAt past (i + m) ∧
      cfg.rules.exitsAt live i = cfg.rules.exitsAt past (i + m)) ∧
    ∀ symbol, Simulation.validateCandles symbol history = .ok () →
      ∃ last, history.getLast? = some last ∧
        ∀ (id : String) (now : Instant) (acct : Simulation.Account α),
          ¬ acct.stake cfg.risk ≤ 0 →
          ∃ signal?, Signal.latest id cfg symbol recent now = .ok signal? ∧
            signal?.isSome = (Simulation.step cfg symbol past (history.length - 1) last
              (acct, none)).2.isSome := by
  intro recent live past
  have h : cfg.SeesWindow := ⟨hvalid, hwindow⟩
  have hlength : cfg.requiredCandles + 1 ≤ recent.length := hlength
  have hdrop : recent.length = history.length - m := List.length_drop
  constructor
  . intro i hrequired hi
    exact ⟨Rule.holdsAt_drop h hrequired hi, RuleSet.entersAt_drop h hrequired hi _,
      RuleSet.exitsAt_drop h hrequired hi _⟩
  . intro symbol hcs
    have hne : history ≠ [] := by
      apply List.ne_nil_of_length_pos
      omega
    refine ⟨history.getLast hne, List.getLast?_eq_some_getLast hne, ?_⟩
    intro id now acct hstake
    have hlast : recent.getLast? = some (history.getLast hne) := by
      rw [List.getLast?_drop, if_neg (by omega), List.getLast?_eq_some_getLast hne]
    refine ⟨_, Signal.latest_eq (Simulation.validateCandles_drop hcs m) hlast (by omega), ?_⟩
    have hbehind : cfg.requiredCandles ≤ recent.length - 1 := by omega
    have hinside : recent.length - 1 < recent.length := by omega
    rw [Simulation.isSome_step hstake, RuleSet.entersAt_drop h hbehind hinside]
    have hplace : recent.length - 1 + m = history.length - 1 := by omega
    rw [hplace]
    cases cfg.rules.entersAt past (history.length - 1) with
    | true => rfl
    | false => rfl

def windowConfig : Config Float where
  name := "Window"
  description := none
  kind := .custom
  symbols := ["BTC"]
  timeframe := .day1
  indicators := [
    { key := "sma", indicator := .sma 2 },
    { key := "bands", indicator := .bollinger 2 2 },
    { key := "stoch", indicator := .stochastic 2 2 }]
  rules := {
    entry := [{ field := "sma", comparison := .crossesAbove, value := 3 }]
    exit := [{ field := "stoch.d", comparison := .less, value := 20 }] }
  risk := { positionSize := 10, maxDrawdown := 50, stopLoss := none, takeProfit := none }

theorem RuleSet.crosses_in_window :
    let history := candlesOfCloses [1, 5, 1, 2, 1, 2, 9]
    (∀ r : Rule Float, r.holdsAt (.compute windowConfig.indicators (history.drop 2)) 4 =
      r.holdsAt (.compute windowConfig.indicators history) 6) ∧
    ∃ signal?, Signal.latest "s-1" windowConfig "BTC" (history.drop 2) { seconds := 0 } =
      .ok signal? ∧ signal?.isSome = true := by
  intro history
  have hindicators : ∀ ki ∈ windowConfig.indicators, ki.indicator.seesWindow = true := by
    simp [windowConfig, Indicator.seesWindow]
  obtain ⟨hrules, hsignals⟩ :=
    RuleSet.holds_in_window (by rfl) hindicators history 2 (by decide)
  constructor
  . exact (hrules 4 (by decide) (by decide)).1
  . have hstake : ¬ (Simulation.Account.start 1000).stake windowConfig.risk ≤ 0 := by
      decide +kernel
    have henters : windowConfig.rules.entersAt (.compute windowConfig.indicators history) 6 =
        true := by
      decide +kernel
    obtain ⟨last, _, hlast⟩ := hsignals "BTC" (by rfl)
    obtain ⟨signal?, hsignal, hisSome⟩ := hlast "s-1" { seconds := 0 } (.start 1000) hstake
    rw [Simulation.isSome_step hstake] at hisSome
    exact ⟨signal?, hsignal, hisSome.trans henters⟩

end StrategyDesk
