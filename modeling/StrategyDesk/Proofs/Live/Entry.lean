import StrategyDesk.Proofs.Indicator.Counting
import StrategyDesk.Proofs.Live.Window

/-!
This module contains why a live signal is an entry of the replay. On the same candles the two decide
alike at the last one, and the signal names the prices of the position that the replay opens there.
-/

namespace StrategyDesk

theorem ne_nil_of_getLast? {β : Type} {xs : List β} {x : β} (h : xs.getLast? = some x) : xs ≠ [] := by
  rintro rfl
  cases h

variable {α : Type} [Arithmetic α]

namespace Simulation

section LastCandle

variable {cfg : Config α} {symbol : String} {cs : List (Candle α)} {last : Candle α}
  {acct : Account α} {start : State α}

/-- What the last candle makes of an account with no position at hand. -/
def lastStep (cfg : Config α) (symbol : String) (cs : List (Candle α)) (acct : Account α) : State α :=
  replay cfg symbol (.compute cfg.indicators cs) (cs.length - 1) (acct, none)
    (cs.drop (cs.length - 1))

theorem replay_eq_lastStep
    (h : replay cfg symbol (.compute cfg.indicators cs) 0 start cs.dropLast = (acct, none)) :
    replay cfg symbol (.compute cfg.indicators cs) 0 start cs = lastStep cfg symbol cs acct := by
  unfold lastStep
  have hsplit : cs = cs.dropLast ++ cs.drop (cs.length - 1) := by
    rw [List.dropLast_eq_take, List.take_append_drop]
  generalize SeriesSet.compute cfg.indicators cs = set at h ⊢
  conv => lhs; rw [hsplit]
  rw [replay_concat, h, List.length_dropLast, Nat.zero_add]

theorem lastStep_of_getLast? (hlast : cs.getLast? = some last) :
    lastStep cfg symbol cs acct =
      step cfg symbol (.compute cfg.indicators cs) (cs.length - 1) last (acct, none) := by
  have hpos := List.length_pos_iff.mpr (ne_nil_of_getLast? hlast)
  rw [List.getLast?_eq_getElem?] at hlast
  unfold lastStep
  rw [replay_of_step hlast, List.drop_eq_nil_of_le (by omega)]
  rfl

theorem held_lastStep (hlast : cs.getLast? = some last) (hstake : ¬ acct.stake cfg.risk ≤ 0) :
    (lastStep cfg symbol cs acct).2 =
      if cfg.rules.entersAt (.compute cfg.indicators cs) (cs.length - 1) = true then
        some (holdingAt cfg.risk symbol (acct.stake cfg.risk) last) else none := by
  rw [lastStep_of_getLast? hlast, held_step hstake]

end LastCandle

end Simulation

namespace Counted

section Latest

variable {id symbol : String} {cfg : Config α} {cs : List (Candle α)} {last : Candle α}
  {now : Instant}

theorem latest_of_requiredCandles (hvalid : cfg.validate = .ok ()) (hmax : cs.length ≤ maxCount)
    {n : Nat} (hn : requiredCandles cfg = .ok n) :
    latest id cfg symbol cs now = .ok (Signal.latest id cfg symbol cs now) := by
  obtain ⟨hfits, rfl⟩ := requiredCandles_eq_ok_iff.mp hn
  have hset := computeAll_of_le hvalid hfits hmax
  unfold latest Signal.latest
  rw [hn]
  cases Simulation.validateCandles symbol cs with
  | error f => rfl
  | ok u =>
    cases hlast : cs.getLast? with
    | none => rfl
    | some last =>
      have hpos := List.length_pos_iff.mpr (ne_nil_of_getLast? hlast)
      have hplace := Count.sub_of_le hpos
      simp only [bind, Except.bind, hset, hplace]
      split
      . rfl
      . split
        . rfl
        . rfl

theorem latest_of_error {f : Failure} (h : Simulation.validateCandles symbol cs = .error f) :
    latest id cfg symbol cs now = .ok (.error f) := by
  unfold latest
  rw [h]
  rfl

theorem latest_nil : latest id cfg symbol [] now = .ok (.ok .none) :=
  rfl

theorem latest_eq (hvalid : cfg.validate = .ok ()) (hmax : cs.length ≤ maxCount)
    (hcs : Simulation.validateCandles symbol cs = .ok ()) (hlast : cs.getLast? = some last) :
    latest id cfg symbol cs now = (requiredCandles cfg).map fun n => .ok
      (if n ≤ cs.length ∧
          cfg.rules.entersAt (.compute cfg.indicators cs) (cs.length - 1) = true then
        some (.entry id symbol cfg.risk last.close now) else .none) := by
  cases hrequired : requiredCandles cfg with
  | error fault =>
    unfold latest
    rw [hcs, hlast, hrequired]
    rfl
  | ok n =>
    rw [latest_of_requiredCandles hvalid hmax hrequired,
      Signal.latest_of_validateCandles hcs hlast, (requiredCandles_eq_ok_iff.mp hrequired).2]
    rfl

theorem latest_cases (hvalid : cfg.validate = .ok ()) (hmax : cs.length ≤ maxCount)
    (id symbol : String) (now : Instant) :
    (∃ f, Simulation.validateCandles symbol cs = .error f ∧
      latest id cfg symbol cs now = .ok (.error f)) ∨
    Simulation.validateCandles symbol cs = .ok () ∧
      (cs = [] ∧ latest id cfg symbol cs now = .ok (.ok .none) ∨
      ∃ last, cs.getLast? = some last ∧
        latest id cfg symbol cs now = (requiredCandles cfg).map fun n => .ok
          (if n ≤ cs.length ∧
              cfg.rules.entersAt (.compute cfg.indicators cs) (cs.length - 1) = true then
            some (.entry id symbol cfg.risk last.close now) else .none)) := by
  cases hcs : Simulation.validateCandles symbol cs with
  | error f => exact .inl ⟨f, rfl, latest_of_error hcs⟩
  | ok u =>
    cases hlast : cs.getLast? with
    | none =>
      obtain rfl := List.getLast?_eq_none_iff.mp hlast
      exact .inr ⟨rfl, .inl ⟨rfl, latest_nil⟩⟩
    | some last => exact .inr ⟨rfl, .inr ⟨last, rfl, latest_eq hvalid hmax hcs hlast⟩⟩

theorem latest_eq_error_iff (hvalid : cfg.validate = .ok ()) (hmax : cs.length ≤ maxCount)
    {f : Failure} :
    latest id cfg symbol cs now = .ok (.error f) ↔
      Simulation.validateCandles symbol cs = .error f := by
  rcases latest_cases hvalid hmax id symbol now with
    ⟨f', hcs, hanswer⟩ | ⟨hcs, ⟨_, hanswer⟩ | ⟨last, _, hanswer⟩⟩
  . simp [hanswer, hcs]
  . simp [hanswer, hcs]
  . rw [hanswer, hcs]
    cases requiredCandles cfg with
    | error fault => simp [Except.map]
    | ok n => simp [Except.map]

theorem latest_eq_fault_iff (hvalid : cfg.validate = .ok ()) (hmax : cs.length ≤ maxCount)
    {fault : Fault} :
    latest id cfg symbol cs now = .error fault ↔
      Simulation.validateCandles symbol cs = .ok () ∧ cs ≠ [] ∧
        requiredCandles cfg = .error fault := by
  rcases latest_cases hvalid hmax id symbol now with
    ⟨f, hcs, hanswer⟩ | ⟨hcs, ⟨hnil, hanswer⟩ | ⟨last, hlast, hanswer⟩⟩
  . simp [hanswer, hcs]
  . rw [hanswer]
    simp [hnil]
  . have hne := ne_nil_of_getLast? hlast
    rw [hanswer]
    cases requiredCandles cfg with
    | error fault' => simp [Except.map, hcs, hne]
    | ok n => simp [Except.map]

theorem latest_eq_ok_iff (hvalid : cfg.validate = .ok ()) (hmax : cs.length ≤ maxCount)
    {signal? : Option (Signal α)} :
    latest id cfg symbol cs now = .ok (.ok signal?) ↔
      Simulation.validateCandles symbol cs = .ok () ∧
        (cs = [] ∧ signal? = .none ∨
        ∃ last n, cs.getLast? = some last ∧ requiredCandles cfg = .ok n ∧
          signal? =
            if n ≤ cs.length ∧
                cfg.rules.entersAt (.compute cfg.indicators cs) (cs.length - 1) = true then
              some (.entry id symbol cfg.risk last.close now) else .none) := by
  rcases latest_cases hvalid hmax id symbol now with
    ⟨f, hcs, hanswer⟩ | ⟨hcs, ⟨hnil, hanswer⟩ | ⟨last, hlast, hanswer⟩⟩
  . simp [hanswer, hcs]
  . subst hnil
    rw [hanswer, Except.ok.injEq, Except.ok.injEq]
    constructor
    . intro hnone
      exact ⟨hcs, .inl ⟨rfl, hnone.symm⟩⟩
    . rintro ⟨_, ⟨_, hnone⟩ | ⟨last, _, hlast, _⟩⟩
      . exact hnone.symm
      . cases hlast
  . have hne := ne_nil_of_getLast? hlast
    rw [hanswer]
    cases requiredCandles cfg with
    | error fault => simp [Except.map, hne]
    | ok n =>
      rw [Except.map, Except.ok.injEq, Except.ok.injEq, eq_comm]
      simp [hcs, hne, hlast]

end Latest

end Counted

open Simulation in
/--
The live signal of a strategy is the entry of its replay. No signal is an error unless the candles are
out of order, and there is no answer exactly if there are candles and those that the indicators need
cannot be counted. Otherwise there is a signal just if the candles are enough and a replay that comes
to the last one with no position, and with something to stake, opens one there. The signal names its
prices, and the share of the capital that it costs.
-/
theorem Signal.latest_iff_entry {cfg : Config α} (hvalid : cfg.validate = .ok ())
    {cs : List (Candle α)} (hmax : cs.length ≤ maxCount) (id symbol : String) (now : Instant) :
    let answer := Counted.latest id cfg symbol cs now
    (∀ f, answer = .ok (.error f) ↔ validateCandles symbol cs = .error f) ∧
    (∀ fault, answer = .error fault ↔ validateCandles symbol cs = .ok () ∧ cs ≠ [] ∧
      Counted.requiredCandles cfg = .error fault) ∧
    ∀ signal?, answer = .ok (.ok signal?) →
      ∀ acct : Account α, ¬ acct.stake cfg.risk ≤ 0 →
        (signal?.isSome = true ↔ cs ≠ [] ∧
          (∃ n, Counted.requiredCandles cfg = .ok n ∧ n ≤ cs.length) ∧
          (lastStep cfg symbol cs acct).2.isSome = true) ∧
        (∀ signal, signal? = some signal →
          signal.strategyId = id ∧ signal.symbol = symbol ∧ signal.generatedAt = now ∧
          ∃ held, (lastStep cfg symbol cs acct).2 = some held ∧
            signal.sizing.referencePrice = held.position.entryPrice ∧
            signal.sizing.stopLoss = held.position.stopLoss ∧
            signal.sizing.takeProfit = held.position.takeProfit ∧
            held.notional = acct.capital * signal.sizing.positionSize / 100) ∧
        ∀ start, replay cfg symbol (.compute cfg.indicators cs) 0 start cs.dropLast = (acct, none) →
          replay cfg symbol (.compute cfg.indicators cs) 0 start cs =
            lastStep cfg symbol cs acct := by
  intro answer
  refine ⟨fun f => Counted.latest_eq_error_iff hvalid hmax,
    fun fault => Counted.latest_eq_fault_iff hvalid hmax, ?_⟩
  intro signal? hanswer acct hstake
  obtain ⟨_, hcases⟩ := (Counted.latest_eq_ok_iff hvalid hmax).mp hanswer
  rcases hcases with ⟨rfl, rfl⟩ | ⟨last, n, hlast, hn, rfl⟩
  . exact ⟨by simp, nofun, fun start => replay_eq_lastStep⟩
  . have hne := ne_nil_of_getLast? hlast
    have hheld : (lastStep cfg symbol cs acct).2 = _ := held_lastStep hlast hstake
    refine ⟨?_, ?_, fun start => replay_eq_lastStep⟩
    . simp [hheld, hn, hne]
    . intro signal hsignal
      rw [Option.ite_none_right_eq_some] at hsignal
      obtain ⟨⟨_, henters⟩, hsignal⟩ := hsignal
      injection hsignal with hsignal
      subst hsignal
      rw [hheld, if_pos henters]
      exact ⟨rfl, rfl, rfl, _, rfl, rfl, rfl, rfl, rfl⟩

def guardedConfig : Config Float :=
  { crossingConfig ["BTC"] with
    risk := { positionSize := 10, maxDrawdown := 50, stopLoss := some 5, takeProfit := some 20 } }

open Simulation in
theorem Signal.latest_iff_entry_guarded :
    ∃ signal held, guardedConfig.validate = .ok () ∧
      Counted.latest "s-1" guardedConfig "BTC" (candlesOfCloses [100, 110]) { seconds := 0 } =
        .ok (.ok (some signal)) ∧
      (replay guardedConfig "BTC" (.compute guardedConfig.indicators (candlesOfCloses [100, 110])) 0
        (.start 1000, none) (candlesOfCloses [100, 110])).2 = some held ∧
      signal.sizing.referencePrice = held.position.entryPrice ∧
      signal.sizing.stopLoss = held.position.stopLoss ∧
      signal.sizing.takeProfit = held.position.takeProfit := by
  have hvalid : guardedConfig.validate = .ok () := rfl
  have hmax : (candlesOfCloses [100, 110]).length ≤ maxCount := by decide
  have hstake : ¬ (Account.start 1000).stake guardedConfig.risk ≤ 0 := by decide +kernel
  have henters : guardedConfig.rules.entersAt
      (.compute guardedConfig.indicators (candlesOfCloses [100, 110])) 1 = true := by
    decide +kernel
  have hstays : ¬ Enters guardedConfig
      (.compute guardedConfig.indicators (candlesOfCloses [100, 110])) (Account.start 1000).capital
      0 := by
    rintro ⟨henters, _⟩
    revert henters
    decide +kernel
  have hstart : replay guardedConfig "BTC"
      (.compute guardedConfig.indicators (candlesOfCloses [100, 110])) 0 (.start 1000, none)
      (candlesOfCloses [100, 110]).dropLast = (.start 1000, none) := by
    obtain ⟨first, hfirst⟩ : ∃ first, (candlesOfCloses [100, 110]).dropLast = [first] := ⟨_, rfl⟩
    rw [hfirst, replay, step_of_not_enters hstays, replay]
  obtain ⟨last, hlast⟩ : ∃ last, (candlesOfCloses [100, 110]).getLast? = some last := ⟨_, rfl⟩
  have hcs : validateCandles "BTC" (candlesOfCloses [100, 110]) = .ok () := rfl
  obtain ⟨signal, hanswer⟩ : ∃ signal, Counted.latest "s-1" guardedConfig "BTC"
      (candlesOfCloses [100, 110]) { seconds := 0 } = .ok (.ok (some signal)) := by
    have hrequired : Counted.requiredCandles guardedConfig = .ok 1 := rfl
    have hlength : 1 ≤ (candlesOfCloses [100, 110]).length := by decide
    rw [Counted.latest_eq hvalid hmax hcs hlast, hrequired, Except.map, if_pos ⟨hlength, henters⟩]
    exact ⟨_, rfl⟩
  obtain ⟨_, _, hmatches⟩ :=
    Signal.latest_iff_entry hvalid hmax "s-1" "BTC" { seconds := 0 }
  obtain ⟨_, hprices, hreplay⟩ := hmatches _ hanswer (.start 1000) hstake
  obtain ⟨_, _, _, held, hheld, hreference, hstop, hprofit, _⟩ := hprices _ rfl
  refine ⟨signal, held, hvalid, hanswer, ?_, hreference, hstop, hprofit⟩
  rw [hreplay _ hstart]
  exact hheld

/-- The greatest period is admitted, but then the candles that are needed cannot be counted. -/
theorem Signal.no_latest_of_greatest_period :
    (Counted.strengthConfig maxCount).validate = .ok () ∧
      Simulation.validateCandles "BTC" (candlesOfCloses [100]) = .ok () ∧
      (candlesOfCloses [100]).length < (Counted.strengthConfig maxCount).requiredCandles ∧
      Counted.latest "s-1" (Counted.strengthConfig maxCount) "BTC" (candlesOfCloses [100])
        { seconds := 0 } = .error .overflow := by
  have hcs : Simulation.validateCandles "BTC" (candlesOfCloses [100]) = .ok () := rfl
  refine ⟨rfl, hcs, by decide, ?_⟩
  exact (Counted.latest_eq_fault_iff rfl (by decide)).mpr ⟨hcs, by decide, rfl⟩

end StrategyDesk
