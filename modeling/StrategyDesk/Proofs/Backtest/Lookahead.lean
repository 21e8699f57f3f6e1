import StrategyDesk.Proofs.Backtest.Rounds
import StrategyDesk.Proofs.Indicator.Online
import Mathlib.Data.List.Basic
import Mathlib.Logic.Function.Basic

/-!
This module contains what a backtest does not know: the candles to come. If the candles of the last
symbol go on, the trades that were closed stay the same, and so does the entry of a position that
was held to the end.
-/

namespace StrategyDesk

/-! ## Rules -/

theorem lookup_map_key {α β : Type} (kis : List (KeyedIndicator α)) (f : KeyedIndicator α → β)
    (key : String) :
    (kis.map fun ki => (ki.key, f ki)).lookup key = (kis.find? fun ki => key == ki.key).map f := by
  induction kis with
  | nil => rfl
  | cons ki kis ih =>
    rw [List.map_cons, List.lookup_cons, List.find?_cons, ih]
    split <;> rfl

variable {α : Type} [Arithmetic α]

theorem SeriesSet.get?_compute (indicators : List (KeyedIndicator α)) (cs : List (Candle α))
    (key : String) :
    (compute indicators cs).get? key =
      (indicators.reverse.find? fun ki => key == ki.key).map fun ki => ki.indicator.compute cs := by
  unfold get? compute
  rw [← List.map_reverse]
  exact lookup_map_key _ _ key

section Rules

variable (indicators : List (KeyedIndicator α)) {cs : List (Candle α)} (ds : List (Candle α))
  {i : Nat}

theorem SeriesSet.value?_append (field : String) (hi : i < cs.length) :
    (compute indicators (cs ++ ds)).value? field i = (compute indicators cs).value? field i := by
  unfold value?
  dsimp only
  rw [get?_compute, get?_compute]
  cases indicators.reverse.find? fun ki => (FieldRef.ofText field).key == ki.key with
  | none => rfl
  | some ki =>
    simp only [Option.map_some, Option.bind_eq_bind, Option.bind_some,
      ki.indicator.readingAt?_append cs ds hi]

theorem Rule.holdsAt_append (r : Rule α) (hi : i < cs.length) :
    r.holdsAt (.compute indicators (cs ++ ds)) i = r.holdsAt (.compute indicators cs) i := by
  unfold holdsAt
  rw [SeriesSet.value?_append indicators ds r.field hi]
  cases i with
  | zero => rfl
  | succ before =>
    dsimp only
    rw [SeriesSet.value?_append indicators ds r.field (Nat.lt_of_succ_lt hi)]

theorem RuleSet.entersAt_append (rs : RuleSet α) (hi : i < cs.length) :
    rs.entersAt (.compute indicators (cs ++ ds)) i = rs.entersAt (.compute indicators cs) i := by
  unfold entersAt
  simp only [Rule.holdsAt_append indicators ds _ hi]

theorem RuleSet.exitsAt_append (rs : RuleSet α) (hi : i < cs.length) :
    rs.exitsAt (.compute indicators (cs ++ ds)) i = rs.exitsAt (.compute indicators cs) i := by
  unfold exitsAt
  simp only [Rule.holdsAt_append indicators ds _ hi]

end Rules

namespace Simulation

/-! ## The replay of more candles -/

section Replay

variable {cfg : Config α} {symbol : String} {set set' : SeriesSet α} {cs ds rest : List (Candle α)}
  {i k : Nat} {c : Candle α} {state : State α}

theorem step_append (hi : i < cs.length) :
    step cfg symbol (.compute cfg.indicators (cs ++ ds)) i c state =
      step cfg symbol (.compute cfg.indicators cs) i c state := by
  rcases state with ⟨acct, held | held⟩
  . simp only [step, RuleSet.entersAt_append cfg.indicators ds cfg.rules hi]
  . simp only [step, exitReason?, RuleSet.exitsAt_append cfg.indicators ds cfg.rules hi]

theorem replay_congr (h : ∀ i c state, i < k + rest.length →
    step cfg symbol set i c state = step cfg symbol set' i c state) :
    replay cfg symbol set k state rest = replay cfg symbol set' k state rest := by
  induction rest generalizing k state with
  | nil => rfl
  | cons c rest ih =>
    unfold replay
    rw [h k c state (by rw [List.length_cons]; omega)]
    apply ih
    intro i c state hi
    apply h
    rw [List.length_cons]
    omega

theorem replay_concat :
    replay cfg symbol set k state (cs ++ ds) =
      replay cfg symbol set (k + cs.length) (replay cfg symbol set k state cs) ds := by
  induction cs generalizing k state with
  | nil => rfl
  | cons c cs ih =>
    show replay cfg symbol set (k + 1) _ (cs ++ ds) = replay cfg symbol set _
      (replay cfg symbol set (k + 1) (step cfg symbol set k c state) cs) ds
    rw [ih, List.length_cons, Nat.add_assoc, Nat.add_comm 1]

theorem replay_append :
    replay cfg symbol (.compute cfg.indicators (cs ++ ds)) 0 state (cs ++ ds) =
      replay cfg symbol (.compute cfg.indicators (cs ++ ds)) cs.length
        (replay cfg symbol (.compute cfg.indicators cs) 0 state cs) ds := by
  rw [replay_concat, Nat.zero_add]
  congr 1
  apply replay_congr
  intro i c state hi
  apply step_append
  omega

end Replay

/-! ## The trades of a replay -/

def isForced (symbol : String) (t : Trade α) : Bool :=
  t.symbol == symbol && t.exitReason == .endOfWindow

def HoldsOnly (symbol : String) (state : State α) : Prop :=
  ∀ held, state.2 = some held → held.position.symbol = symbol

structure Advances (symbol : String) (before after : State α) : Prop where
  trades : ∃ more, after.1.trades = before.1.trades ++ more ∧
    ∀ t ∈ more, t.symbol = symbol ∧ t.exitReason ≠ .endOfWindow
  holdsOnly : HoldsOnly symbol after

section Trades

variable {cfg : Config α} {symbol : String} {set : SeriesSet α} {cs rest : List (Candle α)}
  {i k : Nat} {c last : Candle α} {acct : Account α} {held : Holding α} {state : State α}

theorem exitReason?_ne_endOfWindow {position : Position α} {price : α} :
    exitReason? cfg set position i price ≠ some .endOfWindow := by
  unfold exitReason?
  split
  . exact nofun
  . split
    . exact nofun
    . split <;> exact nofun

theorem step_advances (h : HoldsOnly symbol state) :
    Advances symbol state (step cfg symbol set i c state) := by
  rcases state with ⟨acct, none | held⟩
  . unfold step
    dsimp only
    split
    . refine ⟨⟨[], (List.append_nil _).symm, nofun⟩, ?_⟩
      intro held hheld
      injection hheld with hheld
      subst hheld
      rfl
    . exact ⟨⟨[], (List.append_nil _).symm, nofun⟩, h⟩
  . unfold step
    dsimp only
    split
    . next reason hreason =>
      refine ⟨⟨[held.position.close c.close c.time reason], rfl, ?_⟩, nofun⟩
      intro t ht
      rw [List.mem_singleton.mp ht]
      refine ⟨h held rfl, ?_⟩
      rintro rfl
      exact exitReason?_ne_endOfWindow hreason
    . exact ⟨⟨[], (List.append_nil _).symm, nofun⟩, h⟩

theorem replay_advances (h : HoldsOnly symbol state) :
    Advances symbol state (replay cfg symbol set k state rest) := by
  induction rest generalizing k state with
  | nil => exact ⟨⟨[], (List.append_nil _).symm, nofun⟩, h⟩
  | cons c rest ih =>
    obtain ⟨⟨first, hfirst, hall⟩, honly⟩ :=
      step_advances h
    obtain ⟨⟨more, hmore, hall'⟩, honly'⟩ := ih honly
    refine ⟨⟨first ++ more, ?_, ?_⟩, honly'⟩
    . rw [← List.append_assoc, ← hfirst]
      exact hmore
    . intro t ht
      rcases List.mem_append.mp ht with ht | ht
      . exact hall t ht
      . exact hall' t ht

theorem settle_trades : state.1.trades <+: (settle cs state).trades := by
  unfold settle
  split
  . exact List.prefix_append _ _
  . exact List.prefix_rfl

theorem settle_replay_trades (h : HoldsOnly symbol state) :
    state.1.trades <+: (settle cs (replay cfg symbol set k state rest)).trades := by
  have hadvances : Advances symbol state (replay cfg symbol set k state rest) := replay_advances h
  obtain ⟨more, hmore, _⟩ := hadvances.trades
  have hprefix : state.1.trades <+: (replay cfg symbol set k state rest).1.trades := by
    rw [hmore]
    exact List.prefix_append _ _
  exact hprefix.trans settle_trades

theorem exists_next_trade (acct : Account α) (held : Holding α)
    (hlast : cs.getLast? = some last) :
    ∃ (d : Candle α) (reason : ExitReason),
      acct.trades ++ [held.position.close d.close d.time reason] <+:
      (settle cs (replay cfg symbol set k (acct, some held) rest)).trades := by
  induction rest generalizing k with
  | nil =>
    refine ⟨last, .endOfWindow, ?_⟩
    unfold replay
    rw [settle_of_some hlast]
    exact List.prefix_rfl
  | cons c rest ih =>
    unfold replay step
    dsimp only
    split
    . next reason _ =>
      have hnothing : HoldsOnly symbol (acct.leave held c reason, none) := nofun
      exact ⟨c, reason, settle_replay_trades hnothing⟩
    . exact ih

end Trades

section Symbols

variable {cfg : Config α} {candlesOf candlesOf' : String → List (Candle α)} {symbol : String}
  {symbols : List String}

theorem runSymbol_cases (cfg : Config α) (candlesOf : String → List (Candle α)) (acct : Account α)
    (symbol : String) :
    ∃ acct' held?, replay cfg symbol (.compute cfg.indicators (candlesOf symbol)) 0 (acct, none)
        (candlesOf symbol) = (acct', held?) ∧
      Advances symbol (acct, none) (acct', held?) ∧
      (held? = none ∧ runSymbol cfg candlesOf acct symbol = acct' ∨
        ∃ held last, held? = some held ∧ (candlesOf symbol).getLast? = some last ∧
          runSymbol cfg candlesOf acct symbol = acct'.leave held last .endOfWindow) := by
  rw [runSymbol_eq]
  have hadvances : Advances symbol (acct, none) (replay cfg symbol
      (.compute cfg.indicators (candlesOf symbol)) 0 (acct, none) (candlesOf symbol)) :=
    replay_advances nofun
  cases hlast : (candlesOf symbol).getLast? with
  | none =>
    have hnil := List.getLast?_eq_none_iff.mp hlast
    rw [hnil] at hadvances ⊢
    exact ⟨acct, none, rfl, hadvances, .inl ⟨rfl, rfl⟩⟩
  | some last =>
    generalize replay cfg symbol (.compute cfg.indicators (candlesOf symbol)) 0 (acct, none)
      (candlesOf symbol) = state at hadvances
    rcases state with ⟨acct', none | held⟩
    . exact ⟨acct', none, rfl, hadvances, .inl ⟨rfl, settle_of_none _ _⟩⟩
    . exact ⟨acct', some held, rfl, hadvances,
        .inr ⟨held, last, rfl, rfl, settle_of_some hlast⟩⟩

theorem runSymbol_trades (cfg : Config α) (candlesOf : String → List (Candle α)) (acct : Account α)
    (symbol : String) :
    ∃ more, (runSymbol cfg candlesOf acct symbol).trades = acct.trades ++ more ∧
      ∀ t ∈ more, t.symbol = symbol := by
  obtain ⟨acct', held?, _, ⟨⟨more, hmore, hall⟩, honly⟩, hcases⟩ :=
    runSymbol_cases cfg candlesOf acct symbol
  have hmore : acct'.trades = acct.trades ++ more := hmore
  rcases hcases with ⟨_, hrun⟩ | ⟨held, last, hheld, _, hrun⟩
  . rw [hrun]
    exact ⟨more, hmore, fun t ht => (hall t ht).1⟩
  . rw [hrun]
    refine ⟨more ++ [held.position.close last.close last.time .endOfWindow], ?_, ?_⟩
    . rw [← List.append_assoc, ← hmore]
      rfl
    . intro t ht
      rcases List.mem_append.mp ht with ht | ht
      . exact (hall t ht).1
      . rw [List.mem_singleton.mp ht]
        exact honly held hheld

theorem symbol_of_mem_runSymbol {acct : Account α} {t : Trade α}
    (ht : t ∈ (runSymbol cfg candlesOf acct symbol).trades) : t ∈ acct.trades ∨ t.symbol = symbol := by
  obtain ⟨more, hmore, hall⟩ := runSymbol_trades cfg candlesOf acct symbol
  rw [hmore] at ht
  exact (List.mem_append.mp ht).imp_right (hall t)

theorem symbol_of_mem_runSymbols {acct : Account α} {t : Trade α}
    (ht : t ∈ (symbols.foldl (runSymbol cfg candlesOf) acct).trades) :
    t ∈ acct.trades ∨ t.symbol ∈ symbols := by
  induction symbols generalizing acct with
  | nil => exact .inl ht
  | cons symbol symbols ih =>
    rcases ih ht with h | h
    . rcases symbol_of_mem_runSymbol h with h | h
      . exact .inl h
      . exact .inr (List.mem_cons.mpr (.inl h))
    . exact .inr (List.mem_cons_of_mem _ h)

theorem runSymbol_congr {acct : Account α} (h : candlesOf symbol = candlesOf' symbol) :
    runSymbol cfg candlesOf acct symbol = runSymbol cfg candlesOf' acct symbol := by
  unfold runSymbol
  rw [h]

theorem runSymbols_congr {acct : Account α}
    (h : ∀ symbol ∈ symbols, candlesOf symbol = candlesOf' symbol) :
    symbols.foldl (runSymbol cfg candlesOf) acct = symbols.foldl (runSymbol cfg candlesOf') acct := by
  apply List.foldl_ext
  intro acct s hs
  apply runSymbol_congr
  exact h s hs

theorem runSymbol_append {acct : Account α} {ds : List (Candle α)}
    (hacct : ∀ t ∈ acct.trades, isForced symbol t = false)
    (hcandles : candlesOf' symbol = candlesOf symbol ++ ds) :
    let earlier := (runSymbol cfg candlesOf acct symbol).trades
    let later := (runSymbol cfg candlesOf' acct symbol).trades
    earlier.filter (fun t => !isForced symbol t) <+: later ∧
    ∀ t ∈ earlier, isForced symbol t = true →
      ∃ t', later[(earlier.filter fun t => !isForced symbol t).length]? = some t' ∧
        t'.symbol = t.symbol ∧ t'.entryTime = t.entryTime ∧ t'.entryPrice = t.entryPrice ∧
        t'.quantity = t.quantity := by
  intro earlier later
  obtain ⟨acct', held?, hreplay, ⟨⟨more, hmore, hall⟩, honly⟩, hcases⟩ :=
    runSymbol_cases cfg candlesOf acct symbol
  have hlater : later = (settle (candlesOf symbol ++ ds) (replay cfg symbol
      (.compute cfg.indicators (candlesOf symbol ++ ds)) (candlesOf symbol).length
      (acct', held?) ds)).trades := by
    show (runSymbol cfg candlesOf' acct symbol).trades = _
    rw [runSymbol_eq, hcandles, replay_append, hreplay]
  -- no trade in the account is forced before the candles are over
  have hnone : ∀ t ∈ acct'.trades, isForced symbol t = false := by
    intro t ht
    rw [show acct'.trades = acct.trades ++ more from hmore] at ht
    rcases List.mem_append.mp ht with ht | ht
    . exact hacct t ht
    . unfold isForced
      simp [(hall t ht).2]
  have hkeep : acct'.trades.filter (fun t => !isForced symbol t) = acct'.trades := by
    rw [List.filter_eq_self]
    intro t ht
    rw [hnone t ht]
    rfl
  rcases hcases with ⟨_, hrun⟩ | ⟨held, last, hheld, hlast, hrun⟩
  . -- nothing was held, so all trades were settled
    have hearlier : earlier = acct'.trades := by
      show (runSymbol cfg candlesOf acct symbol).trades = _
      rw [hrun]
    rw [hearlier, hkeep, hlater]
    refine ⟨settle_replay_trades honly, ?_⟩
    intro t ht hforced
    rw [hnone t ht] at hforced
    cases hforced
  . -- the last trade was forced, and the position in it is held on to
    subst hheld
    have hsymbol : held.position.symbol = symbol := honly held rfl
    have hforced : isForced symbol (held.position.close last.close last.time .endOfWindow) = true := by
      simp [isForced, Position.close, hsymbol]
    have hearlier : earlier =
        acct'.trades ++ [held.position.close last.close last.time .endOfWindow] := by
      show (runSymbol cfg candlesOf acct symbol).trades = _
      rw [hrun]
      rfl
    have hsettled : earlier.filter (fun t => !isForced symbol t) = acct'.trades := by
      rw [hearlier, List.filter_append, hkeep, List.filter_cons, hforced]
      exact List.append_nil _
    rw [hsettled, hlater]
    refine ⟨settle_replay_trades honly, ?_⟩
    intro t ht hforced'
    rw [hearlier] at ht
    rcases List.mem_append.mp ht with ht | ht
    . rw [hnone t ht] at hforced'
      cases hforced'
    . have ht := List.mem_singleton.mp ht
      subst ht
      have hlast' : ∃ last', (candlesOf symbol ++ ds).getLast? = some last' := by
        rw [List.getLast?_append, hlast]
        cases ds.getLast? with
        | none => exact ⟨last, rfl⟩
        | some d => exact ⟨d, rfl⟩
      obtain ⟨last', hlast'⟩ := hlast'
      obtain ⟨d, reason, rest, hrest⟩ := exists_next_trade acct' held hlast'
      refine ⟨held.position.close d.close d.time reason, ?_, rfl, rfl, rfl, rfl⟩
      rw [← hrest, List.append_assoc, List.getElem?_append_right (Nat.le_refl _), Nat.sub_self]
      rfl

end Symbols

end Simulation

open Simulation

theorem runBacktest_trades_concat {cfg : Config α} {before : List String} {symbol : String}
    {candlesOf : String → List (Candle α)} {capital : α} {r : BacktestResult α}
    (hsymbols : cfg.symbols = before ++ [symbol])
    (h : runBacktest cfg candlesOf capital = .ok r) :
    r.trades = (runSymbol cfg candlesOf
      (before.foldl (runSymbol cfg candlesOf) (.start capital)) symbol).trades := by
  rw [runBacktest_eq_ok h, hsymbols, List.foldl_append]
  rfl

/--
Whatever candles follow for the last symbol, the trades stay as they are, apart from the one that was
forced when the candles were over. If there is one, the position that it closed is entered just the
same.
-/
theorem runBacktest_append {cfg : Config α} {before : List String} {symbol : String}
    {candlesOf : String → List (Candle α)} {ds : List (Candle α)} {capital : α}
    {r r' : BacktestResult α} (hsymbols : cfg.symbols = before ++ [symbol])
    (hnew : symbol ∉ before) (h : runBacktest cfg candlesOf capital = .ok r)
    (h' : runBacktest cfg (Function.update candlesOf symbol (candlesOf symbol ++ ds)) capital =
      .ok r') :
    r.trades.filter (fun t => !isForced symbol t) <+: r'.trades ∧
    ∀ t ∈ r.trades, isForced symbol t = true →
      ∃ t', r'.trades[(r.trades.filter fun t => !isForced symbol t).length]? = some t' ∧
        t'.symbol = t.symbol ∧ t'.entryTime = t.entryTime ∧ t'.entryPrice = t.entryPrice ∧
        t'.quantity = t.quantity := by
  have hcongr : ∀ s ∈ before,
      candlesOf s = Function.update candlesOf symbol (candlesOf symbol ++ ds) s := by
    intro s hs
    rw [Function.update_of_ne]
    rintro rfl
    exact hnew hs
  rw [runBacktest_trades_concat hsymbols h, runBacktest_trades_concat hsymbols h',
    ← runSymbols_congr hcongr]
  apply runSymbol_append
  . -- the trades so far are in other symbols
    intro t ht
    rcases symbol_of_mem_runSymbols ht with ht | ht
    . cases ht
    . have hne : t.symbol ≠ symbol := by
        rintro rfl
        exact hnew ht
      simp [isForced, hne]
  . exact Function.update_self ..

theorem runBacktest_append_crossing :
    ∃ r r', runBacktest (crossingConfig ["BTC"]) (fun _ => candlesOfCloses [110, 100, 110]) 1000 =
        .ok r ∧
      runBacktest (crossingConfig ["BTC"]) (Function.update (fun _ => candlesOfCloses [110, 100, 110])
        "BTC" (candlesOfCloses [110, 100, 110] ++ (candlesOfCloses [110, 100, 110, 100]).drop 3))
        1000 = .ok r' ∧
      r.trades.map Trade.exitReason = [.exitSignal, .endOfWindow] ∧
      r'.trades.map Trade.exitReason = [.exitSignal, .exitSignal] ∧
      r.trades.filter (fun t => !isForced "BTC" t) <+: r'.trades := by
  have hreasons : (runBacktest (crossingConfig ["BTC"])
      (fun _ => candlesOfCloses [110, 100, 110]) 1000).toOption.map
        (fun r => r.trades.map Trade.exitReason) = some [.exitSignal, .endOfWindow] := by
    decide +kernel
  have hreasons' : (runBacktest (crossingConfig ["BTC"])
      (Function.update (fun _ => candlesOfCloses [110, 100, 110]) "BTC"
        (candlesOfCloses [110, 100, 110] ++ (candlesOfCloses [110, 100, 110, 100]).drop 3))
      1000).toOption.map (fun r => r.trades.map Trade.exitReason) =
        some [.exitSignal, .exitSignal] := by
    decide +kernel
  obtain ⟨r, hr, hreasons⟩ := exists_ok_of_toOption hreasons
  obtain ⟨r', hr', hreasons'⟩ := exists_ok_of_toOption hreasons'
  have hsymbols : (crossingConfig ["BTC"]).symbols = [] ++ ["BTC"] := rfl
  have hprefix := (runBacktest_append hsymbols (List.not_mem_nil) hr hr').1
  exact ⟨r, r', hr, hr', hreasons, hreasons', hprefix⟩

/--
If the last symbol comes twice, what happens in the first replay of its candles takes the place of
trades in the second one.
-/
theorem runBacktest_append_repeated :
    ∃ r r', runBacktest (crossingConfig ["BTC", "BTC"])
        (fun _ => candlesOfCloses [110, 100, 110]) 1000 = .ok r ∧
      runBacktest (crossingConfig ["BTC", "BTC"])
        (Function.update (fun _ => candlesOfCloses [110, 100, 110]) "BTC"
          (candlesOfCloses [110, 100, 110] ++ (candlesOfCloses [110, 100, 110, 100]).drop 3))
        1000 = .ok r' ∧
      (r.trades.map fun t => (t.entryTime.seconds, t.exitTime.seconds)) =
        [(0, 86400), (172800, 172800), (0, 86400), (172800, 172800)] ∧
      ¬ r.trades.filter (fun t => !isForced "BTC" t) <+: r'.trades ∧
      ¬ r.trades.dropLast <+: r'.trades := by
  have htimes : (runBacktest (crossingConfig ["BTC", "BTC"])
      (fun _ => candlesOfCloses [110, 100, 110]) 1000).toOption.map (fun r =>
        (r.trades.map fun t => (t.entryTime.seconds, t.exitTime.seconds),
          (r.trades.filter fun t => !isForced "BTC" t).map fun t => t.entryTime.seconds)) =
        some ([(0, 86400), (172800, 172800), (0, 86400), (172800, 172800)], [0, 0]) := by
    decide +kernel
  have htimes' : (runBacktest (crossingConfig ["BTC", "BTC"])
      (Function.update (fun _ => candlesOfCloses [110, 100, 110]) "BTC"
        (candlesOfCloses [110, 100, 110] ++ (candlesOfCloses [110, 100, 110, 100]).drop 3))
      1000).toOption.map (fun r =>
        (r.trades.map fun t => (t.entryTime.seconds, t.exitTime.seconds),
          r.trades.map fun t => t.entryTime.seconds)) =
        some ([(0, 86400), (172800, 259200), (0, 86400), (172800, 259200)],
          [0, 172800, 0, 172800]) := by
    decide +kernel
  obtain ⟨r, hr, htimes⟩ := exists_ok_of_toOption htimes
  obtain ⟨r', hr', htimes'⟩ := exists_ok_of_toOption htimes'
  rw [Prod.mk.injEq] at htimes htimes'
  refine ⟨r, r', hr, hr', htimes.1, ?_, ?_⟩
  . intro hprefix
    have hentries := hprefix.map fun t => t.entryTime.seconds
    rw [htimes.2, htimes'.2] at hentries
    revert hentries
    decide
  . intro hprefix
    have hspans := hprefix.map fun t => (t.entryTime.seconds, t.exitTime.seconds)
    rw [List.map_dropLast, htimes.1, htimes'.1] at hspans
    revert hspans
    decide

end StrategyDesk
