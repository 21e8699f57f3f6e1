import StrategyDesk.Proofs.Backtest.Balance

/-!
This module contains what the reason of a trade says of its outcome. In exact arithmetic a position is
at its stop loss when the price has fallen by the percentage in question, and at its take profit when
it has risen by it. It is watched at every candle behind its entry, so a trade that ends for another
reason has stayed between the two.
-/

namespace StrategyDesk
namespace Simulation

/-! ## The candles of a trade -/

section Traded

variable {α : Type} [Arithmetic α] {cfg : Config α} {candlesOf : String → List (Candle α)}
  {symbol : String} {symbols : List String} {set : SeriesSet α} {cs : List (Candle α)} {c d : Candle α}
  {t : Trade α} {capital entry final price : α} {i j s : Nat} {reason : ExitReason}

/-- A trade that enters at one of some candles and leaves at the one where its position is closed. -/
inductive Traded (cfg : Config α) (symbol : String) (cs : List (Candle α)) : Trade α → Prop
  | intro {stake i j c d reason} :
    ¬ stake ≤ 0 → cs[i]? = some c → Closes cfg cs i c.close j reason → cs[j]? = some d →
      Traded cfg symbol cs (tradeOf symbol stake c d reason)

theorem Greedy.traded {rounds : List (Round α)}
    (h : Greedy cfg symbol cs s capital rounds final) :
    ∀ a ∈ rounds, Traded cfg symbol cs a.trade := by
  induction h with
  | stop _ => simp
  | round hleast hc hcloses hd _ ih =>
    rw [List.forall_mem_cons]
    exact ⟨.intro hleast.1.2.2.2 hc hcloses hd, ih⟩

theorem GreedyAll.traded {all : List (List (Round α))}
    (h : GreedyAll cfg candlesOf symbols capital all final) :
    ∀ rounds ∈ all, ∀ a ∈ rounds, ∃ symbol ∈ symbols,
      Traded cfg symbol (candlesOf symbol) a.trade := by
  induction h with
  | nil => simp
  | cons hfirst _ ih =>
    rw [List.forall_mem_cons]
    constructor
    . intro a ha
      exact ⟨_, List.mem_cons_self, hfirst.traded a ha⟩
    . intro rounds hrounds a ha
      obtain ⟨symbol, hsymbol, htraded⟩ := ih rounds hrounds a ha
      exact ⟨symbol, List.mem_cons_of_mem _ hsymbol, htraded⟩

theorem traded_of_runBacktest {r : BacktestResult α} (h : runBacktest cfg candlesOf capital = .ok r)
    (ht : t ∈ r.trades) : ∃ symbol ∈ cfg.symbols, Traded cfg symbol (candlesOf symbol) t := by
  obtain ⟨all, hgreedy, htrades⟩ := greedyAll_runSymbols cfg candlesOf cfg.symbols (.start capital)
  have htrades : r.trades = all.flatten.map Round.trade := by
    rw [runBacktest_eq_ok h]
    exact htrades
  rw [htrades] at ht
  obtain ⟨a, ha, rfl⟩ := List.mem_map.mp ht
  obtain ⟨rounds, hrounds, ha⟩ := List.mem_flatten.mp ha
  exact hgreedy.traded rounds hrounds a ha

theorem ExitsFor.stopLoss_iff (h : ExitsFor cfg set entry j price reason) :
    reason = .stopLoss ↔ AtStopLoss cfg.risk entry price := by
  cases h with
  | stopLoss hstop => exact iff_of_true rfl hstop
  | takeProfit hstop _ => exact iff_of_false nofun hstop
  | exitSignal hstop _ _ => exact iff_of_false nofun hstop

theorem ExitsFor.takeProfit_iff (h : ExitsFor cfg set entry j price reason) :
    reason = .takeProfit ↔ ¬ AtStopLoss cfg.risk entry price ∧ AtTakeProfit cfg.risk entry price := by
  cases h with
  | stopLoss hstop => exact iff_of_false nofun (fun h => h.1 hstop)
  | takeProfit hstop hprofit => exact iff_of_true rfl ⟨hstop, hprofit⟩
  | exitSignal _ hprofit _ => exact iff_of_false nofun (fun h => hprofit h.2)

theorem Closes.watched (h : Closes cfg cs i c.close j reason) (hc : cs[i]? = some c)
    (hd : cs[j]? = some d) :
    ExitsFor cfg (.compute cfg.indicators cs) c.close j d.close reason ∨
      reason = .endOfWindow ∧
        (¬ Exits cfg (.compute cfg.indicators cs) c.close j d.close ∨ d = c) := by
  cases h with
  | inside _ hd' hreason =>
    rw [hd] at hd'
    injection hd' with hd'
    subst hd'
    exact .inl hreason
  | atEnd hnone =>
    have hi := (List.getElem?_eq_some_iff.mp hc).1
    refine .inr ⟨rfl, ?_⟩
    by_cases hbehind : i < cs.length - 1
    . exact .inl (hnone _ d hbehind hd)
    . have hlast : i = cs.length - 1 := by omega
      rw [← hlast, hc] at hd
      injection hd with hd
      exact .inr hd.symm

def BoughtIn (cfg : Config α) (symbol : String) (cs : List (Candle α)) (state : State α) : Prop :=
  ∀ held, state.2 = some held → ∃ stake, ∃ c ∈ cs, held = holdingAt cfg.risk symbol stake c

theorem BoughtIn.step {state : State α} (h : BoughtIn cfg symbol cs state) (hc : c ∈ cs) :
    BoughtIn cfg symbol cs (step cfg symbol set i c state) := by
  rcases state with ⟨acct, none | held⟩
  . unfold Simulation.step
    dsimp only
    split
    . rintro _ ⟨⟩
      exact ⟨_, c, hc, rfl⟩
    . exact h
  . unfold Simulation.step
    dsimp only
    split
    . exact nofun
    . exact h

theorem BoughtIn.replay {rest : List (Candle α)} {state : State α}
    (h : BoughtIn cfg symbol cs state) (hrest : rest ⊆ cs) :
    BoughtIn cfg symbol cs (replay cfg symbol set i state rest) := by
  induction rest generalizing i state with
  | nil => exact h
  | cons c rest ih =>
    rw [List.cons_subset] at hrest
    exact ih (h.step hrest.1) hrest.2

theorem Visits.exists_holdingAt {state : State α} {held : Holding α}
    (h : Visits cfg candlesOf capital state) (hheld : state.2 = some held) :
    ∃ symbol ∈ cfg.symbols, ∃ stake, ∃ c ∈ candlesOf symbol,
      held = holdingAt cfg.risk symbol stake c := by
  cases h with
  | @during before symbol after cs rest hsymbols hcandles =>
    have hsymbol : symbol ∈ cfg.symbols := by
      rw [hsymbols]
      exact List.mem_append_right _ List.mem_cons_self
    have hseen : cs ⊆ candlesOf symbol := by
      rw [hcandles]
      exact List.subset_append_left _ _
    have hstart : BoughtIn cfg symbol (candlesOf symbol)
        (before.foldl (runSymbol cfg candlesOf) (.start capital), none) := nofun
    exact ⟨symbol, hsymbol, hstart.replay hseen held hheld⟩
  | atEnd => cases hheld

end Traded

/-! ## The two levels -/

section Levels

variable [Conventions] {risk : Risk ℚ} {entry price percent : ℚ}

theorem le_stopLossPrice_iff (hentry : 0 < entry) :
    price ≤ stopLossPrice entry percent ↔ (price - entry) / entry * 100 ≤ -percent := by
  have hlevel : stopLossPrice entry percent = entry * (1 - percent / 100) := rfl
  rw [hlevel, div_mul_eq_mul_div, div_le_iff₀ hentry]
  constructor
  . intro h
    linarith
  . intro h
    linarith

theorem takeProfitPrice_le_iff (hentry : 0 < entry) :
    takeProfitPrice entry percent ≤ price ↔ percent ≤ (price - entry) / entry * 100 := by
  have hlevel : takeProfitPrice entry percent = entry * (1 + percent / 100) := rfl
  rw [hlevel, div_mul_eq_mul_div, le_div_iff₀ hentry]
  constructor
  . intro h
    linarith
  . intro h
    linarith

theorem atStopLoss_iff (hentry : 0 < entry) (hpercent : risk.stopLoss = some percent) :
    AtStopLoss risk entry price ↔ (price - entry) / entry * 100 ≤ -percent := by
  rw [← le_stopLossPrice_iff hentry]
  simp [AtStopLoss, hpercent]

theorem atTakeProfit_iff (hentry : 0 < entry) (hpercent : risk.takeProfit = some percent) :
    AtTakeProfit risk entry price ↔ percent ≤ (price - entry) / entry * 100 := by
  rw [← takeProfitPrice_le_iff hentry]
  simp [AtTakeProfit, hpercent]

theorem AtStopLoss.lt (h : AtStopLoss risk entry price) (hrisk : risk.validate = .ok ())
    (hentry : 0 < entry) : price < entry := by
  obtain ⟨percent, hpercent, hle⟩ := h
  obtain ⟨_, _, hstop, _⟩ := Risk.validate_eq_ok_iff.mp hrisk
  have hpos : 0 < percent := (hstop percent hpercent).1
  have hlevel : price ≤ entry * (1 - percent / 100) := hle
  have hfall : 0 < entry * (percent / 100) := by positivity
  linarith

theorem AtTakeProfit.lt (h : AtTakeProfit risk entry price) (hrisk : risk.validate = .ok ())
    (hentry : 0 < entry) : entry < price := by
  obtain ⟨percent, hpercent, hle⟩ := h
  obtain ⟨_, _, _, hprofit⟩ := Risk.validate_eq_ok_iff.mp hrisk
  have hpos : 0 < percent := (hprofit percent hpercent).1
  have hlevel : entry * (1 + percent / 100) ≤ price := hle
  have hrise : 0 < entry * (percent / 100) := by positivity
  linarith

theorem AtStopLoss.not_atTakeProfit (h : AtStopLoss risk entry price)
    (hrisk : risk.validate = .ok ()) (hentry : 0 < entry) : ¬ AtTakeProfit risk entry price := by
  intro hprofit
  exact lt_asymm (h.lt hrisk hentry) (hprofit.lt hrisk hentry)

end Levels

/-! ## The outcome of a trade -/

section Outcome

variable [Conventions] {cfg : Config ℚ} {symbol : String} {cs : List (Candle ℚ)} {t : Trade ℚ}

theorem Traded.entryPrice_pos (h : Traded cfg symbol cs t) (hcs : ∀ c ∈ cs, 0 < c.close) :
    0 < t.entryPrice := by
  cases h with
  | intro _ hc _ _ => exact hcs _ (List.mem_of_getElem? hc)

theorem Traded.profitPercent_eq (h : Traded cfg symbol cs t) :
    t.profitPercent = (t.exitPrice - t.entryPrice) / t.entryPrice * 100 := by
  cases h
  rfl

theorem Traded.exists_profit_eq (h : Traded cfg symbol cs t) (hcs : ∀ c ∈ cs, 0 < c.close) :
    ∃ quantity, 0 < quantity ∧ t.profit = quantity * (t.exitPrice - t.entryPrice) := by
  have hentry := h.entryPrice_pos hcs
  cases h with
  | intro hstake _ _ _ => exact ⟨_, div_pos (not_le.mp hstake) hentry, rfl⟩

theorem Traded.stopLoss_iff (h : Traded cfg symbol cs t) (hrisk : cfg.risk.validate = .ok ())
    (hcs : ∀ c ∈ cs, 0 < c.close) :
    t.exitReason = .stopLoss ↔ AtStopLoss cfg.risk t.entryPrice t.exitPrice := by
  have hentry := h.entryPrice_pos hcs
  cases h with
  | @intro stake i j c d reason _ hc hcloses hd =>
    rcases hcloses.watched hc hd with hexits | ⟨rfl, hstays | rfl⟩
    . exact hexits.stopLoss_iff
    . exact iff_of_false nofun (fun hstop => hstays (.inl hstop))
    . -- nothing is lost yet at the price of the entry
      exact iff_of_false nofun (fun hstop => lt_irrefl _ (hstop.lt hrisk hentry))

theorem Traded.takeProfit_iff (h : Traded cfg symbol cs t) (hrisk : cfg.risk.validate = .ok ())
    (hcs : ∀ c ∈ cs, 0 < c.close) :
    t.exitReason = .takeProfit ↔ AtTakeProfit cfg.risk t.entryPrice t.exitPrice := by
  have hentry := h.entryPrice_pos hcs
  cases h with
  | @intro stake i j c d reason _ hc hcloses hd =>
    rcases hcloses.watched hc hd with hexits | ⟨rfl, hstays | rfl⟩
    . refine hexits.takeProfit_iff.trans ⟨And.right, ?_⟩
      intro hprofit
      exact ⟨fun hstop => hstop.not_atTakeProfit hrisk hentry hprofit, hprofit⟩
    . exact iff_of_false nofun (fun hprofit => hstays (.inr (.inl hprofit)))
    . exact iff_of_false nofun (fun hprofit => lt_irrefl _ (hprofit.lt hrisk hentry))

end Outcome

end Simulation

open Simulation

/--
Why a trade has ended tells what came of it, in exact arithmetic and within admitted limits. It is a
stop loss exactly if the price has fallen by that percentage, and a take profit exactly if it has
risen by that one; no price is both. All other trades have stayed between the two.
-/
theorem runBacktest_reasons [Conventions] {cfg : Config ℚ} {candlesOf : String → List (Candle ℚ)}
    {capital : ℚ} {r : BacktestResult ℚ} (hrisk : cfg.risk.validate = .ok ())
    (h : runBacktest cfg candlesOf capital = .ok r) :
    (∀ t ∈ r.trades,
      (∀ sl, cfg.risk.stopLoss = some sl →
        (t.exitReason = .stopLoss ↔ t.profitPercent ≤ -sl)) ∧
      (∀ tp, cfg.risk.takeProfit = some tp →
        (t.exitReason = .takeProfit ↔ tp ≤ t.profitPercent)) ∧
      (t.exitReason = .exitSignal ∨ t.exitReason = .endOfWindow →
        (∀ sl, cfg.risk.stopLoss = some sl → -sl < t.profitPercent) ∧
        ∀ tp, cfg.risk.takeProfit = some tp → t.profitPercent < tp) ∧
      (t.exitReason = .stopLoss →
        cfg.risk.stopLoss ≠ none ∧ t.profit < 0 ∧ t.isWinner = false) ∧
      (t.exitReason = .takeProfit →
        cfg.risk.takeProfit ≠ none ∧ 0 < t.profit ∧ t.isWinner = true)) ∧
    ∀ state held price, Visits cfg candlesOf capital state → state.2 = some held →
      ¬ (held.position.hitsStopLoss price = true ∧ held.position.hitsTakeProfit price = true) := by
  obtain ⟨_, hpos⟩ := pos_of_runBacktest h
  constructor
  . intro t ht
    obtain ⟨symbol, hsymbol, htraded⟩ := traded_of_runBacktest h ht
    have hcs := hpos symbol hsymbol
    have hentry := htraded.entryPrice_pos hcs
    have hstop := htraded.stopLoss_iff hrisk hcs
    have hprofit := htraded.takeProfit_iff hrisk hcs
    have hstopPercent (sl : ℚ) (hsl : cfg.risk.stopLoss = some sl) :
        t.exitReason = .stopLoss ↔ t.profitPercent ≤ -sl := by
      rw [hstop, atStopLoss_iff hentry hsl, htraded.profitPercent_eq]
    have hprofitPercent (tp : ℚ) (htp : cfg.risk.takeProfit = some tp) :
        t.exitReason = .takeProfit ↔ tp ≤ t.profitPercent := by
      rw [hprofit, atTakeProfit_iff hentry htp, htraded.profitPercent_eq]
    obtain ⟨quantity, hquantity, hgain⟩ := htraded.exists_profit_eq hcs
    refine ⟨hstopPercent, hprofitPercent, ?_, ?_, ?_⟩
    . intro hother
      constructor
      . intro sl hsl
        rw [← not_le, ← hstopPercent sl hsl]
        rcases hother with hreason | hreason <;> simp [hreason]
      . intro tp htp
        rw [← not_le, ← hprofitPercent tp htp]
        rcases hother with hreason | hreason <;> simp [hreason]
    . intro hreason
      have hlevel := hstop.mp hreason
      have hloss : t.profit < 0 := by
        rw [hgain]
        exact mul_neg_of_pos_of_neg hquantity (sub_neg.mpr (hlevel.lt hrisk hentry))
      refine ⟨?_, hloss, ?_⟩
      . obtain ⟨sl, hsl, _⟩ := hlevel
        simp [hsl]
      . exact decide_eq_false hloss.not_gt
    . intro hreason
      have hlevel := hprofit.mp hreason
      have hwon : 0 < t.profit := by
        rw [hgain]
        exact mul_pos hquantity (sub_pos.mpr (hlevel.lt hrisk hentry))
      refine ⟨?_, hwon, ?_⟩
      . obtain ⟨tp, htp, _⟩ := hlevel
        simp [htp]
      . exact decide_eq_true hwon
  . rintro state held price hstate hheld ⟨hstop, hprofit⟩
    obtain ⟨symbol, hsymbol, stake, c, hc, rfl⟩ := hstate.exists_holdingAt hheld
    have hstop : AtStopLoss cfg.risk c.close price := hitsStopLoss_positionAt.mp hstop
    have hprofit : AtTakeProfit cfg.risk c.close price := hitsTakeProfit_positionAt.mp hprofit
    exact hstop.not_atTakeProfit hrisk (hpos symbol hsymbol c hc) hprofit

section Sample

attribute [local instance] sampleConventions

def protectedConfig : Config ℚ where
  name := "Protected"
  description := none
  kind := .custom
  symbols := ["BTC"]
  timeframe := .day1
  indicators := [{ key := "sma", indicator := .sma 1 }]
  rules := {
    entry := [{ field := "sma", comparison := .greater, value := 105 }]
    exit := [{ field := "sma", comparison := .lessOrEqual, value := 105 }] }
  risk := { positionSize := 50, maxDrawdown := 50, stopLoss := some 5, takeProfit := some 10 }

def protectedCandles (_ : String) : List (Candle ℚ) :=
  [candleOfClose 110 0, candleOfClose 100 1, candleOfClose 110 2, candleOfClose 121 3,
    candleOfClose 110 4, candleOfClose 105 5, candleOfClose 110 6]

theorem runBacktest_reasons_protected :
    ∃ r, protectedConfig.risk.validate = .ok () ∧
      runBacktest protectedConfig protectedCandles 1000 = .ok r ∧
      r.trades.map Trade.exitReason = [.stopLoss, .takeProfit, .exitSignal, .endOfWindow] ∧
      (∀ t ∈ r.trades, (t.exitReason = .stopLoss ↔ t.profitPercent ≤ -5) ∧
        (t.exitReason = .takeProfit ↔ 10 ≤ t.profitPercent)) := by
  have hreasons : (runBacktest protectedConfig protectedCandles 1000).toOption.map
      (fun r => r.trades.map Trade.exitReason) =
        some [.stopLoss, .takeProfit, .exitSignal, .endOfWindow] := by
    decide +kernel
  obtain ⟨r, hr, hreasons⟩ := exists_ok_of_toOption hreasons
  have hrisk : protectedConfig.risk.validate = .ok () := rfl
  obtain ⟨htrades, _⟩ := runBacktest_reasons hrisk hr
  refine ⟨r, hrisk, hr, hreasons, ?_⟩
  intro t ht
  obtain ⟨hstop, hprofit, _⟩ := htrades t ht
  exact ⟨hstop 5 rfl, hprofit 10 rfl⟩

end Sample

end StrategyDesk
