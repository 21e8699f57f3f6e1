import StrategyDesk.Backtest.Result
import StrategyDesk.Indicator.Counted

/-!
This module contains the replay of a strategy over past candles. Symbols are replayed one after
another on the same capital, and each of them holds at most one position at a time. A position is
entered and left at the close of a candle, never both at the same one, and what is still held at the
last candle is left there.
-/

namespace StrategyDesk

open Arithmetic

variable {α : Type} [Arithmetic α]

def Candle.complaint? (c : Candle α) (place : String) (previous : Option Instant) :
    Option String :=
  if !isFinite c.volume || decide (c.volume < 0) then
    some s!"{place} at {c.time.text} has invalid volume {text c.volume}"
  else if !isFinite c.close || decide (c.close ≤ 0) then
    some s!"{place} at {c.time.text} has invalid close {text c.close}"
  else
    match previous with
    | some before =>
      if c.time ≤ before then some s!"{place} at {c.time.text} is not after {before.text}"
      else none
    | none => none

namespace Simulation

def checkCandles (symbol : String) (index : Nat) (previous : Option Instant) :
    List (Candle α) → Except Failure Unit
  | [] => .ok ()
  | c :: cs =>
    match c.complaint? s!"{symbol}: candle {index}" previous with
    | some reason => .error (.simulation reason)
    | none => checkCandles symbol (index + 1) (some c.time) cs

def validateCandles (symbol : String) (cs : List (Candle α)) : Except Failure Unit :=
  checkCandles symbol 0 none cs

structure Account (α : Type) where
  capital : α
  drawdown : Drawdown α
  trades : List (Trade α)

structure Holding (α : Type) where
  position : Position α
  notional : α

namespace Account

def start (capital : α) : Account α where
  capital
  drawdown := .start capital
  trades := []

def enter (acct : Account α) (symbol : String) (risk : Risk α) (c : Candle α) (notional : α) :
    Account α × Holding α :=
  let position := .enter symbol c.close notional c.time risk.stopLoss risk.takeProfit
  ({ acct with capital := acct.capital - notional }, { position, notional })

def leave (acct : Account α) (held : Holding α) (c : Candle α) (reason : ExitReason) :
    Account α :=
  let trade := held.position.close c.close c.time reason
  let capital := acct.capital + (held.notional + trade.profit)
  { capital, drawdown := acct.drawdown.record capital, trades := acct.trades ++ [trade] }

def stake (acct : Account α) (risk : Risk α) : α :=
  acct.capital * risk.positionSize / 100

end Account

def exitReason? (cfg : Config α) (set : SeriesSet α) (position : Position α) (index : Nat)
    (price : α) : Option ExitReason :=
  if position.hitsStopLoss price then some .stopLoss
  else if position.hitsTakeProfit price then some .takeProfit
  else if cfg.rules.exitsAt set index then some .exitSignal
  else none

abbrev State (α : Type) := Account α × Option (Holding α)

def step (cfg : Config α) (symbol : String) (set : SeriesSet α) (index : Nat) (c : Candle α) :
    State α → State α
  | (acct, none) =>
    let notional := acct.stake cfg.risk
    if cfg.rules.entersAt set index && !decide (notional ≤ 0) then
      let (acct, held) := acct.enter symbol cfg.risk c notional
      (acct, some held)
    else
      (acct, none)
  | (acct, some held) =>
    match exitReason? cfg set held.position index c.close with
    | some reason => (acct.leave held c reason, none)
    | none => (acct, some held)

def replay (cfg : Config α) (symbol : String) (set : SeriesSet α) (index : Nat)
    (state : State α) : List (Candle α) → State α
  | [] => state
  | c :: cs => replay cfg symbol set (index + 1) (step cfg symbol set index c state) cs

def runSeries (cfg : Config α) (symbol : String) (set : SeriesSet α) (acct : Account α)
    (cs : List (Candle α)) : Account α :=
  match replay cfg symbol set 0 (acct, none) cs, cs.getLast? with
  | (acct, some held), some last => acct.leave held last .endOfWindow
  | (acct, _), _ => acct

def runSymbol (cfg : Config α) (candlesOf : String → List (Candle α)) (acct : Account α)
    (symbol : String) : Account α :=
  let cs := candlesOf symbol
  runSeries cfg symbol (.compute cfg.indicators cs) acct cs

def check (cfg : Config α) (candlesOf : String → List (Candle α)) (capital : α) :
    Except Failure Unit := do
  if !isFinite capital || decide (capital ≤ 0) then
    throw (.simulation s!"initial capital must be positive, got {text capital}")
  cfg.symbols.forM fun symbol => validateCandles symbol (candlesOf symbol)

def Account.result (acct : Account α) (initial : α) : BacktestResult α :=
  let stats := TradeStats.ofTrades acct.trades
  { initialCapital := initial
    finalCapital := acct.capital
    totalTrades := stats.total
    winningTrades := stats.winning
    losingTrades := stats.losing
    winRate := stats.winRate
    profitability := profitability initial acct.capital
    maxDrawdown := acct.drawdown.greatest
    trades := acct.trades
    error := none }

end Simulation

def runBacktest (cfg : Config α) (candlesOf : String → List (Candle α)) (capital : α) :
    Except Failure (BacktestResult α) := do
  Simulation.check cfg candlesOf capital
  let acct := cfg.symbols.foldl (Simulation.runSymbol cfg candlesOf) (.start capital)
  return acct.result capital

namespace Counted

def runSymbol (cfg : Config α) (candlesOf : String → List (Candle α))
    (acct : Simulation.Account α) (symbol : String) : Except Fault (Simulation.Account α) := do
  let cs := candlesOf symbol
  return Simulation.runSeries cfg symbol (← computeAll cfg.indicators cs) acct cs

def runBacktest (cfg : Config α) (candlesOf : String → List (Candle α)) (capital : α) :
    Except Fault (Except Failure (BacktestResult α)) :=
  match Simulation.check cfg candlesOf capital with
  | .error f => return .error f
  | .ok () => do
    let acct ← cfg.symbols.foldlM (runSymbol cfg candlesOf) (.start capital)
    return .ok (acct.result capital)

end Counted

end StrategyDesk
