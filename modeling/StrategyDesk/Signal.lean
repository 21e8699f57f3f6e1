import StrategyDesk.Backtest.Simulation
import StrategyDesk.Indicator.Counted

/-!
This module contains the signals that a live strategy gives. A signal says how an entry is sized;
the quantity is left to whoever holds the account.
-/

namespace StrategyDesk

variable {α : Type} [Arithmetic α]

structure Sizing (α : Type) where
  positionSize : α
  referencePrice : α
  stopLoss : Option α
  takeProfit : Option α
  deriving Repr

def Sizing.ofRisk (risk : Risk α) (price : α) : Sizing α where
  positionSize := risk.positionSize
  referencePrice := price
  stopLoss := risk.stopLoss.map (stopLossPrice price)
  takeProfit := risk.takeProfit.map (takeProfitPrice price)

structure Signal (α : Type) where
  strategyId : String
  symbol : String
  sizing : Sizing α
  generatedAt : Instant
  deriving Repr

namespace Signal

def entry (strategyId symbol : String) (risk : Risk α) (price : α) (now : Instant) :
    Signal α where
  strategyId
  symbol
  sizing := .ofRisk risk price
  generatedAt := now

def latest (strategyId : String) (cfg : Config α) (symbol : String) (cs : List (Candle α))
    (now : Instant) : Except Failure (Option (Signal α)) := do
  Simulation.validateCandles symbol cs
  match cs.getLast? with
  | none => return none
  | some last =>
    if cs.length < cfg.requiredCandles then
      return none
    let set := SeriesSet.compute cfg.indicators cs
    if cfg.rules.entersAt set (cs.length - 1) then
      return some (.entry strategyId symbol cfg.risk last.close now)
    else
      return none

end Signal

/--
The same on counts of 64 bits. What the indicators need is not counted before the candles are known
to be in order.
-/
def Counted.latest (strategyId : String) (cfg : Config α) (symbol : String)
    (cs : List (Candle α)) (now : Instant) : Except Fault (Except Failure (Option (Signal α))) :=
  match Simulation.validateCandles symbol cs with
  | .error f => return .error f
  | .ok () =>
    match cs.getLast? with
    | .none => return .ok .none
    | some last => do
      if cs.length < (← requiredCandles cfg) then
        return .ok .none
      else
        let set ← computeAll cfg.indicators cs
        if cfg.rules.entersAt set (← Count.sub cs.length 1) then
          return .ok (some (.entry strategyId symbol cfg.risk last.close now))
        else
          return .ok .none

end StrategyDesk
