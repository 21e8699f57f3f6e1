import StrategyDesk.Performance

/-!
This module contains the outcome of a backtest and the conditions on which it counts as passed.
-/

namespace StrategyDesk

structure BacktestResult (α : Type) where
  initialCapital : α
  finalCapital : α
  totalTrades : Nat
  winningTrades : Nat
  losingTrades : Nat
  winRate : α
  profitability : α
  maxDrawdown : α
  trades : List (Trade α)
  error : Option String
  deriving Repr

namespace BacktestResult

variable {α : Type} [Arithmetic α]

def failed (capital : α) (reason : String) : BacktestResult α where
  initialCapital := capital
  finalCapital := 0
  totalTrades := 0
  winningTrades := 0
  losingTrades := 0
  winRate := 0
  profitability := -100
  maxDrawdown := 0
  trades := []
  error := some reason

/-- A profit, a win rate of at least 40 percent, and no greater drawdown than allowed. -/
def passes (r : BacktestResult α) (maxDrawdown : α) : Bool :=
  r.error.isNone && decide (0 < r.profitability) && decide (40 ≤ r.winRate) &&
    decide (r.maxDrawdown ≤ maxDrawdown)

def stats (r : BacktestResult α) : TradeStats α :=
  .ofTrades r.trades

end BacktestResult
end StrategyDesk
