import StrategyDesk.Arithmetic
import StrategyDesk.Calendar.Instant
import StrategyDesk.Failure

/-!
This module contains requests for a backtest: the window of time that is replayed and the capital
that it starts from.
-/

namespace StrategyDesk

structure BacktestRequest (α : Type) where
  start : Instant
  stop : Instant
  capital : α
  deriving Repr

namespace BacktestRequest

variable {α : Type} [Arithmetic α]

def validate (r : BacktestRequest α) : Except Failure Unit :=
  if !Arithmetic.isFinite r.capital || decide (r.capital ≤ 0) then
    .error (.invalid "initial capital" s!"must be positive, got {Arithmetic.text r.capital}")
  else if r.stop ≤ r.start then
    .error (.invalid "backtest window"
      s!"start {r.start.text} must be before end {r.stop.text}")
  else
    .ok ()

end BacktestRequest
end StrategyDesk
