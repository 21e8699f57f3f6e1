import StrategyDesk.Calendar.Instant

/-!
This module contains the events that tell what became of a strategy.
-/

namespace StrategyDesk

inductive Change where
  | created (ownerId : String)
  | backtestStarted
  | backtestCompleted (passed : Bool) (totalTrades : Nat) (profitability : Float)
  | backtestFailed (reason : String)
  | activated
  | paused
  | stopped
  | configurationUpdated (stale : Bool)
  deriving Repr

def Change.name : Change → String
  | .created .. => "created"
  | .backtestStarted => "backtest_started"
  | .backtestCompleted .. => "backtest_completed"
  | .backtestFailed .. => "backtest_failed"
  | .activated => "activated"
  | .paused => "paused"
  | .stopped => "stopped"
  | .configurationUpdated .. => "configuration_updated"

structure Event where
  strategyId : String
  change : Change
  time : Instant
  deriving Repr

end StrategyDesk
