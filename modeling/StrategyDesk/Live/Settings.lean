import StrategyDesk.Failure

/-!
This module contains the limits that live strategies are run under.
-/

namespace StrategyDesk

structure LiveSettings where
  /-- How long the candles of one pair of strategy and symbol may take, in milliseconds. -/
  pairTimeout : Nat := 5000
  /-- How long all pairs together may take, in milliseconds. -/
  tickDeadline : Nat := 30000
  maxConcurrency : Nat := 8
  warmupBuffer : Nat := 10
  deriving Repr, DecidableEq

def LiveSettings.validate (s : LiveSettings) : Except Failure Unit :=
  if s.pairTimeout = 0 then .error (.invalid "pair_timeout" "must be positive")
  else if s.tickDeadline = 0 then .error (.invalid "tick_deadline" "must be positive")
  else if s.maxConcurrency = 0 then .error (.invalid "max_concurrency" "must be at least 1")
  else .ok ()

end StrategyDesk
