import StrategyDesk.Text.Ascii
import StrategyDesk.Text.Blank

/-!
This module contains the states that a strategy passes through on its way to trading, and the
operations that lead from one to another.
-/

namespace StrategyDesk

inductive Status where
  | draft
  | backtesting
  | backtestPassed
  | backtestFailed
  | active
  | paused
  | stopped
  deriving Repr, DecidableEq

namespace Status

def all : List Status :=
  [.draft, .backtesting, .backtestPassed, .backtestFailed, .active, .paused, .stopped]

def name : Status → String
  | .draft => "DRAFT"
  | .backtesting => "BACKTESTING"
  | .backtestPassed => "BACKTEST_PASSED"
  | .backtestFailed => "BACKTEST_FAILED"
  | .active => "ACTIVE"
  | .paused => "PAUSED"
  | .stopped => "STOPPED"

def isTerminal (s : Status) : Bool :=
  s == .stopped

def isEditable (s : Status) : Bool :=
  s != .active

def ofName? (s : String) : Option Status :=
  all.find? fun status => status.name == s

theorem ofName?_name (s : Status) : ofName? s.name = some s := by
  cases s <;> decide

end Status

inductive Operation where
  | startBacktest
  | completeBacktest
  | failBacktest
  | activate
  | pause
  | stop
  | updateConfiguration
  deriving Repr, DecidableEq

namespace Operation

def phrase : Operation → String
  | .startBacktest => "start backtest for"
  | .completeBacktest => "complete backtest for"
  | .failBacktest => "fail backtest for"
  | .activate => "activate"
  | .pause => "pause"
  | .stop => "stop"
  | .updateConfiguration => "update configuration of"

def isAllowed : Operation → Status → Bool
  | .startBacktest, s => s == .draft || s == .backtestFailed
  | .completeBacktest, s => s == .backtesting
  | .failBacktest, s => s == .backtesting
  | .activate, s => s == .backtestPassed || s == .paused
  | .pause, s => s == .active
  | .stop, s => s == .active || s == .paused
  | .updateConfiguration, s => s.isEditable

end Operation
end StrategyDesk
