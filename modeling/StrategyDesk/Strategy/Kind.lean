import StrategyDesk.Failure

/-!
This module contains the kinds of strategy, the timeframes of their candles, and the reading of
these and of the status from texts. The case of letters does not count, nor do blanks around a text.
-/

namespace StrategyDesk

def findNamed {β : Type} (all : List β) (name : β → String) (s : List Char) : Option β :=
  all.find? fun x => Text.sameLetters (name x).toList s

inductive StrategyKind where
  | trendFollowing
  | meanReversion
  | momentum
  | breakout
  | custom
  deriving Repr, DecidableEq

namespace StrategyKind

def all : List StrategyKind := [.trendFollowing, .meanReversion, .momentum, .breakout, .custom]

def name : StrategyKind → String
  | .trendFollowing => "trend_following"
  | .meanReversion => "mean_reversion"
  | .momentum => "momentum"
  | .breakout => "breakout"
  | .custom => "custom"

def ofName? (s : String) : Option StrategyKind :=
  all.find? fun kind => kind.name == s

def read (s : String) : Except Failure StrategyKind :=
  let words := (Text.trim s.toList).map fun c => if c = '-' then '_' else c
  match findNamed all name words with
  | some kind => .ok kind
  | none => .error (.invalid "strategy type" s!"unknown type '{s}'")

theorem ofName?_name (kind : StrategyKind) : ofName? kind.name = some kind := by
  cases kind <;> decide

end StrategyKind

inductive Timeframe where
  | minute1
  | minute5
  | minute15
  | minute30
  | hour1
  | hour4
  | day1
  | week1
  deriving Repr, DecidableEq

namespace Timeframe

def all : List Timeframe :=
  [.minute1, .minute5, .minute15, .minute30, .hour1, .hour4, .day1, .week1]

def name : Timeframe → String
  | .minute1 => "1m"
  | .minute5 => "5m"
  | .minute15 => "15m"
  | .minute30 => "30m"
  | .hour1 => "1h"
  | .hour4 => "4h"
  | .day1 => "1d"
  | .week1 => "1w"

def seconds : Timeframe → Nat
  | .minute1 => 60
  | .minute5 => 300
  | .minute15 => 900
  | .minute30 => 1800
  | .hour1 => 3600
  | .hour4 => 14400
  | .day1 => 86400
  | .week1 => 604800

def ofName? (s : String) : Option Timeframe :=
  all.find? fun timeframe => timeframe.name == s

def read (s : String) : Except Failure Timeframe :=
  match findNamed all name (Text.trim s.toList) with
  | some timeframe => .ok timeframe
  | none =>
    .error (.invalid "timeframe"
      s!"unknown timeframe '{s}' (expected one of 1m, 5m, 15m, 30m, 1h, 4h, 1d, 1w)")

theorem ofName?_name (timeframe : Timeframe) : ofName? timeframe.name = some timeframe := by
  cases timeframe <;> decide

end Timeframe

def Status.read (s : String) : Except Failure Status :=
  match findNamed all name (Text.trim s.toList) with
  | some status => .ok status
  | none => .error (.invalid "strategy status" s!"unknown status '{s}'")

end StrategyDesk
