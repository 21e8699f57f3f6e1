import StrategyDesk.Indicator.Counted
import StrategyDesk.Live.Settings
import StrategyDesk.Service.Program

/-!
This module contains the work on one pair of a live strategy and a symbol: recent candles are asked
for, and a signal is submitted if the strategy enters at the last of them.
-/

namespace StrategyDesk
namespace Live

structure Pair where
  strategy : Strategy
  symbol : String

def maxBars : Nat := Nat.pow 2 31 - 1

namespace Pair

def wanted (p : Pair) (settings : LiveSettings) : Nat :=
  p.strategy.config.requiredCandles + settings.warmupBuffer

def bars (p : Pair) (settings : LiveSettings) : Nat :=
  min (p.wanted settings) maxBars

def windowStart (p : Pair) (settings : LiveSettings) (now : Instant) : Instant :=
  now.before (p.strategy.config.timeframe.seconds * p.bars settings)

def request (p : Pair) (settings : LiveSettings) (now : Instant) : CandleRequest where
  symbol := p.symbol
  timeframe := p.strategy.config.timeframe
  window := { first := p.windowStart settings now, last := now }

def react (p : Pair) (cs : List (Candle Float)) (now : Instant) : Service Bool := do
  match ← Service.ofExcept (Signal.latest p.strategy.id p.strategy.config p.symbol cs now) with
  | some signal =>
    Service.submit signal
    return true
  | none => return false

def countWanted (p : Pair) (settings : LiveSettings) : Except Fault Nat := do
  Count.add (← Counted.requiredCandles p.strategy.config) settings.warmupBuffer

/--
Whether candles can be asked for: their number can be counted, and the window does not begin before
the calendar.
-/
def isReachable (p : Pair) (settings : LiveSettings) (now : Instant) : Bool :=
  (p.countWanted settings).isOk && (p.windowStart settings now).inCalendar

def work (p : Pair) (settings : LiveSettings) (now : Instant) : Service Bool := do
  if p.isReachable settings now then
    p.react (← Service.candles (p.request settings now)) now
  else
    throw (.candleData "the window begins before the calendar does")

def ofStrategies (ss : List Strategy) : List Pair :=
  ss.flatMap fun strategy => strategy.config.symbols.map fun symbol => { strategy, symbol }

end Pair
end Live
end StrategyDesk
