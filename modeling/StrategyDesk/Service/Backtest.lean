import StrategyDesk.Backtest.Request
import StrategyDesk.Indicator.Counted
import StrategyDesk.Service.Lifecycle

/-!
This module contains the service that puts a stored strategy to the test. Whatever goes wrong once
the test has begun makes the strategy fail it; no strategy is left in between.
-/

namespace StrategyDesk
namespace Service

def gather (cfg : Config Float) (window : Window) :
    List String → Service (List (String × List (Candle Float)))
  | [] => return []
  | symbol :: rest => do
    let cs ← candles { symbol, timeframe := cfg.timeframe, window }
    discard (counted (Counted.requiredCandles cfg))
    return (symbol, cs) :: (← gather cfg window rest)

/--
Replays a strategy over candles that are asked for first. There is no fault left for the replay once
what the indicators need was counted.
-/
def simulate (cfg : Config Float) (r : BacktestRequest Float) :
    Service (BacktestResult Float) := do
  let found ← gather cfg { first := r.start, last := r.stop } cfg.symbols
  giveWay
  ofExcept (StrategyDesk.runBacktest cfg (fun symbol => (found.lookup symbol).getD []) r.capital)

def verdict (capital : Float) : Except Failure (BacktestResult Float) → Command
  | .ok result => .completeBacktest result
  | .error failure => .failBacktest failure.message capital

def closeStranded (id : String) (cause : Failure) (capital : Float) : Service Unit := do
  let s ← load id
  if s.status == .backtesting then
    let command := .failBacktest s!"backtest result not saved: {cause.message}" capital
    let s ← ofExcept (s.perform command (← currentTime))
    discard (persist s)

def backtest (id : String) (r : BacktestRequest Float) : Service Strategy := do
  ofExcept r.validate
  let s ← transition id .startBacktest
  let outcome ← attempt (simulate s.config r)
  let s ← ofExcept (s.perform (verdict r.capital outcome) (← currentTime))
  match ← attempt (persist s) with
  | .ok s => return s
  | .error cause =>
    discard (attempt (closeStranded id cause r.capital))
    throw cause

end Service
end StrategyDesk
