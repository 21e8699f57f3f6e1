import StrategyDesk.Backtest.Request
import StrategyDesk.Count
import StrategyDesk.Ini.Lookup
import StrategyDesk.Live.Settings

/-!
This module contains the settings of backtests and live runs, and the reading of them from settings
files.
-/

namespace StrategyDesk

structure DeskSettings where
  capital : Float
  start : Option Instant
  stop : Option Instant
  candleDirectory : String
  tickInterval : Nat
  live : LiveSettings

namespace DeskSettings

def defaultCapital : Float := 10000

def defaultTickInterval : Nat := 60

def defaultDirectory : String := "data"

def default : DeskSettings where
  capital := defaultCapital
  start := none
  stop := none
  candleDirectory := defaultDirectory
  tickInterval := defaultTickInterval
  live := {}

def request (s : DeskSettings) : Except Failure (BacktestRequest Float) :=
  match s.start, s.stop with
  | none, _ => .error (.configMissing "backtest" "start")
  | _, none => .error (.configMissing "backtest" "end")
  | some start, some stop => do
    let r : BacktestRequest Float := { start, stop, capital := s.capital }
    r.validate
    return r

end DeskSettings

namespace Ini
namespace Document

def checkCapital (d : Document) : Except Failure Unit := do
  let capital := (← d.number? "backtest" "initial_capital").getD DeskSettings.defaultCapital
  if !Arithmetic.isFinite capital || decide (capital ≤ 0) then
    throw (.configInvalid "backtest" "initial_capital" "initial_capital must be positive")

def checkWindow (d : Document) : Except Failure Unit := do
  match ← d.time? "backtest" "start", ← d.time? "backtest" "end" with
  | some start, some stop =>
    if stop ≤ start then
      throw (.configInvalid "backtest" "start" "start must be before end")
  | _, _ => return

def checkPositive (d : Document) (key : String) (default : Int) : Except Failure Unit := do
  if (← d.integer "live" key default) < 1 then
    throw (.configInvalid "live" key s!"{key} must be at least 1")

def checkNotNegative (d : Document) (key : String) (default : Int) : Except Failure Unit := do
  if (← d.integer "live" key default) < 0 then
    throw (.configInvalid "live" key s!"{key} must be non-negative")

def liveDefaults : LiveSettings := {}

def checkDesk (d : Document) : Except Failure Unit := do
  d.checkCapital
  d.checkWindow
  d.checkPositive "tick_interval_secs" DeskSettings.defaultTickInterval
  d.checkPositive "pair_timeout_ms" liveDefaults.pairTimeout
  d.checkPositive "tick_deadline_ms" liveDefaults.tickDeadline
  d.checkPositive "max_concurrency" liveDefaults.maxConcurrency
  d.checkNotNegative "warmup_buffer" liveDefaults.warmupBuffer

def count (d : Document) (key : String) (default : Nat) : Except Failure Nat := do
  return Count.ofInteger (← d.integer "live" key default)

def readDesk (d : Document) : Except Failure DeskSettings := do
  d.checkDesk
  return {
    capital := (← d.number? "backtest" "initial_capital").getD DeskSettings.defaultCapital
    start := ← d.time? "backtest" "start"
    stop := ← d.time? "backtest" "end"
    candleDirectory := (d.filled? "data" "csv_dir").getD DeskSettings.defaultDirectory
    tickInterval := ← d.count "tick_interval_secs" DeskSettings.defaultTickInterval
    live := {
      pairTimeout := ← d.count "pair_timeout_ms" liveDefaults.pairTimeout
      tickDeadline := ← d.count "tick_deadline_ms" liveDefaults.tickDeadline
      maxConcurrency := ← d.count "max_concurrency" liveDefaults.maxConcurrency
      warmupBuffer := ← d.count "warmup_buffer" liveDefaults.warmupBuffer } }

end Document
end Ini
end StrategyDesk
