import StrategyDesk.Indicator.Average
import StrategyDesk.Indicator.Series

/-!
This module contains what each indicator says, as a list of readings for the last candles of a list.
A list of candles that is too short for an indicator has no readings.
-/

namespace StrategyDesk
namespace Indicator

open Arithmetic Candle

variable {α : Type} [Arithmetic α]

/-! ## Prices -/

def macdLine (fast slow : Nat) (prices : List α) : List α :=
  let longer := max fast slow
  List.zipWith (· - ·)
    ((Average.exponential fast prices).drop (longer - fast))
    ((Average.exponential slow prices).drop (longer - slow))

def macdReadings (fast slow signal : Nat) (prices : List α) : List (Reading α) :=
  let line := macdLine fast slow prices
  List.zipWith (fun line signal => .macd line signal (line - signal))
    (line.drop (signal - 1)) (Average.exponential signal line)

def deviation (xs : List α) (middle : α) : α :=
  sqrt (mean (xs.map fun x => (x - middle) * (x - middle)))

def bandsAround (k : α) (window : List α) : Reading α :=
  let middle := mean window
  let halfWidth := k * deviation window middle
  .bollinger (middle + halfWidth) middle (middle - halfWidth)

/-! ## Changes from candle to candle -/

def gains (cs : List (Candle α)) : List α :=
  (neighbours cs).map fun (before, c) =>
    let change := c.close - before.close
    if 0 < change then change else 0

def losses (cs : List (Candle α)) : List α :=
  (neighbours cs).map fun (before, c) =>
    let change := c.close - before.close
    if change < 0 then -change else 0

def relativeStrength (gain loss : α) : α :=
  if loss == 0 then 100 else 100 - 100 / (1 + gain / loss)

def rsiValues (period : Nat) (cs : List (Candle α)) : List α :=
  List.zipWith relativeStrength
    (Average.weighted period (gains cs)) (Average.weighted period (losses cs))

def trueRanges (cs : List (Candle α)) : List α :=
  (neighbours cs).map fun (before, c) => c.trueRange before.close

/-! ## Ranges -/

def lowest (xs : List α) : α :=
  match xs.filter (!isNaN ·) with
  | [] => infinity
  | x :: xs => xs.foldl least x

def highest (xs : List α) : α :=
  match xs.filter (!isNaN ·) with
  | [] => -infinity
  | x :: xs => xs.foldl greatest x

def percentK (window : List (Candle α)) : α :=
  let low := lowest (window.map Candle.low)
  let high := highest (window.map Candle.high)
  match window.getLast? with
  | some last => if high == low then 50 else (last.close - low) / (high - low) * 100
  | none => 50

def stochasticReadings (kPeriod dPeriod : Nat) (cs : List (Candle α)) : List (Reading α) :=
  let ks := (Average.windows kPeriod cs).map percentK
  List.zipWith .stochastic (ks.drop (dPeriod - 1)) (Average.plain dPeriod ks)

/-! ## Volume -/

def turnovers (cs : List (Candle α)) : List (α × α) :=
  let step (total : α × α) (c : Candle α) :=
    (total.1 + c.typicalPrice * c.volume, total.2 + c.volume)
  (Average.running step (0, 0) cs).tail

def vwapValues (cs : List (Candle α)) : List α :=
  let started := (turnovers cs).dropWhile fun (_, volume) => volume == 0
  started.map fun (turnover, volume) =>
    if volume == 0 then infinity - infinity else turnover / volume

/-! ## All indicators -/

def readings (ind : Indicator α) (cs : List (Candle α)) : List (Reading α) :=
  match ind with
  | .sma period => (Average.plain period (closes cs)).map .simple
  | .ema period => (Average.exponential period (closes cs)).map .simple
  | .rsi period => (rsiValues period cs).map .simple
  | .macd fast slow signal => macdReadings fast slow signal (closes cs)
  | .bollinger period k => (Average.windows period (closes cs)).map (bandsAround k)
  | .stochastic kPeriod dPeriod => stochasticReadings kPeriod dPeriod cs
  | .atr period => (Average.weighted period (trueRanges cs)).map .simple
  | .vwap => (vwapValues cs).map .simple

def compute (ind : Indicator α) (cs : List (Candle α)) : Series α :=
  .ofReadings ind cs (ind.readings cs)

end Indicator
end StrategyDesk
