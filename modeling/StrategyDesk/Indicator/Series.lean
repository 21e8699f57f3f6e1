import StrategyDesk.Candle
import StrategyDesk.Indicator.Basic

/-!
This module contains the values of indicators over time. A series covers the last candles of a list,
one point for each; how many candles it leaves out at the start is its offset.
-/

namespace StrategyDesk

inductive Reading (α : Type) where
  | simple (value : α)
  | macd (line signal histogram : α)
  | bollinger (upper middle lower : α)
  | stochastic (k d : α)
  deriving Repr

def Reading.output? {α : Type} : Reading α → Option String → Option α
  | .simple v, none | .simple v, some "value" => some v
  | .macd line .., none | .macd line .., some "macd" | .macd line .., some "line" => some line
  | .macd _ signal _, some "signal" => some signal
  | .macd _ _ h, some "histogram" | .macd _ _ h, some "hist" => some h
  | .bollinger _ middle _, none | .bollinger _ middle _, some "middle" => some middle
  | .bollinger upper .., some "upper" => some upper
  | .bollinger _ _ lower, some "lower" => some lower
  | .stochastic k _, none | .stochastic k _, some "k" => some k
  | .stochastic _ d, some "d" => some d
  | _, _ => none

structure Point (α : Type) where
  time : Instant
  reading : Reading α
  deriving Repr

/-- The points of an indicator. The point at `j` belongs to the candle at `offset + j`. -/
structure Series (α : Type) where
  indicator : Indicator α
  offset : Nat
  points : Array (Point α)
  deriving Repr

namespace Series

variable {α : Type}

/-- The series whose readings belong to the last of the candles. -/
def ofReadings (ind : Indicator α) (cs : List (Candle α)) (readings : List (Reading α)) :
    Series α :=
  let offset := if readings.isEmpty then 0 else cs.length - readings.length
  let points := ((cs.drop offset).zip readings).map fun (c, reading) => { time := c.time, reading }
  { indicator := ind, offset, points := points.toArray }

def readingAt? (s : Series α) (index : Nat) : Option (Reading α) :=
  if s.offset ≤ index then s.points[index - s.offset]?.map Point.reading else none

end Series
end StrategyDesk
