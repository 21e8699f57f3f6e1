import StrategyDesk.Arithmetic
import StrategyDesk.Calendar.Instant

/-!
This module contains candles: the prices and the volume of one stretch of time.
-/

namespace StrategyDesk

open Arithmetic

structure Candle (α : Type) where
  time : Instant
  openPrice : α
  high : α
  low : α
  close : α
  volume : α
  deriving Repr

namespace Candle

variable {α : Type} [Arithmetic α]

def typicalPrice (c : Candle α) : α :=
  (c.high + c.low + c.close) / 3

def trueRange (c : Candle α) (previousClose : α) : α :=
  greatest (greatest (c.high - c.low) (abs (c.high - previousClose)))
    (abs (c.low - previousClose))

def closes (cs : List (Candle α)) : List α :=
  cs.map Candle.close

def neighbours {β : Type} (xs : List β) : List (β × β) :=
  xs.zip xs.tail

end Candle
end StrategyDesk
