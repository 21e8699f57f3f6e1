import StrategyDesk.Calendar.Window
import StrategyDesk.Strategy.Kind

/-!
This module contains what is asked of a source of candles.
-/

namespace StrategyDesk

/--
The candles of a symbol in a window of time. Fewer candles than the window has room for, or none at
all, are an answer, too.
-/
structure CandleRequest where
  symbol : String
  timeframe : Timeframe
  window : Window
  deriving Repr, DecidableEq

end StrategyDesk
