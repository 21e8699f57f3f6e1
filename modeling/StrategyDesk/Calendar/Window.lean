import StrategyDesk.Calendar.Instant

/-!
This module contains spans of time.
-/

namespace StrategyDesk

/-- A span of time, both ends included. -/
structure Window where
  first : Instant
  last : Instant
  deriving Repr, DecidableEq

def Window.contains (w : Window) (t : Instant) : Bool :=
  decide (w.first ≤ t) && decide (t ≤ w.last)

end StrategyDesk
