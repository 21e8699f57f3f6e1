import StrategyDesk.Indicator.Readings
import StrategyDesk.Rule.Basic

/-!
This module contains the evaluation of rules at a candle. A rule whose field has no value there does
not hold.
-/

namespace StrategyDesk

/-- Series by the keys that rules name. A later series takes the place of an earlier one. -/
abbrev SeriesSet (α : Type) := List (String × Series α)

namespace SeriesSet

variable {α : Type}

def get? (set : SeriesSet α) (key : String) : Option (Series α) :=
  List.lookup key (List.reverse set)

variable [Arithmetic α]

def compute (indicators : List (KeyedIndicator α)) (cs : List (Candle α)) : SeriesSet α :=
  indicators.map fun ki => (ki.key, ki.indicator.compute cs)

/-- The value of a field at the candle at `index`. What is not a number is no value. -/
def value? (set : SeriesSet α) (field : String) (index : Nat) : Option α := do
  let ref := FieldRef.ofText field
  let series ← set.get? ref.key
  let reading ← series.readingAt? index
  let value ← reading.output? ref.sub
  if Arithmetic.isNaN value then none else some value

end SeriesSet

variable {α : Type} [Arithmetic α]

def Comparison.holds (c : Comparison) (previous : Option α) (current threshold : α) : Bool :=
  match c with
  | .greater => threshold < current
  | .less => current < threshold
  | .greaterOrEqual => threshold ≤ current
  | .lessOrEqual => current ≤ threshold
  | .equal => current == threshold
  | .crossesAbove => previous.any fun p => p ≤ threshold && threshold < current
  | .crossesBelow => previous.any fun p => threshold ≤ p && current < threshold

namespace Rule

def holdsAt (r : Rule α) (set : SeriesSet α) (index : Nat) : Bool :=
  match set.value? r.field index with
  | none => false
  | some current =>
    let previous := match index with
      | 0 => none
      | before + 1 => set.value? r.field before
    r.comparison.holds previous current r.value

end Rule

namespace RuleSet

def entersAt (rs : RuleSet α) (set : SeriesSet α) (index : Nat) : Bool :=
  !rs.entry.isEmpty && rs.entry.all fun r => r.holdsAt set index

def exitsAt (rs : RuleSet α) (set : SeriesSet α) (index : Nat) : Bool :=
  rs.exit.any fun r => r.holdsAt set index

end RuleSet
end StrategyDesk
