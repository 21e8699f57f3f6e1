import StrategyDesk.Decimal.Binary64

/-!
This module contains the shortest decimals that read back: for a double, the fewest decimal digits
such that the double is the one nearest to them.
-/

namespace StrategyDesk

structure Decimal where
  digits : Nat
  power : Int
  deriving Repr, DecidableEq

namespace Decimal

def toFraction (d : Decimal) : Nat × Nat :=
  Binary64.fraction d.digits 10 d.power

def nearestBits (d : Decimal) : Nat :=
  let (num, den) := d.toFraction
  Binary64.nearestBits num den

inductive Tie where
  | up
  | even

/--
The decimal `n * 10 ^ power` nearest to `num / den` whose nearest double has the given bits. Only
the two multiples of `10 ^ power` around the number can be meant.
-/
def onGrid (tie : Tie) (bits num den : Nat) (power : Int) : Option Decimal :=
  let (n, d) := Binary64.fraction num 10 (-power)
  let den := d * den
  let below : Decimal := { digits := n / den, power }
  let above : Decimal := { digits := n / den + 1, power }
  let rest := 2 * (n % den)
  match below.nearestBits == bits, above.nearestBits == bits with
  | true, true =>
    if rest < den then some below
    else if den < rest then some above
    else match tie with
      | .up => some above
      | .even => if below.digits % 2 = 0 then some below else some above
  | true, false => some below
  | false, true => some above
  | false, false => none

def magnitude (num den : Nat) : Int :=
  let guess := ((num.log2 : Int) - den.log2 - 1) * 30103 / 100000
  let above (k : Int) : Bool :=
    let (n, d) := Binary64.fraction den 10 k
    num * d < n
  if above guess then guess
  else if above (guess + 1) then guess + 1
  else guess + 2

def stripZeros : Nat → Decimal → Decimal
  | 0, d => d
  | fuel + 1, d =>
    if d.digits % 10 = 0 then stripZeros fuel { digits := d.digits / 10, power := d.power + 1 }
    else d

def exact (mantissa : Nat) (exponent : Int) : Decimal :=
  if 0 ≤ exponent then
    { digits := mantissa * Nat.pow 2 exponent.toNat, power := 0 }
  else
    { digits := mantissa * Nat.pow 5 (-exponent).toNat, power := exponent }

/--
The shortest decimal that reads back as `mantissa * 2 ^ exponent`, of the shortest ones the nearest.
Seventeen digits are enough for every double.
-/
def shortest (tie : Tie) (mantissa : Nat) (exponent : Int) : Decimal :=
  let (num, den) := Binary64.fraction mantissa 2 exponent
  let bits := Binary64.nearestBits num den
  let top := magnitude num den
  let found := (List.range 17).findSome? fun (n : Nat) =>
    onGrid tie bits num den (top - (n + 1))
  stripZeros 20 (found.getD (exact mantissa exponent))

end Decimal
end StrategyDesk
