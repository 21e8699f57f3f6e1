/-!
This module contains the reading of double precision numbers as exact binary fractions and the
rounding of a fraction to the nearest double.
-/

namespace StrategyDesk

inductive Binary64 where
  | finite (negative : Bool) (mantissa : Nat) (exponent : Int)
  | infinite (negative : Bool)
  | notANumber
  deriving Repr, DecidableEq

namespace Binary64

def ofBits (bits : Nat) : Binary64 :=
  let negative := bits / Nat.pow 2 63 % 2 == 1
  let scale : Nat := bits / Nat.pow 2 52 % Nat.pow 2 11
  let fraction : Nat := bits % Nat.pow 2 52
  if scale = 2047 then
    if fraction = 0 then .infinite negative else .notANumber
  else if scale = 0 then
    .finite negative fraction (-1074)
  else
    .finite negative (fraction + Nat.pow 2 52) ((scale : Int) - 1075)

def ofFloat (x : Float) : Binary64 :=
  ofBits x.toBits.toNat

def fraction (n base : Nat) (e : Int) : Nat × Nat :=
  if 0 ≤ e then (n * Nat.pow base e.toNat, 1) else (n, Nat.pow base (-e).toNat)

def roundHalfEven (num den : Nat) : Nat :=
  let whole := num / den
  let rest := 2 * (num % den)
  if rest < den then whole
  else if den < rest then whole + 1
  else whole + whole % 2

def infinityBits : Nat := 2047 * Nat.pow 2 52

/--
The exponent of the double nearest to `num / den`: the one that gives it 53 digits, unless that is
too small for a double.
-/
def scaleOf (num den : Nat) : Int :=
  let e : Int := num.log2 - den.log2 - 53
  let (n, d) := fraction num 2 (-e)
  let e := if Nat.pow 2 53 * (d * den) ≤ n then e + 1 else e
  max e (-1074)

/--
The bits of the double nearest to `num / den`. Of two doubles that are equally near the one with the
even mantissa is taken, and a number beyond the greatest double becomes infinity.
-/
def nearestBits (num den : Nat) : Nat :=
  if num = 0 then
    0
  else
    let e := scaleOf num den
    let (n, d) := fraction num 2 (-e)
    let mantissa := roundHalfEven n (d * den)
    if mantissa < Nat.pow 2 52 then mantissa
    else min infinityBits ((e + 1075).toNat * Nat.pow 2 52 + (mantissa - Nat.pow 2 52))

def nearest (negative : Bool) (num den : Nat) : Float :=
  let bits := nearestBits num den
  Float.ofBits (UInt64.ofNat (if negative then bits + Nat.pow 2 63 else bits))

def isWhole (x : Float) : Bool :=
  match ofFloat x with
  | .finite _ mantissa exponent =>
    let f := fraction mantissa 2 exponent
    f.1 % f.2 == 0
  | _ => false

/-- The whole part of a double as a count of at most 64 bits; zero if there is none. -/
def toCount (x : Float) : Nat :=
  match ofFloat x with
  | .finite false mantissa exponent =>
    min ((fraction mantissa 2 exponent).1 / (fraction mantissa 2 exponent).2) (Nat.pow 2 64 - 1)
  | .infinite false => Nat.pow 2 64 - 1
  | _ => 0

end Binary64
end StrategyDesk
