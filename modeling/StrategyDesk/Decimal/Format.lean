import StrategyDesk.Decimal.Shortest

/-!
This module contains the written forms of numbers. Messages and rules use the plain form, JSON texts
the form with a marked fraction or exponent, and reports a fixed number of places.
-/

namespace StrategyDesk
namespace Decimal

def digitsOf (n : Nat) : List Char :=
  Nat.toDigits 10 n

def zeros (n : Nat) : List Char :=
  List.replicate n '0'

def positional (d : Decimal) : List Char :=
  let ds := digitsOf d.digits
  if 0 ≤ d.power then
    ds ++ zeros d.power.toNat
  else
    let places := (-d.power).toNat
    if places < ds.length then
      ds.take (ds.length - places) ++ '.' :: ds.drop (ds.length - places)
    else
      '0' :: '.' :: zeros (places - ds.length) ++ ds

def scientific (d : Decimal) : List Char :=
  let ds := digitsOf d.digits
  let e : Int := d.power + ds.length - 1
  let mantissa := match ds with
    | [] => []
    | [c] => [c]
    | c :: rest => c :: '.' :: rest
  mantissa ++ 'e' :: (if e < 0 then '-' else '+') :: digitsOf e.natAbs

def withSign (negative : Bool) (s : List Char) : List Char :=
  if negative then '-' :: s else s

/--
The plain form of a double: the shortest digits that read back, never an exponent, and no fraction
on whole numbers. Of two shortest decimals that are equally near the greater one is taken.
-/
def plain (x : Float) : String :=
  String.ofList <| match Binary64.ofFloat x with
  | .notANumber => ['N', 'a', 'N']
  | .infinite negative => withSign negative ['i', 'n', 'f']
  | .finite negative mantissa exponent =>
    withSign negative <|
      if mantissa = 0 then ['0'] else (shortest .up mantissa exponent).positional

/--
The form of a finite double in JSON: positional with a fraction from `1e-5` up to below `1e16`, with
an exponent elsewhere. Of two shortest decimals that are equally near the even one is taken.
-/
def marked (negative : Bool) (mantissa : Nat) (exponent : Int) : List Char :=
  withSign negative <|
    if mantissa = 0 then
      ['0', '.', '0']
    else
      let d := shortest .even mantissa exponent
      let places : Int := d.power + (digitsOf d.digits).length
      if -5 < places && places ≤ 16 then
        if 0 ≤ d.power then d.positional ++ ['.', '0'] else d.positional
      else
        d.scientific

def twoPlaces (x : Float) : String :=
  String.ofList <| match Binary64.ofFloat x with
  | .notANumber => ['N', 'a', 'N']
  | .infinite negative => withSign negative ['i', 'n', 'f']
  | .finite negative mantissa exponent =>
    let (num, den) := Binary64.fraction mantissa 2 exponent
    let hundredths := Binary64.roundHalfEven (num * 100) den
    let cents := digitsOf (hundredths % 100)
    withSign negative (digitsOf (hundredths / 100) ++ '.' :: zeros (2 - cents.length) ++ cents)

end Decimal
end StrategyDesk
