import StrategyDesk.Decimal.Shortest
import StrategyDesk.Text.Ascii

/-!
This module contains the reading of numbers. The double read is the one nearest to the number
written.
-/

namespace StrategyDesk
namespace Decimal

def digitValue (c : Char) : Nat :=
  c.toNat - '0'.toNat

def valueOf (ds : List Char) : Nat :=
  ds.foldl (fun n c => 10 * n + digitValue c) 0

def splitDigits (s : List Char) : List Char × List Char :=
  (s.takeWhile Char.isDigit, s.dropWhile Char.isDigit)

/--
The double nearest to `digits * 10 ^ power`. Powers so large or small that the number is certainly
infinite or zero are not computed.
-/
def toFloat (negative : Bool) (digits : Nat) (power : Int) : Float :=
  let size : Int := power + (Nat.toDigits 10 digits).length
  if digits = 0 || size < -400 then
    Binary64.nearest negative 0 1
  else if 400 < size then
    Binary64.nearest negative (Nat.pow 10 400) 1
  else
    let (num, den) := Binary64.fraction digits 10 power
    Binary64.nearest negative num den

def splitSign : List Char → Bool × List Char
  | '-' :: s => (true, s)
  | '+' :: s => (false, s)
  | s => (false, s)

def readExponent (s : List Char) : Option Int :=
  match s with
  | [] => some 0
  | c :: s =>
    if c = 'e' || c = 'E' then
      let (negative, ds) := splitSign s
      if ds.isEmpty || !ds.all Char.isDigit then none
      else if negative then some (-(valueOf ds : Int)) else some (valueOf ds)
    else
      none

structure Places where
  whole : List Char
  fraction : List Char
  deriving Repr, DecidableEq

def splitPlaces (s : List Char) : Places × List Char :=
  let (whole, s) := splitDigits s
  match s with
  | '.' :: s =>
    let (fraction, s) := splitDigits s
    ({ whole, fraction }, s)
  | s => ({ whole, fraction := [] }, s)

namespace Places

def isEmpty (p : Places) : Bool :=
  p.whole.isEmpty && p.fraction.isEmpty

def toFloat (p : Places) (negative : Bool) (power : Int) : Float :=
  Decimal.toFloat negative (valueOf (p.whole ++ p.fraction)) (power - p.fraction.length)

end Places

def readUnsigned (negative : Bool) (s : List Char) : Option Float :=
  let (places, s) := splitPlaces s
  if places.isEmpty then none
  else (readExponent s).map fun power => places.toFloat negative power

theorem splitDigits_length (s : List Char) : (splitDigits s).2.length ≤ s.length :=
  (List.dropWhile_sublist _).length_le

theorem splitPlaces_length (s : List Char) : (splitPlaces s).2.length ≤ s.length := by
  have h := splitDigits_length s
  simp only [splitPlaces]
  generalize splitDigits s = d at h ⊢
  obtain ⟨whole, rest⟩ := d
  match rest with
  | [] => simp
  | c :: t =>
    have := splitDigits_length t
    by_cases hc : c = '.'
    · subst hc
      simp at h ⊢
      omega
    · simpa [hc] using h

def readWord (negative : Bool) (s : List Char) : Option Float :=
  if Text.sameLetters s "nan".toList then
    some (0.0 / 0.0)
  else if Text.sameLetters s "inf".toList || Text.sameLetters s "infinity".toList then
    some (if negative then -1.0 / 0.0 else 1.0 / 0.0)
  else
    none

/--
The number that a text stands for: an optional sign, then digits with at most one point among or
beside them and an optional exponent, or one of the words `inf`, `infinity` and `nan`.
-/
def read? (s : List Char) : Option Float :=
  let (negative, s) := splitSign s
  (readWord negative s).orElse fun _ => readUnsigned negative s

def complaint (s : List Char) : String :=
  if s.isEmpty then "cannot parse float from empty string" else "invalid float literal"

end Decimal
end StrategyDesk
