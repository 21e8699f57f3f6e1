import StrategyDesk.Decimal.Format
import StrategyDesk.Decimal.Reader

/-!
This module contains the operations that prices and amounts are computed with. The desk runs on
doubles, but the definitions on prices ask for no more than these operations, so they can be read in
exact arithmetic as well.
-/

namespace StrategyDesk

class Arithmetic (α : Type) extends
    Add α, Sub α, Mul α, Div α, Neg α, LT α, LE α, BEq α where
  decidableLT : DecidableLT α
  decidableLE : DecidableLE α
  ofNat : Nat → α
  abs : α → α
  sqrt : α → α
  /-- Stands for an unbounded number. Exact arithmetic has none and may take any number for it. -/
  infinity : α
  isNaN : α → Bool
  isFinite : α → Bool
  text : α → String

instance (priority := low) Arithmetic.instDecidableLT {α : Type} [Arithmetic α] : DecidableLT α :=
  Arithmetic.decidableLT

instance (priority := low) Arithmetic.instDecidableLE {α : Type} [Arithmetic α] : DecidableLE α :=
  Arithmetic.decidableLE

instance (priority := low) {α : Type} [Arithmetic α] {n : Nat} : OfNat α n where
  ofNat := Arithmetic.ofNat n

namespace Arithmetic

def floatOfNat (n : Nat) : Float :=
  if n < Nat.pow 2 53 then Float.ofNat n else Binary64.nearest false n 1

instance : Arithmetic Float where
  decidableLT := inferInstance
  decidableLE := inferInstance
  ofNat := floatOfNat
  abs := Float.abs
  sqrt := Float.sqrt
  infinity := 1.0 / 0.0
  isNaN x := !(x == x)
  isFinite x := match Binary64.ofFloat x with
    | .finite .. => true
    | _ => false
  text := Decimal.plain

variable {α : Type} [Arithmetic α]

def least (a b : α) : α :=
  if a < b then a else if isNaN b then a else b

def greatest (a b : α) : α :=
  if b < a then a else if isNaN b then a else b

/-- The sum of a list, from left to right, starting from the negative zero. -/
def sum (xs : List α) : α :=
  xs.foldl (· + ·) (-0)

def mean (xs : List α) : α :=
  sum xs / ofNat xs.length

end Arithmetic
end StrategyDesk
