/-!
This module contains counts of 64 bits and places in lists. A sum or a difference that is no such
count, or a place that a list does not have, is a fault, and nothing comes after it.
-/

namespace StrategyDesk

inductive Fault where
  | overflow
  | outOfRange
  | tooManyPermits
  deriving Repr, DecidableEq

def maxCount : Nat := Nat.pow 2 64 - 1

namespace Count

def add (a b : Nat) : Except Fault Nat :=
  if a + b ≤ maxCount then .ok (a + b) else .error .overflow

def sub (a b : Nat) : Except Fault Nat :=
  if b ≤ a then .ok (a - b) else .error .overflow

/-- The count with the same bits as a whole number of 64 bits, which may have a sign. -/
def ofInteger (n : Int) : Nat :=
  (n % Nat.pow 2 64).toNat

theorem add_of_le {a b : Nat} (h : a + b ≤ maxCount) : add a b = .ok (a + b) :=
  if_pos h

theorem add_of_lt {a b : Nat} (h : maxCount < a + b) : add a b = .error .overflow :=
  if_neg (Nat.not_le_of_lt h)

theorem sub_of_le {a b : Nat} (h : b ≤ a) : sub a b = .ok (a - b) :=
  if_pos h

end Count

namespace Place

variable {β : Type}

def entry (xs : List β) (i : Nat) : Except Fault β :=
  match xs[i]? with
  | some x => .ok x
  | none => .error .outOfRange

def upTo (xs : List β) (i : Nat) : Except Fault (List β) :=
  if i ≤ xs.length then .ok (xs.take i) else .error .outOfRange

def onwards (xs : List β) (i : Nat) : Except Fault (List β) :=
  if i ≤ xs.length then .ok (xs.drop i) else .error .outOfRange

theorem entry_of_lt {xs : List β} {i : Nat} (h : i < xs.length) : entry xs i = .ok xs[i] := by
  unfold entry
  rw [List.getElem?_eq_getElem h]

theorem upTo_of_le {xs : List β} {i : Nat} (h : i ≤ xs.length) : upTo xs i = .ok (xs.take i) :=
  if_pos h

theorem onwards_of_le {xs : List β} {i : Nat} (h : i ≤ xs.length) :
    onwards xs i = .ok (xs.drop i) :=
  if_pos h

end Place
end StrategyDesk
