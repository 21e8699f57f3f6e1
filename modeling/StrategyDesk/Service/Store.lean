import StrategyDesk.Strategy.Basic

/-!
This module contains the store of strategies. Who saves a strategy has to know the version that is
stored, so that nobody overwrites what he has not seen.
-/

namespace StrategyDesk

structure Store where
  strategies : List Strategy

namespace Store

def empty : Store where
  strategies := []

def find? (store : Store) (id : String) : Option Strategy :=
  store.strategies.find? fun s => s.id == id

def version (store : Store) (id : String) : Nat :=
  ((store.find? id).map Strategy.version).getD 0

def put (store : Store) (s : Strategy) : Store where
  strategies := s :: store.strategies.filter fun t => t.id != s.id

/-- Saves a strategy under the next version, without its pending events. -/
def save (store : Store) (s : Strategy) : Except Failure (Store × Nat) :=
  let version := store.version s.id
  if s.version = version then
    .ok (store.put ((s.saved (version + 1)).published), version + 1)
  else
    .error (.conflict s.id s.version version)

def isEarlier (s t : Strategy) : Bool :=
  decide (s.createdAt < t.createdAt) || (s.createdAt == t.createdAt && decide (s.id ≤ t.id))

def withStatus (store : Store) (status : Status) : List Strategy :=
  (store.strategies.filter fun s => s.status == status).mergeSort isEarlier

@[simp]
theorem find?_put_self (store : Store) (s : Strategy) : (store.put s).find? s.id = some s := by
  simp [find?, put]

theorem find?_put_of_ne {store : Store} {s : Strategy} {id : String} (h : s.id ≠ id) :
    (store.put s).find? id = store.find? id := by
  simp only [find?, put]
  rw [List.find?_cons_of_neg (by simpa using h), List.find?_filter]
  congr 1
  funext t
  by_cases ht : t.id = id
  · simp [ht, Ne.symm h]
  · simp [ht]

end Store
end StrategyDesk
