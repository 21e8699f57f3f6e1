import StrategyDesk.Service.Program

/-!
This module contains the services that lead a stored strategy through its life. Each of them loads
the strategy, performs one operation on it and saves it again. Events are published only once the
strategy was saved.
-/

namespace StrategyDesk
namespace Service

def load (id : String) : Service Strategy := do
  match ← stored? id with
  | some s => return s
  | none => throw (.notFound id)

def announceAll : List Event → Service Unit
  | [] => return
  | e :: rest => do
    announce e
    announceAll rest

def persist (s : Strategy) : Service Strategy := do
  let version ← commit s
  announceAll s.pending
  return (s.saved version).published

def create (id ownerId : String) (cfg : Config Float) : Service Strategy := do
  let s ← ofExcept (Strategy.create id ownerId cfg (← currentTime))
  persist s

def transition (id : String) (command : Command) : Service Strategy := do
  let s ← load id
  let s ← ofExcept (s.perform command (← currentTime))
  persist s

def activate (id : String) : Service Strategy :=
  transition id .activate

def pause (id : String) : Service Strategy :=
  transition id .pause

def stop (id : String) : Service Strategy :=
  transition id .stop

def updateConfiguration (id : String) (cfg : Config Float) : Service Strategy :=
  transition id (.updateConfiguration cfg)

end Service
end StrategyDesk
