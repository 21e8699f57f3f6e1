import StrategyDesk.Count
import StrategyDesk.Market.Request
import StrategyDesk.Signal
import StrategyDesk.Strategy.Basic

/-!
This module contains the programs that services are. A program is carried out step by step; each
step asks something of the surroundings, and between two steps others may act on these.
-/

namespace StrategyDesk

inductive Request where
  | find (id : String)
  | list (status : Status)
  | save (s : Strategy)
  | publish (e : Event)
  | fetch (q : CandleRequest)
  | submit (signal : Signal Float)
  | now
  | giveWay

@[reducible]
def Request.Reply : Request → Type
  | .find _ => Except Failure (Option Strategy)
  | .list _ => Except Failure (List Strategy)
  | .save _ => Except Failure Nat
  | .publish _ => Except Failure Unit
  | .fetch _ => Except Failure (List (Candle Float))
  | .submit _ => Except Failure Unit
  | .now => Instant
  | .giveWay => Unit

/--
An answer, or a request together with how to go on from each reply to it. A program that has crashed
gives no answer and asks nothing any more.
-/
inductive Program (α : Type) where
  | done (a : α)
  | ask (r : Request) (next : r.Reply → Program α)
  | crash (fault : Fault)

abbrev Host (m : Type → Type) := (r : Request) → m r.Reply

namespace Program

variable {α β : Type}

def bind (p : Program α) (f : α → Program β) : Program β :=
  match p with
  | .done a => f a
  | .ask r next => .ask r fun reply => (next reply).bind f
  | .crash fault => .crash fault

instance : Monad Program where
  pure := .done
  bind := bind

def run {m : Type → Type} [Monad m] (host : Host m) : Program α → m (Except Fault α)
  | .done a => return .ok a
  | .ask r next => do (next (← host r)).run host
  | .crash fault => return .error fault

def step (replies : Host Id) : Program α → Program α
  | .done a => .done a
  | .ask r next => next (replies r)
  | .crash fault => .crash fault

def ofExcept : Except Fault α → Program α
  | .ok a => .done a
  | .error fault => .crash fault

end Program

abbrev Service := ExceptT Failure Program

namespace Service

variable {α : Type}

def ofExcept (x : Except Failure α) : Service α :=
  ExceptT.mk (.done x)

def counted (x : Except Fault α) : Service α :=
  ExceptT.mk (.ofExcept (x.map .ok))

def stored? (id : String) : Service (Option Strategy) :=
  ExceptT.mk (.ask (.find id) .done)

def withStatus (status : Status) : Service (List Strategy) :=
  ExceptT.mk (.ask (.list status) .done)

def commit (s : Strategy) : Service Nat :=
  ExceptT.mk (.ask (.save s) .done)

/-- Publishes an event. It does not matter whether it arrives. -/
def announce (e : Event) : Service Unit :=
  ExceptT.mk (.ask (.publish e) fun _ => .done (.ok ()))

def candles (q : CandleRequest) : Service (List (Candle Float)) :=
  ExceptT.mk (.ask (.fetch q) .done)

def submit (signal : Signal Float) : Service Unit :=
  ExceptT.mk (.ask (.submit signal) .done)

def currentTime : Service Instant :=
  ExceptT.mk (.ask .now fun t => .done (.ok t))

def giveWay : Service Unit :=
  ExceptT.mk (.ask .giveWay fun _ => .done (.ok ()))

def attempt (x : Service α) : Service (Except Failure α) :=
  ExceptT.mk (x.run.bind fun r => .done (.ok r))

end Service
end StrategyDesk
