import StrategyDesk.Backtest.Result
import StrategyDesk.Strategy.Config
import StrategyDesk.Strategy.Event

/-!
This module contains strategies and the operations that lead them from draft to trading. An
operation that succeeds stamps the strategy and leaves an event to be published; one that is refused
leaves the strategy as it was.
-/

namespace StrategyDesk

structure Strategy where
  id : String
  ownerId : String
  config : Config Float
  status : Status
  result : Option (BacktestResult Float)
  testedAt : Option Instant
  reconfiguredAt : Option Instant
  activatedAt : Option Instant
  stoppedAt : Option Instant
  createdAt : Instant
  updatedAt : Instant
  version : Nat
  pending : List Event

inductive Command where
  | startBacktest
  | completeBacktest (result : BacktestResult Float)
  | failBacktest (reason : String) (capital : Float)
  | activate
  | pause
  | stop
  | updateConfiguration (config : Config Float)

def Command.operation : Command → Operation
  | .startBacktest => .startBacktest
  | .completeBacktest .. => .completeBacktest
  | .failBacktest .. => .failBacktest
  | .activate => .activate
  | .pause => .pause
  | .stop => .stop
  | .updateConfiguration .. => .updateConfiguration

namespace Strategy

def checkId (id : String) : Except Failure Unit :=
  if Text.allBlank id.toList then .error (.invalid "id" "must not be empty") else .ok ()

def create (id ownerId : String) (cfg : Config Float) (now : Instant) :
    Except Failure Strategy := do
  checkId id
  cfg.validate
  return {
    id, ownerId, config := cfg
    status := .draft
    result := none
    testedAt := none
    reconfiguredAt := none
    activatedAt := none
    stoppedAt := none
    createdAt := now
    updatedAt := now
    version := 0
    pending := [{ strategyId := id, change := .created ownerId, time := now }] }

/--
Whether the configuration was changed since the backtest, and the strategy could still be activated
on its result.
-/
def isStale (s : Strategy) : Bool :=
  (s.status == .backtestPassed || s.status == .paused) &&
    match s.reconfiguredAt, s.testedAt with
    | some edited, some tested => decide (tested ≤ edited)
    | _, _ => false

def record (s : Strategy) (change : Change) (now : Instant) : Strategy :=
  { s with
    updatedAt := now
    pending := s.pending ++ [{ strategyId := s.id, change, time := now }] }

end Strategy

/-- A change of a strategy in place. What was written before it fails stays written. -/
abbrev Alteration := ExceptT Failure (StateM Strategy)

namespace Alteration

def require (op : Operation) : Alteration Unit := do
  let s ← get
  if !op.isAllowed s.status then
    throw (.badTransition s.status op)

def leave (change : Change) (now : Instant) : Alteration Unit :=
  modify fun s => s.record change now

end Alteration

namespace Command

def effect (now : Instant) : Command → Alteration Unit
  | .startBacktest => do
    modify fun s => { s with status := .backtesting }
    Alteration.leave .backtestStarted now
  | .completeBacktest result => do
    let passed := result.passes (← get).config.risk.maxDrawdown
    modify fun s => { s with status := if passed then .backtestPassed else .backtestFailed }
    modify fun s => { s with result := some result, testedAt := some now }
    Alteration.leave (.backtestCompleted passed result.totalTrades result.profitability) now
  | .failBacktest reason capital => do
    modify fun s => { s with status := .backtestFailed }
    modify fun s => { s with result := some (.failed capital reason), testedAt := some now }
    Alteration.leave (.backtestFailed reason) now
  | .activate => do
    modify fun s => { s with status := .active, activatedAt := some now, stoppedAt := none }
    Alteration.leave .activated now
  | .pause => do
    modify fun s => { s with status := .paused }
    Alteration.leave .paused now
  | .stop => do
    modify fun s => { s with status := .stopped, stoppedAt := some now }
    Alteration.leave .stopped now
  | .updateConfiguration cfg => do
    ExceptT.mk (pure cfg.validate)
    modify fun s => { s with config := cfg, reconfiguredAt := some now }
    Alteration.leave (.configurationUpdated (← get).isStale) now

def alteration (command : Command) (now : Instant) : Alteration Unit := do
  Alteration.require command.operation
  command.effect now

end Command

namespace Strategy

def operate (s : Strategy) (command : Command) (now : Instant) : Except Failure Unit × Strategy :=
  (command.alteration now).run.run s

def perform (s : Strategy) (command : Command) (now : Instant) : Except Failure Strategy :=
  match s.operate command now with
  | (.ok (), t) => .ok t
  | (.error f, _) => .error f

def saved (s : Strategy) (version : Nat) : Strategy :=
  { s with version }

def published (s : Strategy) : Strategy :=
  { s with pending := [] }

end Strategy
end StrategyDesk
