import StrategyDesk.Live.Schedule
import StrategyDesk.Service.Backtest
import StrategyDesk.Service.Store

/-!
This module contains rehearsals of the services. On a stage candles come from a script, with delays
and failures, the store fails where the script says so, and the clock moves only while someone
waits.
-/

namespace StrategyDesk
namespace Rehearsal

structure Script where
  candlesOf : String → List (Candle Float)
  errorOf : String → Option String
  delayOf : String → Nat
  windowed : Bool
  failingSaves : List Nat
  failingFinds : List Nat
  failLists : Bool

structure Edit where
  due : Nat
  id : String
  config : Config Float
  isWaiting : Bool

structure Stage where
  script : Script
  store : Store
  saves : Nat
  finds : Nat
  isChannelOpen : Bool
  rejectsSignals : Bool
  events : List Event
  requests : List CandleRequest
  signals : List (Signal Float)
  clock : Nat
  stamps : Nat
  edit : Option Edit
  edited : Option (Except Fault (Except Failure Strategy))

abbrev Play := StateM Stage

namespace Stage

def start (script : Script) (isChannelOpen : Bool) : Stage where
  script
  store := .empty
  saves := 0
  finds := 0
  isChannelOpen
  rejectsSignals := false
  events := []
  requests := []
  signals := []
  clock := 0
  stamps := 0
  edit := none
  edited := none

def clear (stage : Stage) : Stage :=
  { stage with events := [], requests := [], signals := [], clock := 0, rejectsSignals := false }

end Stage

def diskFull : Failure := .repository "disk full"

def dayTime (stamps : Nat) : Instant where
  seconds := 1785000000
  nanos := 1000 * stamps

def find (id : String) : Play (Except Failure (Option Strategy)) :=
  modifyGet fun stage =>
    let finds := stage.finds + 1
    (if stage.script.failingFinds.contains finds then .error diskFull
      else .ok (stage.store.find? id), { stage with finds })

def list (status : Status) : Play (Except Failure (List Strategy)) := do
  let stage ← get
  if stage.script.failLists then return .error diskFull
  else return .ok (stage.store.withStatus status)

def save (s : Strategy) : Play (Except Failure Nat) :=
  modifyGet fun stage =>
    let stage := { stage with saves := stage.saves + 1 }
    if stage.script.failingSaves.contains stage.saves then
      (.error diskFull, stage)
    else
      match stage.store.save s with
      | .ok (store, version) => (.ok version, { stage with store })
      | .error f => (.error f, stage)

def publish (e : Event) : Play (Except Failure Unit) :=
  modifyGet fun stage =>
    if stage.isChannelOpen then
      (.ok (), { stage with events := e :: stage.events })
    else
      (.error (.eventPublish s!"event channel closed, dropped {e.change.name} event"), stage)

def fetch (q : CandleRequest) : Play (Except Failure (List (Candle Float))) :=
  modifyGet fun stage =>
    let cs := stage.script.candlesOf q.symbol
    let answer := match stage.script.errorOf q.symbol with
      | some reason => .error (.candleData reason)
      | none => .ok (if stage.script.windowed then cs.filter (q.window.contains ·.time) else cs)
    (answer, { stage with requests := q :: stage.requests })

def submit (signal : Signal Float) : Play (Except Failure Unit) :=
  modifyGet fun stage =>
    if stage.rejectsSignals then
      (.error (.orderSubmission "rejected"), stage)
    else
      (.ok (), { stage with signals := signal :: stage.signals })

def now : Play Instant :=
  modifyGet fun stage => (dayTime stage.stamps, { stage with stamps := stage.stamps + 1 })

def promptHost : Host Play
  | .find id => find id
  | .list status => list status
  | .save s => save s
  | .publish e => publish e
  | .fetch q => fetch q
  | .submit signal => submit signal
  | .now => now
  | .giveWay => pure ()

def makeEdit : Play Unit := do
  match (← get).edit with
  | none => return
  | some e =>
    modify fun stage => { stage with edit := none }
    let r ← (Service.updateConfiguration e.id e.config).run.run promptHost
    modify fun stage => { stage with edited := some r }

def makeDueEdit : Play Unit := do
  let stage ← get
  match stage.edit with
  | some e => if e.due ≤ stage.clock then makeEdit
  | none => return

/--
Waits for a time, and lets a pending change be made meanwhile. Of two who wait for one moment the
one who began first goes first.
-/
def wait (delay : Nat) : Play Unit := do
  if delay = 0 then
    return
  let stage ← get
  let ending := stage.clock + delay
  match stage.edit with
  | some e =>
    if e.due < ending || (e.due = ending && e.isWaiting) then
      makeEdit
    else
      modify fun stage => { stage with edit := some { e with isWaiting := true } }
  | none => pure ()
  modify fun stage => { stage with clock := ending }

def host : Host Play
  | .fetch q => do
    let cs ← fetch q
    wait ((← get).script.delayOf q.symbol)
    return cs
  | .giveWay => makeDueEdit
  | r => promptHost r

def perform {α : Type} (x : Service α) : Play (Except Fault (Except Failure α)) :=
  x.run.run host

def editedBacktest (id : String) (r : BacktestRequest Float) (e : Edit) :
    Play (Except Fault (Except Failure Strategy) ×
      Option (Except Fault (Except Failure Strategy))) := do
  modify fun stage => { stage with edit := some e, edited := none }
  let answer ← perform (Service.backtest id r)
  makeEdit
  return (answer, (← get).edited)

def tick (settings : LiveSettings) (now : Instant) :
    Play (Except Fault (Except Failure (Live.Report × Nat))) := do
  let script := (← get).script
  Live.runTick promptHost (fun q => script.delayOf q.symbol) settings now

def timedTick (settings : LiveSettings) : ExceptT Fault Play Nat := do
  match ← ExceptT.mk (tick settings (← now)) with
  | .ok (_, elapsed) => return elapsed
  | .error _ => return 0

end Rehearsal
end StrategyDesk
