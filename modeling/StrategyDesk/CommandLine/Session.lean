import StrategyDesk.CommandLine.Arguments
import StrategyDesk.CommandLine.Report
import StrategyDesk.Csv.Files
import StrategyDesk.Ini.DeskSettings
import StrategyDesk.Ini.File
import StrategyDesk.Ini.StrategySettings
import StrategyDesk.Json.Printer
import StrategyDesk.Json.Trading
import StrategyDesk.Live.Schedule
import StrategyDesk.Service.Backtest
import StrategyDesk.Service.Store

/-!
This module contains the carrying out of what arguments ask for. Strategies are kept in memory for
as long as the session goes on, and candles come from files.
-/

namespace StrategyDesk
namespace CommandLine

structure Outside (m : Type → Type) where
  readText : String → m (Except ReadError String)
  say : String → m Unit
  remark : String → m Unit
  now : m Instant
  freshId : m String
  wait : Nat → m Unit

structure Desk where
  store : Store
  signals : List (Signal Float)

abbrev Session (m : Type → Type) (α : Type) := ExceptT Failure (ExceptT Fault (StateT Desk m)) α

namespace Session

variable {m : Type → Type} [Monad m]

def host (outside : Outside m) (directory : String) : Host (StateT Desk m)
  | .find id => return .ok ((← get).store.find? id)
  | .list status => return .ok ((← get).store.withStatus status)
  | .save s =>
    modifyGet fun desk =>
      match desk.store.save s with
      | .ok (store, version) => (.ok version, { desk with store })
      | .error f => (.error f, desk)
  | .publish _ => return .ok ()
  | .fetch q => liftM (Csv.fetchCandles outside.readText directory q)
  | .submit signal =>
    modifyGet fun desk => (.ok (), { desk with signals := signal :: desk.signals })
  | .now => liftM outside.now
  | .giveWay => return

def outer {α : Type} (x : m α) : Session m α :=
  ExceptT.lift (liftM x)

def say (outside : Outside m) (lines : List String) : Session m Unit :=
  lines.forM fun line => outer (outside.say line)

def remark (outside : Outside m) (lines : List String) : Session m Unit :=
  lines.forM fun line => outer (outside.remark line)

def ofExcept {α : Type} (x : Except Failure α) : Session m α :=
  ExceptT.mk (return x)

def counted {α : Type} (x : Except Fault α) : Session m α :=
  ExceptT.lift (ExceptT.mk (return x))

def serve {α : Type} (outside : Outside m) (directory : String) (x : Service α) : Session m α :=
  ExceptT.mk (ExceptT.mk (x.run.run (host outside directory)))

def document (outside : Outside m) (path : String) : Session m Ini.Document := do
  ofExcept (← outer (Ini.load outside.readText path))

def settings (outside : Outside m) : Option String → Session m DeskSettings
  | none => return .default
  | some path => do
    remark outside [s!"Loading config from {path}"]
    ofExcept (← document outside path).readDesk

def strategy (outside : Outside m) (path : String) : Session m (Config Float) := do
  remark outside [s!"Loading strategy from {path}"]
  match (← document outside path).readStrategy with
  | .ok cfg => return cfg
  | .error refusal =>
    remark outside refusal.notice.toList
    throw refusal.failure

def time? (option : String) : Option String → Except Failure (Option Instant)
  | none => .ok none
  | some raw =>
    match Instant.read? raw.toList with
    | some t => .ok (some t)
    | none => .error (.invalid option s!"'{raw}' is not a date or timestamp")

def overridden (s : DeskSettings) (o : Overrides) : Except Failure DeskSettings := do
  let start ← time? "--start" o.start
  let stop ← time? "--end" o.stop
  return { s with
    candleDirectory := o.data.getD s.candleDirectory
    start := start <|> s.start
    stop := stop <|> s.stop
    capital := o.capital.getD s.capital }

def validate (outside : Outside m) (path : String) : Session m Unit := do
  let cfg ← strategy outside path
  say outside (heading cfg)
  cfg.indicators.forM fun ki => do
    say outside [indicatorLine ki (← counted (Counted.minCandles ki.indicator))]
  say outside (ruleLines cfg.rules)
  say outside [s!"Required candles: {← counted (Counted.requiredCandles cfg)}"]
  remark outside (warnings cfg)
  say outside ["", "Strategy configuration is valid."]

def owner : String := "cli"

def test (outside : Outside m) (directory : String) (cfg : Config Float)
    (r : BacktestRequest Float) : Session m Strategy := do
  let id ← outer outside.freshId
  let created ← serve outside directory (Service.create id owner cfg)
  serve outside directory (Service.backtest created.id r)

def backtest (outside : Outside m) (path : String) (s : DeskSettings) (json : Bool) :
    Session m Unit := do
  let cfg ← strategy outside path
  let r ← ofExcept s.request
  let tested ← test outside s.candleDirectory cfg r
  if json then
    say outside [(toJson tested.result).pretty]
  else
    say outside (summary tested)

def ticks (outside : Outside m) (s : DeskSettings) (now : Instant) (number : Nat) :
    Nat → Session m Unit
  | 0 => return
  | count + 1 => do
    if number ≠ 1 then
      outer (outside.wait s.tickInterval)
    let tick := Live.runTick (host outside s.candleDirectory) (fun _ => 0) s.live now
    let (report, _) ← ExceptT.mk (ExceptT.mk tick)
    say outside [tickLine number report]
    ticks outside s now (number + 1) count

def live (outside : Outside m) (path : String) (s : DeskSettings) (count : Nat) :
    Session m Unit := do
  ofExcept s.live.validate
  let cfg ← strategy outside path
  let r ← ofExcept s.request
  let tested ← test outside s.candleDirectory cfg r
  say outside (summary tested)
  if tested.status ≠ .backtestPassed then
    remark outside ["Backtest did not pass; strategy not activated."]
  else
    discard (serve outside s.candleDirectory (Service.activate tested.id))
    ticks outside s r.stop 1 count
    let signals := (← get).signals.reverse
    say outside (signals.map fun signal => (toJson signal).compact)
    discard (serve outside s.candleDirectory (Service.stop tested.id))

def carryOut (outside : Outside m) : Action → Session m Unit
  | .validate path => validate outside path
  | .backtest path config overrides json => do
    let s ← ofExcept (overridden (← settings outside config) overrides)
    backtest outside path s json
  | .live path config data count => do
    let s ← ofExcept (overridden (← settings outside config) { data })
    live outside path s count

end Session

def Action.run {m : Type → Type} [Monad m] (outside : Outside m) (action : Action) :
    m (Except Fault Nat) := do
  let (r, _) ← (Session.carryOut outside action).run.run.run { store := .empty, signals := [] }
  match r with
  | .ok (.ok ()) => return .ok 0
  | .ok (.error f) =>
    outside.remark s!"error: {f.message}"
    return .ok f.exitCode
  | .error fault => return .error fault

end CommandLine
end StrategyDesk
