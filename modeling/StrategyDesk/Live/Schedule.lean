import StrategyDesk.Live.Tick

/-!
This module contains the carrying out of ticks on a clock that counts milliseconds. Candles take
their time to arrive, all else takes none.
-/

namespace StrategyDesk
namespace Live

structure Appointment where
  due : Nat
  task : Nat
  rest : Option (Program (Except Failure Bool))

namespace Appointment

def insert (a : Appointment) : List Appointment → List Appointment
  | [] => [a]
  | b :: rest => if b.due ≤ a.due then b :: a.insert rest else a :: b :: rest

def make (settings : LiveSettings) (clock task delay : Nat)
    (rest : Program (Except Failure Bool)) : Appointment :=
  if delay ≤ settings.pairTimeout then
    { due := clock + delay, task, rest := some rest }
  else
    { due := clock + settings.pairTimeout, task, rest := none }

end Appointment

namespace Tick

variable {m : Type → Type} [Monad m]

def complete (host : Host m) (t : Tick) (i : Nat) :
    Option (Program (Except Failure Bool)) → m Tick
  | some rest => do
    return (t.resume i (.ofExcept (← rest.run host))).step (.count i)
  | none => return (t.step (.expire i)).step (.count i)

def carryOn (host : Host m) (delayOf : CandleRequest → Nat) :
    Nat → Tick → Nat → List Appointment → m (Tick × Nat)
  | 0, t, clock, _ => return (t, clock)
  | rounds + 1, t, clock, agenda => do
    if t.isComplete then
      return (t, clock)
    else if t.settings.tickDeadline ≤ clock then
      return (t.step .deadline, clock)
    else
      match t.admissible? with
      | some i =>
        let t := t.step (.enter i)
        match t.progress? i with
        | some (.working (.ask (.fetch q) next)) =>
          let reply ← host (.fetch q)
          let a := Appointment.make t.settings clock i (delayOf q) (next reply)
          carryOn host delayOf rounds t clock (a.insert agenda)
        | some (.working p) =>
          carryOn host delayOf rounds (← t.complete host i (some p)) clock agenda
        | _ => carryOn host delayOf rounds (t.step (.count i)) clock agenda
      | none =>
        match agenda with
        | [] => return (t, clock)
        | a :: agenda =>
          if t.settings.tickDeadline ≤ a.due then
            return (t.step .deadline, t.settings.tickDeadline)
          else
            carryOn host delayOf rounds (← t.complete host a.task a.rest) a.due agenda

def carryOut (host : Host m) (delayOf : CandleRequest → Nat) (t : Tick) : m (Tick × Nat) :=
  carryOn host delayOf (2 * t.tasks.length + 1) t 0 []

end Tick

variable {m : Type → Type} [Monad m]

def runTick (host : Host m) (delayOf : CandleRequest → Nat) (settings : LiveSettings)
    (now : Instant) : m (Except Fault (Except Failure (Report × Nat))) := do
  match ← (Service.withStatus .active).run.run host with
  | .error fault => return .error fault
  | .ok (.error f) => return .ok (.error f)
  | .ok (.ok strategies) =>
    match Tick.start? settings now (Pair.ofStrategies strategies) with
    | .error fault => return .error fault
    | .ok t =>
      let (t, elapsed) ← t.carryOut host delayOf
      return .ok (.ok (t.report, elapsed))

def tolerance : Nat := 5

/--
When the next tick is due after one that was due at a time and began at another. Ticks that were
missed are left out; the others keep to the grid of periods.
-/
def nextDue (period due began : Nat) : Nat :=
  if due + tolerance < began then began + period - (began - due) % period else due + period

def tickUntil (tick : m Nat) (period stop : Nat) : Nat → Nat → Nat → m Nat
  | 0, clock, _ => return clock
  | rounds + 1, clock, due => do
    let began := max clock due
    if stop ≤ began then
      return max clock stop
    else
      tickUntil tick period stop rounds (began + (← tick)) (nextDue period due began)

def runUntil (tick : m Nat) (period stop : Nat) : m Nat :=
  tickUntil tick period stop (stop / period + 2) 0 0

end Live
end StrategyDesk
