import StrategyDesk.Live.Pair

/-!
This module contains ticks. In a tick every active strategy is looked at with each of its symbols.
The pairs are worked on side by side, as far as there are permits; a pair that takes too long is
given up, and so are all that are left when the deadline of the tick comes. A pair counts when its
outcome is collected.
-/

namespace StrategyDesk
namespace Live

inductive Outcome where
  | signal
  | quiet
  | failed
  | timedOut
  deriving Repr, DecidableEq

def Outcome.ofResult : Except Failure Bool → Outcome
  | .ok true => .signal
  | .ok false => .quiet
  | .error _ => .failed

inductive Progress where
  | waiting
  | working (rest : Program (Except Failure Bool))
  | finished (outcome : Outcome)
  | counted (outcome : Outcome)
  /--
  The deadline of the tick came before the outcome was counted. Nobody waits for what is left of the
  work, but it may go on for a while, and even begin.
  -/
  | cutOff (rest : Option (Program (Except Failure Bool)))

namespace Progress

def isWaiting : Progress → Bool
  | .waiting => true
  | _ => false

def isWorking : Progress → Bool
  | .working _ => true
  | _ => false

def isCounted : Progress → Bool
  | .counted _ => true
  | _ => false

def isCutOff : Progress → Bool
  | .cutOff _ => true
  | _ => false

def ofProgram : Program (Except Failure Bool) → Progress
  | .done r => .finished (.ofResult r)
  | .crash _ => .finished .failed
  | p => .working p

def enter (work : Program (Except Failure Bool)) : Progress → Progress
  | .waiting => .ofProgram work
  | progress => progress

def proceed (replies : Host Id) : Progress → Progress
  | .working p => .ofProgram (p.step replies)
  | .cutOff rest => .cutOff (rest.map (Program.step replies))
  | progress => progress

def breakOff (outcome : Outcome) : Progress → Progress
  | .working _ => .finished outcome
  | progress => progress

def count : Progress → Progress
  | .finished outcome => .counted outcome
  | progress => progress

def cut (work : Program (Except Failure Bool)) : Progress → Progress
  | .waiting => .cutOff (some (.ask .giveWay fun _ => work))
  | .working p => .cutOff (some p)
  | .finished _ => .cutOff none
  | progress => progress

end Progress

structure Task where
  pair : Pair
  progress : Progress

structure Tick where
  settings : LiveSettings
  now : Instant
  tasks : List Task

structure Report where
  pairs : Nat
  signals : Nat
  failures : Nat
  timedOut : Nat
  deriving Repr, DecidableEq

namespace Tick

def start (settings : LiveSettings) (now : Instant) (pairs : List Pair) : Tick where
  settings
  now
  tasks := pairs.map fun pair => { pair, progress := .waiting }

def progress? (t : Tick) (i : Nat) : Option Progress :=
  (t.tasks[i]?).map Task.progress

def resume (t : Tick) (i : Nat) (rest : Program (Except Failure Bool)) : Tick :=
  { t with tasks := t.tasks.modify i fun task =>
    match task.progress with
    | .working _ => { task with progress := .ofProgram rest }
    | _ => task }

def permits (t : Tick) : Nat :=
  max t.settings.maxConcurrency 1

/-- The most permits that there can be. -/
def maxPermits : Nat := maxCount / 8

def start? (settings : LiveSettings) (now : Instant) (pairs : List Pair) : Except Fault Tick :=
  let t := start settings now pairs
  if t.permits ≤ maxPermits then .ok t else .error .tooManyPermits

def hasPermit (t : Tick) : Bool :=
  (t.tasks.filter fun task => task.progress.isWorking).length < t.permits

def admissible? (t : Tick) : Option Nat :=
  if t.hasPermit then
    t.tasks.findIdx? fun task => task.progress.isWaiting
  else
    none

inductive Move where
  | enter (i : Nat)
  | proceed (i : Nat) (replies : Host Id)
  | expire (i : Nat)
  | panic (i : Nat)
  | count (i : Nat)
  | deadline

def Move.concerns (j : Nat) : Move → Bool
  | .enter i | .proceed i _ | .expire i | .panic i | .count i => i == j
  | .deadline => true

end Tick

def Task.moved (settings : LiveSettings) (now : Instant) (task : Task) : Tick.Move → Task
  | .enter _ => { task with progress := task.progress.enter (task.pair.work settings now) }
  | .proceed _ replies => { task with progress := task.progress.proceed replies }
  | .expire _ => { task with progress := task.progress.breakOff .timedOut }
  | .panic _ => { task with progress := task.progress.breakOff .failed }
  | .count _ => { task with progress := task.progress.count }
  | .deadline => { task with progress := task.progress.cut (task.pair.work settings now) }

namespace Tick

def step (t : Tick) (m : Move) : Tick :=
  { t with tasks := t.tasks.mapIdx fun i task =>
    if m.concerns i then task.moved t.settings t.now m else task }

def countOf (t : Tick) (outcome : Outcome) : Nat :=
  (t.tasks.filter fun task =>
    match task.progress with
    | .counted o => o == outcome
    | _ => false).length

def cutOffs (t : Tick) : Nat :=
  (t.tasks.filter fun task => task.progress.isCutOff).length

def isComplete (t : Tick) : Bool :=
  t.tasks.all fun task => task.progress.isCounted

def report (t : Tick) : Report where
  pairs := t.tasks.length
  signals := t.countOf .signal
  failures := t.countOf .failed
  timedOut := t.countOf .timedOut + t.cutOffs

end Tick
end Live
end StrategyDesk
