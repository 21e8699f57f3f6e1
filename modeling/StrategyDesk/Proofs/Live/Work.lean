import StrategyDesk.Live.Tick
import Mathlib.Data.List.Basic

/-!
This module contains the work on a single pair in a tick: which requests it makes, and how far it can
be when some of them were made. However the work ends, it has handed over one signal at most.
-/

namespace StrategyDesk

def Request.signal? : Request → Option (Signal Float)
  | .submit signal => some signal
  | _ => none

namespace Program

variable {α : Type}

def request? : Program α → Option Request
  | .ask r _ => some r
  | .done _ | .crash _ => none

def signals (p : Program α) : List (Signal Float) :=
  p.request?.toList.filterMap Request.signal?

end Program

namespace Live

inductive Deed where
  | asked (i : Nat) (r : Request)
  | counted (i : Nat) (outcome : Outcome)

namespace Deed

def place : Deed → Nat
  | .asked i _ | .counted i _ => i

def signal? : Deed → Option (Signal Float)
  | .asked _ r => r.signal?
  | .counted .. => none

def outcome? : Deed → Option Outcome
  | .counted _ outcome => some outcome
  | _ => none

end Deed

namespace Progress

def request? : Progress → Option Request
  | .working p => p.request?
  | .cutOff rest => rest.bind Program.request?
  | _ => none

def signals (progress : Progress) : List (Signal Float) :=
  progress.request?.toList.filterMap Request.signal?

def asks (i : Nat) (progress : Progress) : List Deed :=
  progress.request?.toList.map (.asked i)

@[simp]
theorem signal?_asks (i : Nat) (progress : Progress) :
    (progress.asks i).filterMap Deed.signal? = progress.signals := by
  unfold asks signals
  rw [List.filterMap_map]
  rfl

@[simp]
theorem outcome?_asks (i : Nat) (progress : Progress) :
    (progress.asks i).filterMap Deed.outcome? = [] := by
  unfold asks
  cases progress.request? <;> rfl

theorem exists_ofExcept (x : Except Fault (Except Failure Bool)) :
    ∃ outcome, ofProgram (.ofExcept x) = .finished outcome := by
  cases x with
  | ok r => exact ⟨.ofResult r, rfl⟩
  | error fault => exact ⟨.failed, rfl⟩

theorem signals_ofProgram (p : Program (Except Failure Bool)) :
    (ofProgram p).signals = p.signals := by
  cases p <;> rfl

end Progress

namespace Task

def deeds (settings : LiveSettings) (now : Instant) (i : Nat) (task : Task) (m : Tick.Move) :
    List Deed :=
  match m with
  | .enter _ =>
    if task.progress.isWaiting then (task.moved settings now m).progress.asks i else []
  | .proceed _ _ =>
    if task.progress.request?.isSome then (task.moved settings now m).progress.asks i else []
  | .count _ =>
    match task.progress with
    | .finished outcome => [.counted i outcome]
    | _ => []
  | .deadline =>
    if task.progress.isCounted || task.progress.isCutOff then [] else [.counted i .timedOut]
  | .expire _ | .panic _ => []

/--
Whether a move leaves alone who hands a signal over: the signal is accepted, and the work is neither
given up nor broken off before that.
-/
def AtOnce (task : Task) : Tick.Move → Prop
  | .proceed _ replies => ∀ signal, task.progress.request? = some (.submit signal) →
    replies (.submit signal) = .ok ()
  | .expire _ | .panic _ => ∀ signal, task.progress.request? ≠ some (.submit signal)
  | _ => True

end Task

namespace Pair

variable {pair : Pair} {settings : LiveSettings} {now : Instant}

def handOver (signal : Signal Float) : Program (Except Failure Bool) :=
  .ask (.submit signal) fun reply => .done (reply.map fun _ => true)

def afterCandles (pair : Pair) (now : Instant) :
    Except Failure (List (Candle Float)) → Program (Except Failure Bool)
  | .error f => .done (.error f)
  | .ok cs => (pair.react cs now).run

def latest (pair : Pair) (now : Instant) (cs : List (Candle Float)) :
    Except Failure (Option (Signal Float)) :=
  Signal.latest pair.strategy.id pair.strategy.config pair.symbol cs now

theorem work_of_isReachable (h : pair.isReachable settings now = true) :
    (pair.work settings now).run =
      .ask (.fetch (pair.request settings now)) (pair.afterCandles now) := by
  unfold work
  rw [if_pos h]
  show Program.ask _ _ = _
  congr 1
  funext reply
  cases reply <;> rfl

theorem work_of_not_isReachable (h : pair.isReachable settings now = false) :
    (pair.work settings now).run =
      .done (.error (.candleData "the window begins before the calendar does")) := by
  unfold work
  rw [h]
  rfl

theorem afterCandles_of_error {cs : List (Candle Float)} {f : Failure}
    (h : pair.latest now cs = .error f) : pair.afterCandles now (.ok cs) = .done (.error f) := by
  unfold latest at h
  unfold afterCandles react
  dsimp only
  rw [h]
  rfl

theorem afterCandles_of_none {cs : List (Candle Float)} (h : pair.latest now cs = .ok none) :
    pair.afterCandles now (.ok cs) = .done (.ok false) := by
  unfold latest at h
  unfold afterCandles react
  dsimp only
  rw [h]
  rfl

theorem afterCandles_of_some {cs : List (Candle Float)} {signal : Signal Float}
    (h : pair.latest now cs = .ok (some signal)) :
    pair.afterCandles now (.ok cs) = handOver signal := by
  unfold latest at h
  unfold afterCandles react
  dsimp only
  rw [h]
  show Program.ask _ _ = Program.ask _ _
  congr 1
  funext reply
  cases reply <;> rfl

def Offers (pair : Pair) (now : Instant) (signal : Signal Float) : Prop :=
  ∃ cs, pair.latest now cs = .ok (some signal)

theorem strategyId_of_offers {signal : Signal Float} (h : pair.Offers now signal) :
    signal.strategyId = pair.strategy.id ∧ signal.symbol = pair.symbol := by
  obtain ⟨cs, hcs⟩ := h
  unfold latest Signal.latest at hcs
  simp only [bind, Except.bind] at hcs
  repeat' split at hcs
  all_goals cases hcs
  exact ⟨rfl, rfl⟩

/--
What can be left of the work on a pair, with the signals that it has handed over. They are taken as
soon as they are handed over if that is `prompt`.
-/
inductive Rest (prompt : Prop) (pair : Pair) (settings : LiveSettings) (now : Instant) :
    Program (Except Failure Bool) → List (Signal Float) → Prop
  | queued : Rest prompt pair settings now (.ask .giveWay fun _ => (pair.work settings now).run) []
  | fetching :
    Rest prompt pair settings now
      (.ask (.fetch (pair.request settings now)) (pair.afterCandles now)) []
  | submitting {signal} : pair.Offers now signal →
    Rest prompt pair settings now (handOver signal) [signal]
  | failed (f) : Rest prompt pair settings now (.done (.error f)) []
  | quiet : Rest prompt pair settings now (.done (.ok false)) []
  | submitted {signal} (reply : Except Failure Unit) : pair.Offers now signal →
    (prompt → reply = .ok ()) →
      Rest prompt pair settings now (.done (reply.map fun _ => true)) [signal]

structure Ended (prompt : Prop) (pair : Pair) (now : Instant) (outcome : Outcome)
    (signals : List (Signal Float)) : Prop where
  atMostOne : signals.length ≤ 1
  offered : ∀ signal ∈ signals, pair.Offers now signal
  submitted : outcome = .signal → signals ≠ []
  taken : prompt → signals ≠ [] → outcome = .signal

inductive Stands (prompt : Prop) (pair : Pair) (settings : LiveSettings) (now : Instant) :
    Progress → List (Signal Float) → List Outcome → Prop
  | waiting : Stands prompt pair settings now .waiting [] []
  | working {p signals} : Rest prompt pair settings now p signals → p.request?.isSome = true →
    Stands prompt pair settings now (.working p) signals []
  | finished {outcome signals} : Ended prompt pair now outcome signals →
    Stands prompt pair settings now (.finished outcome) signals []
  | counted {outcome signals} : Ended prompt pair now outcome signals →
    Stands prompt pair settings now (.counted outcome) signals [outcome]
  | cutOff {rest signals} : (∀ p, rest = some p → Rest prompt pair settings now p signals) →
    Ended False pair now .timedOut signals →
      Stands prompt pair settings now (.cutOff rest) signals [.timedOut]

variable {prompt : Prop} {p : Program (Except Failure Bool)} {signals : List (Signal Float)}
  {replies : Host Id}

theorem Rest.offered (h : Rest prompt pair settings now p signals) :
    signals.length ≤ 1 ∧ ∀ signal ∈ signals, pair.Offers now signal := by
  cases h with
  | queued => exact ⟨Nat.zero_le 1, nofun⟩
  | fetching => exact ⟨Nat.zero_le 1, nofun⟩
  | submitting hoffers => exact ⟨Nat.le_refl 1, by simpa using hoffers⟩
  | failed f => exact ⟨Nat.zero_le 1, nofun⟩
  | quiet => exact ⟨Nat.zero_le 1, nofun⟩
  | submitted reply hoffers _ => exact ⟨Nat.le_refl 1, by simpa using hoffers⟩

theorem Rest.ended_of_done {r : Except Failure Bool}
    (h : Rest prompt pair settings now (.done r) signals) :
    Ended prompt pair now (.ofResult r) signals := by
  obtain ⟨hone, hoffered⟩ := h.offered
  cases h with
  | failed f => exact ⟨hone, hoffered, nofun, fun _ h => absurd rfl h⟩
  | quiet => exact ⟨hone, hoffered, nofun, fun _ h => absurd rfl h⟩
  | submitted reply _ hprompt =>
    refine ⟨hone, hoffered, fun _ => List.cons_ne_nil _ _, ?_⟩
    intro h _
    rw [hprompt h]
    rfl

theorem Rest.ended {outcome : Outcome} (h : Rest prompt pair settings now p signals)
    (hne : outcome ≠ .signal) (hopen : prompt → signals = []) :
    Ended prompt pair now outcome signals where
  atMostOne := h.offered.1
  offered := h.offered.2
  submitted houtcome := absurd houtcome hne
  taken hprompt hsome := absurd (hopen hprompt) hsome

theorem rest_afterCandles (reply : Except Failure (List (Candle Float))) :
    Rest prompt pair settings now (pair.afterCandles now reply)
      (pair.afterCandles now reply).signals := by
  cases reply with
  | error f => exact .failed f
  | ok cs =>
    cases hlatest : pair.latest now cs with
    | error f =>
      rw [afterCandles_of_error hlatest]
      exact .failed f
    | ok signal? =>
      cases signal? with
      | none =>
        rw [afterCandles_of_none hlatest]
        exact .quiet
      | some signal =>
        rw [afterCandles_of_some hlatest]
        exact .submitting ⟨cs, hlatest⟩

theorem rest_work : Rest prompt pair settings now (pair.work settings now).run
    (pair.work settings now).run.signals := by
  cases h : pair.isReachable settings now with
  | true =>
    rw [work_of_isReachable h]
    exact .fetching
  | false =>
    rw [work_of_not_isReachable h]
    exact .failed _

theorem Rest.step (h : Rest prompt pair settings now p signals) (hp : p.request?.isSome = true)
    (hprompt : prompt → ∀ signal, p.request? = some (.submit signal) →
      replies (.submit signal) = .ok ()) :
    Rest prompt pair settings now (p.step replies) (signals ++ (p.step replies).signals) := by
  cases h with
  | queued => exact rest_work
  | fetching => exact rest_afterCandles _
  | submitting hoffers =>
    rw [show (Program.step replies (handOver _)).signals = [] from rfl, List.append_nil]
    exact .submitted _ hoffers fun h => hprompt h _ rfl
  | failed f => cases hp
  | quiet => cases hp
  | submitted reply hoffers htaken => cases hp

theorem Rest.eq_nil_of_not_submitting (h : Rest prompt pair settings now p signals)
    (hp : p.request?.isSome = true) (hnot : ∀ signal, p.request? ≠ some (.submit signal)) :
    signals = [] := by
  cases h with
  | queued => rfl
  | fetching => rfl
  | submitting _ => exact absurd rfl (hnot _)
  | failed f => rfl
  | quiet => rfl
  | submitted reply _ _ => cases hp

theorem Rest.mono {prompt' : Prop} (himp : prompt' → prompt)
    (h : Rest prompt pair settings now p signals) : Rest prompt' pair settings now p signals := by
  cases h with
  | queued => exact .queued
  | fetching => exact .fetching
  | submitting hoffers => exact .submitting hoffers
  | failed f => exact .failed f
  | quiet => exact .quiet
  | submitted reply hoffers htaken => exact .submitted reply hoffers fun h => htaken (himp h)

theorem stands_ofProgram (h : Rest prompt pair settings now p signals) :
    Stands prompt pair settings now (.ofProgram p) signals [] := by
  cases p with
  | done r => exact .finished h.ended_of_done
  | ask r next => exact .working h rfl
  | crash fault => cases h

theorem Rest.ended_of_cut (h : Rest prompt pair settings now p signals) :
    Ended False pair now .timedOut signals :=
  (h.mono False.elim).ended nofun False.elim

variable {progress : Progress} {counts : List Outcome}

theorem Stands.ended (h : Stands prompt pair settings now progress signals counts) :
    ∃ outcome, Ended False pair now outcome signals := by
  cases h with
  | waiting => exact ⟨.timedOut, Nat.zero_le 1, nofun, nofun, nofun⟩
  | working hrest _ => exact ⟨.timedOut, hrest.ended_of_cut⟩
  | finished hended => exact ⟨_, hended.atMostOne, hended.offered, hended.submitted, False.elim⟩
  | counted hended => exact ⟨_, hended.atMostOne, hended.offered, hended.submitted, False.elim⟩
  | cutOff _ hended => exact ⟨_, hended⟩

theorem Stands.idle (h : Stands prompt pair settings now progress signals counts) :
    Stands prompt pair settings now progress (signals ++ ([] : List Deed).filterMap Deed.signal?)
      (counts ++ ([] : List Deed).filterMap Deed.outcome?) := by
  rw [List.filterMap_nil, List.filterMap_nil, List.append_nil, List.append_nil]
  exact h

theorem Stands.asks (i : Nat) {next : Progress}
    (h : Stands prompt pair settings now next (signals ++ next.signals) counts) :
    Stands prompt pair settings now next (signals ++ (next.asks i).filterMap Deed.signal?)
      (counts ++ (next.asks i).filterMap Deed.outcome?) := by
  rw [Progress.signal?_asks, Progress.outcome?_asks, List.append_nil]
  exact h

theorem Stands.cut (h : Rest prompt pair settings now p signals) :
    Stands prompt pair settings now (.cutOff (some p)) (signals ++ []) [.timedOut] := by
  rw [List.append_nil]
  refine .cutOff ?_ h.ended_of_cut
  rintro _ ⟨⟩
  exact h

theorem Stands.breakOff {outcome : Outcome}
    (h : Stands prompt pair settings now progress signals counts) (hne : outcome ≠ .signal)
    (hopen : prompt → ∀ signal, progress.request? ≠ some (.submit signal)) :
    Stands prompt pair settings now (progress.breakOff outcome) signals counts := by
  cases h with
  | waiting => exact .waiting
  | working hrest hp =>
    exact .finished (hrest.ended hne fun h => hrest.eq_nil_of_not_submitting hp (hopen h))
  | finished hended => exact .finished hended
  | counted hended => exact .counted hended
  | cutOff hrest hended => exact .cutOff hrest hended

section Moves

variable {task : Task} (h : Stands prompt task.pair settings now task.progress signals counts)

include h

theorem Stands.enter (i j : Nat) :
    Stands prompt task.pair settings now (task.moved settings now (.enter j)).progress
      (signals ++ (task.deeds settings now i (.enter j)).filterMap Deed.signal?)
      (counts ++ (task.deeds settings now i (.enter j)).filterMap Deed.outcome?) := by
  obtain ⟨pair, progress⟩ := task
  cases h with
  | waiting =>
    have hwork : Stands prompt pair settings now (.ofProgram (pair.work settings now).run)
        ([] ++ (Progress.ofProgram (pair.work settings now).run).signals) [] := by
      rw [Progress.signals_ofProgram]
      exact stands_ofProgram rest_work
    exact hwork.asks i
  | working hrest hp => exact (Stands.working hrest hp).idle
  | finished hended => exact (Stands.finished hended).idle
  | counted hended => exact (Stands.counted hended).idle
  | cutOff hrest hended => exact (Stands.cutOff hrest hended).idle

theorem Stands.proceed (i j : Nat) (hprompt : prompt → task.AtOnce (.proceed j replies)) :
    Stands prompt task.pair settings now (task.moved settings now (.proceed j replies)).progress
      (signals ++ (task.deeds settings now i (.proceed j replies)).filterMap Deed.signal?)
      (counts ++ (task.deeds settings now i (.proceed j replies)).filterMap Deed.outcome?) := by
  obtain ⟨pair, progress⟩ := task
  cases h with
  | waiting => exact Stands.waiting.idle
  | @working p signals hrest hp =>
    have hdeeds : Task.deeds settings now i ⟨pair, .working p⟩ (.proceed j replies) =
        (Progress.ofProgram (p.step replies)).asks i := if_pos hp
    have hstep : Stands prompt pair settings now (.ofProgram (p.step replies))
        (signals ++ (Progress.ofProgram (p.step replies)).signals) [] := by
      rw [Progress.signals_ofProgram]
      exact stands_ofProgram (hrest.step hp hprompt)
    rw [hdeeds]
    exact hstep.asks i
  | finished hended => exact (Stands.finished hended).idle
  | counted hended => exact (Stands.counted hended).idle
  | @cutOff rest signals hrest hended =>
    cases rest with
    | none => exact (Stands.cutOff hrest hended).idle
    | some p =>
      cases p with
      | done r => exact (Stands.cutOff hrest hended).idle
      | ask r next =>
        -- work that is cut off goes on like any other, but is not counted any more
        have hstep := (hrest _ rfl).step rfl hprompt
        have hcut : Stands prompt pair settings now
            (.cutOff (some ((Program.ask r next).step replies)))
            (signals ++ ((Program.ask r next).step replies).signals) [.timedOut] := by
          refine .cutOff ?_ hstep.ended_of_cut
          rintro _ ⟨⟩
          exact hstep
        exact hcut.asks i
      | crash fault => cases hrest _ rfl

theorem Stands.count (i j : Nat) :
    Stands prompt task.pair settings now (task.moved settings now (.count j)).progress
      (signals ++ (task.deeds settings now i (.count j)).filterMap Deed.signal?)
      (counts ++ (task.deeds settings now i (.count j)).filterMap Deed.outcome?) := by
  obtain ⟨pair, progress⟩ := task
  cases h with
  | waiting => exact Stands.waiting.idle
  | working hrest hp => exact (Stands.working hrest hp).idle
  | finished hended =>
    show Stands prompt pair settings now (.counted _) (_ ++ []) _
    rw [List.append_nil]
    exact .counted hended
  | counted hended => exact (Stands.counted hended).idle
  | cutOff hrest hended => exact (Stands.cutOff hrest hended).idle

theorem Stands.deadline (i : Nat) :
    Stands prompt task.pair settings now (task.moved settings now .deadline).progress
      (signals ++ (task.deeds settings now i .deadline).filterMap Deed.signal?)
      (counts ++ (task.deeds settings now i .deadline).filterMap Deed.outcome?) := by
  obtain ⟨pair, progress⟩ := task
  cases h with
  | waiting => exact Stands.cut .queued
  | working hrest hp => exact Stands.cut hrest
  | finished hended =>
    show Stands prompt pair settings now (.cutOff _) (_ ++ []) _
    rw [List.append_nil]
    exact .cutOff nofun ⟨hended.atMostOne, hended.offered, nofun, nofun⟩
  | counted hended => exact (Stands.counted hended).idle
  | cutOff hrest hended => exact (Stands.cutOff hrest hended).idle

theorem Stands.moved (m : Tick.Move) (hprompt : prompt → task.AtOnce m) (i : Nat) :
    Stands prompt task.pair settings now (task.moved settings now m).progress
      (signals ++ (task.deeds settings now i m).filterMap Deed.signal?)
      (counts ++ (task.deeds settings now i m).filterMap Deed.outcome?) := by
  cases m with
  | enter j => exact h.enter i j
  | proceed j replies => exact h.proceed i j hprompt
  | expire j =>
    have hended : Stands prompt task.pair settings now (task.progress.breakOff .timedOut) signals
        counts := h.breakOff nofun hprompt
    exact hended.idle
  | panic j =>
    have hended : Stands prompt task.pair settings now (task.progress.breakOff .failed) signals
        counts := h.breakOff nofun hprompt
    exact hended.idle
  | count j => exact h.count i j
  | deadline => exact h.deadline i

end Moves

end Pair
end Live
end StrategyDesk
