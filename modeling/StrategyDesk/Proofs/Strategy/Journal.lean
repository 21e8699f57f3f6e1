import StrategyDesk.Proofs.Strategy.Release

/-!
This module contains the journal of a strategy: the events that were taken from it to be published,
and behind them those that are still pending. The journal alone tells the status of the strategy, all
of its times but that of the last edit, and what the last verdict on it was.
-/

namespace StrategyDesk

namespace Change

def statusAfter (before : Option Status) : Change → Option Status
  | .created _ => some .draft
  | .backtestStarted => some .backtesting
  | .backtestCompleted passed _ _ => some (if passed then .backtestPassed else .backtestFailed)
  | .backtestFailed _ => some .backtestFailed
  | .activated => some .active
  | .paused => some .paused
  | .stopped => some .stopped
  | .configurationUpdated _ => before

def isVerdict : Change → Bool
  | .backtestCompleted .. | .backtestFailed _ => true
  | _ => false

def isActivation : Change → Bool
  | .activated => true
  | _ => false

def isStop : Change → Bool
  | .stopped => true
  | _ => false

def Judges (change : Change) (r : BacktestResult Float) : Prop :=
  match change with
  | .backtestCompleted _ total profit => r.totalTrades = total ∧ r.profitability = profit
  | .backtestFailed reason => ∃ capital, r = .failed capital reason
  | _ => False

end Change

abbrev Journal := List Event

namespace Journal

def status? (log : Journal) : Option Status :=
  log.foldl (fun status e => e.change.statusAfter status) none

def last? (kind : Change → Bool) (log : Journal) : Option Event :=
  (log.filter fun e => kind e.change).getLast?

def lastTime? (kind : Change → Bool) (log : Journal) : Option Instant :=
  (log.last? kind).map Event.time

variable {log : Journal} {e : Event} {kind : Change → Bool}

theorem status?_concat : status? (log ++ [e]) = e.change.statusAfter log.status? := by
  simp [status?]

theorem last?_concat :
    last? kind (log ++ [e]) = if kind e.change then some e else log.last? kind := by
  unfold last?
  rw [List.filter_append, List.filter_cons]
  split
  . apply List.getLast?_concat
  . simp

theorem lastTime?_concat :
    lastTime? kind (log ++ [e]) = if kind e.change then some e.time else log.lastTime? kind := by
  unfold lastTime?
  rw [last?_concat]
  split
  . rfl
  . rfl

end Journal

namespace Strategy

open Journal

def takenBy (s : Strategy) : Deed → List Event
  | .publish => s.pending
  | _ => []

def taken (s : Strategy) : List Deed → List Event
  | [] => []
  | deed :: deeds => s.takenBy deed ++ (s.after deed).taken deeds

def journal (s : Strategy) (deeds : List Deed) : Journal :=
  s.taken deeds ++ (s.live deeds).pending

structure ToldBy (s : Strategy) (log : Journal) : Prop where
  status : log.status? = some s.status
  updatedAt : log.getLast?.map Event.time = some s.updatedAt
  testedAt : log.lastTime? Change.isVerdict = s.testedAt
  activatedAt : log.lastTime? Change.isActivation = s.activatedAt
  stoppedAt : log.lastTime? Change.isStop = s.stoppedAt
  result : match log.last? Change.isVerdict with
    | none => s.result = none
    | some e => ∃ r, s.result = some r ∧ e.change.Judges r

variable {s t : Strategy} {command : Command} {now : Instant} {last : Option Verdict}
  {log : Journal}

theorem toldBy_of_create {id ownerId : String} {cfg : Config Float}
    (h : create id ownerId cfg now = .ok s) : s.ToldBy s.pending := by
  obtain ⟨_, _, rfl⟩ := create_eq_ok_iff.mp h
  constructor <;> rfl

theorem ToldBy.perform (h : s.ToldBy log) (hsound : s.Sound last)
    (hperform : s.perform command now = .ok t) :
    t.ToldBy (log ++ [{ strategyId := s.id, change := s.changeOf now command, time := now }]) := by
  obtain ⟨hallowed, _, rfl⟩ := perform_eq_ok_iff.mp hperform
  have hresult := h.result
  constructor
  . -- the change names the status that the operation sets
    rw [status?_concat, h.status]
    cases command <;> rfl
  . rw [List.getLast?_concat]
    rfl
  . rw [lastTime?_concat, h.testedAt]
    cases command <;> rfl
  . rw [lastTime?_concat, h.activatedAt]
    cases command <;> rfl
  . rw [lastTime?_concat, h.stoppedAt]
    cases command with
    | activate =>
      -- there is no time of a stop to be erased, as nothing leads out of a stop
      have hstopped := hsound.not_stopped (ne_stopped_of_isAllowed hallowed (by rintro ⟨⟩))
      simpa [changeOf, changedBy, record, Change.isStop] using hstopped
    | _ => rfl
  . rw [last?_concat]
    cases command with
    | completeBacktest result => exact ⟨result, rfl, rfl, rfl⟩
    | failBacktest reason capital => exact ⟨_, rfl, capital, rfl⟩
    | _ => exact hresult

theorem ToldBy.after (h : s.ToldBy (log ++ s.pending)) (hsound : s.Sound last) (deed : Deed) :
    (s.after deed).ToldBy (log ++ s.takenBy deed ++ (s.after deed).pending) := by
  cases deed with
  | perform command now =>
    have htaken : s.takenBy (.perform command now) = [] := rfl
    rw [htaken, List.append_nil]
    cases hperform : s.perform command now with
    | ok t =>
      rw [after_of_perform hperform, pending_of_perform hperform, ← List.append_assoc]
      exact h.perform hsound hperform
    | error f =>
      rw [after_of_refused hperform]
      exact h
  | save version =>
    have htaken : s.takenBy (.save version) = [] := rfl
    rw [htaken, List.append_nil]
    exact ⟨h.status, h.updatedAt, h.testedAt, h.activatedAt, h.stoppedAt, h.result⟩
  | publish =>
    -- the events move from the pending ones to those that were taken
    have hpending : (s.after .publish).pending = [] := rfl
    rw [hpending, List.append_nil]
    exact ⟨h.status, h.updatedAt, h.testedAt, h.activatedAt, h.stoppedAt, h.result⟩

theorem ToldBy.live (h : s.ToldBy (log ++ s.pending)) (hsound : s.Sound last) (deeds : List Deed) :
    (s.live deeds).ToldBy (log ++ s.journal deeds) := by
  induction deeds generalizing s log last with
  | nil => exact h
  | cons deed deeds ih =>
    have hlater := ih (h.after hsound deed) (hsound.after deed)
    have hjournal : s.journal (deed :: deeds) = s.takenBy deed ++ (s.after deed).journal deeds :=
      List.append_assoc _ _ _
    rw [hjournal, ← List.append_assoc]
    exact hlater

theorem live_concat (deeds : List Deed) (deed : Deed) :
    s.live (deeds ++ [deed]) = (s.live deeds).after deed := by
  simp [live]

theorem taken_concat (deeds : List Deed) (deed : Deed) :
    s.taken (deeds ++ [deed]) = s.taken deeds ++ (s.live deeds).takenBy deed := by
  induction deeds generalizing s with
  | nil =>
    unfold taken
    rw [List.nil_append]
    exact List.append_nil _
  | cons first deeds ih =>
    simp only [List.cons_append, taken, ih, List.append_assoc]
    rfl

theorem journal_of_refused {deeds : List Deed} {f : Failure}
    (h : (s.live deeds).perform command now = .error f) :
    s.journal (deeds ++ [.perform command now]) = s.journal deeds := by
  unfold journal
  rw [taken_concat, live_concat, after_of_refused h]
  exact congrArg (· ++ (s.live deeds).pending) (List.append_nil _)

/--
Whatever is done to a strategy in its life, and whenever its events are taken, its journal leads to
its status. The strategy was updated at the last event, and it was tested, activated and stopped at
the last event of that kind, or never if there is none. The last verdict is the one on its result.
An operation that is refused changes neither the strategy nor the journal.
-/
theorem journal_tells {id ownerId : String} {cfg : Config Float}
    (h : create id ownerId cfg now = .ok s) (deeds : List Deed) :
    let t := s.live deeds
    let log := s.journal deeds
    log.status? = some t.status ∧
    log.getLast?.map Event.time = some t.updatedAt ∧
    log.lastTime? Change.isVerdict = t.testedAt ∧
    log.lastTime? Change.isActivation = t.activatedAt ∧
    log.lastTime? Change.isStop = t.stoppedAt ∧
    (match log.last? Change.isVerdict with
      | none => t.result = none
      | some e => ∃ r, t.result = some r ∧ e.change.Judges r) ∧
    ∀ command later f, t.perform command later = .error f →
      s.live (deeds ++ [.perform command later]) = t ∧
      s.journal (deeds ++ [.perform command later]) = log := by
  intro t log
  have hcreated : s.ToldBy ([] ++ s.pending) := toldBy_of_create h
  have htold : t.ToldBy log := hcreated.live (sound_of_create h) deeds
  refine ⟨htold.status, htold.updatedAt, htold.testedAt, htold.activatedAt, htold.stoppedAt,
    htold.result, ?_⟩
  intro command later f hrefused
  constructor
  . rw [live_concat]
    exact after_of_refused hrefused
  . exact journal_of_refused hrefused

def recordedLife (cfg : Config Float) (now : Instant) : List Deed :=
  [.perform .activate now, .perform .startBacktest now, .publish,
    .perform (.completeBacktest winningResult) now, .perform .activate now, .save 2,
    .perform (.updateConfiguration cfg) now, .publish, .perform .pause now,
    .perform (.updateConfiguration cfg) { seconds := 60 }]

theorem journal_of_recordedLife :
    let now : Instant := { seconds := 0 }
    let deeds := recordedLife (crossingConfig ["ETH"]) now
    ∃ s, create "s" "owner" (crossingConfig ["BTC"]) now = .ok s ∧
      (s.journal deeds).map (fun e => e.change.name) =
        ["created", "backtest_started", "backtest_completed", "activated", "paused",
          "configuration_updated"] ∧
      (s.journal deeds).status? = some (s.live deeds).status := by
  intro now deeds
  have hnames : (create "s" "owner" (crossingConfig ["BTC"]) now).toOption.map
      (fun s => (s.journal deeds).map fun e => e.change.name) =
        some ["created", "backtest_started", "backtest_completed", "activated", "paused",
          "configuration_updated"] := by
    decide +kernel
  obtain ⟨s, hs, hnames⟩ := exists_ok_of_toOption hnames
  exact ⟨s, hs, hnames, (journal_tells hs deeds).1⟩

end Strategy
end StrategyDesk
