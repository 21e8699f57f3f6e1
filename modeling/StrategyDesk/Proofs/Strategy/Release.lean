import StrategyDesk.Proofs.Backtest.Rounds
import StrategyDesk.Proofs.Strategy.Operations

/-!
This module contains what holds of a strategy throughout its life, whatever is done to it and in
whatever order. It gets and keeps a status on which it trades, or may be made to trade, only by the
last verdict on it, which it passed under the limits of that moment.
-/

namespace StrategyDesk

theorem BacktestResult.passes_iff {α : Type} [Arithmetic α] {r : BacktestResult α} {limit : α} :
    r.passes limit = true ↔
      r.error = none ∧ 0 < r.profitability ∧ 40 ≤ r.winRate ∧ r.maxDrawdown ≤ limit := by
  unfold passes
  simp only [Bool.and_eq_true, decide_eq_true_eq, Option.isNone_iff_eq_none, and_assoc]

inductive Deed where
  | perform (command : Command) (now : Instant)
  | save (version : Nat)
  | publish

structure Verdict where
  result : BacktestResult Float
  limit : Float

namespace Strategy

def after (s : Strategy) : Deed → Strategy
  | .perform command now => (s.operate command now).2
  | .save version => s.saved version
  | .publish => s.published

def live (s : Strategy) (deeds : List Deed) : Strategy :=
  deeds.foldl after s

def verdict? (s : Strategy) : Deed → Option Verdict
  | .perform (.completeBacktest result) now =>
    match s.perform (.completeBacktest result) now with
    | .ok _ => some { result, limit := s.config.risk.maxDrawdown }
    | .error _ => none
  | _ => none

def verdicts (s : Strategy) : List Deed → List Verdict
  | [] => []
  | deed :: deeds => (s.verdict? deed).toList ++ (s.after deed).verdicts deeds

structure Sound (s : Strategy) (last : Option Verdict) : Prop where
  valid : s.config.validate = .ok ()
  passed : s.status ∈ [.backtestPassed, .active, .paused, .stopped] →
    ∃ v, last = some v ∧ s.result = some v.result ∧ v.result.passes v.limit = true
  activated : s.status = .active → s.activatedAt.isSome = true
  stopped : s.stoppedAt.isSome = true ↔ s.status = .stopped

variable {s t : Strategy} {command : Command} {now : Instant} {last : Option Verdict}

theorem after_of_perform (h : s.perform command now = .ok t) :
    s.after (.perform command now) = t :=
  congrArg Prod.snd (operate_of_ok h)

theorem after_of_refused {f : Failure} (h : s.perform command now = .error f) :
    s.after (.perform command now) = s :=
  congrArg Prod.snd (operate_of_error h)

theorem sound_of_create {id ownerId : String} {cfg : Config Float}
    (h : create id ownerId cfg now = .ok s) : s.Sound none := by
  obtain ⟨_, hvalid, rfl⟩ := create_eq_ok_iff.mp h
  exact ⟨hvalid, by simp, nofun, by simp⟩

theorem verdict?_of_perform (h : s.perform command now = .ok t) :
    s.verdict? (.perform command now) =
      match command with
      | .completeBacktest result => some { result, limit := s.config.risk.maxDrawdown }
      | _ => none := by
  cases command with
  | completeBacktest result =>
    unfold verdict?
    dsimp only
    rw [h]
  | _ => rfl

theorem verdict?_of_error {f : Failure} (h : s.perform command now = .error f) :
    s.verdict? (.perform command now) = none := by
  cases command with
  | completeBacktest result =>
    unfold verdict?
    dsimp only
    rw [h]
  | _ => rfl

theorem Sound.not_stopped (h : s.Sound last) (hstatus : s.status ≠ .stopped) :
    ¬ s.stoppedAt.isSome = true := by
  rw [h.stopped]
  exact hstatus

theorem ne_stopped_of_isAllowed (h : command.operation.isAllowed s.status = true)
    (hoperation : command.operation ≠ .updateConfiguration) : s.status ≠ .stopped := by
  intro hstatus
  rw [hstatus] at h
  cases command with
  | updateConfiguration cfg => exact hoperation rfl
  | _ => cases h

theorem Sound.perform (h : s.Sound last) (hperform : s.perform command now = .ok t) :
    t.Sound ((s.verdict? (.perform command now)).or last) := by
  rw [verdict?_of_perform hperform]
  obtain ⟨hallowed, hvalid, rfl⟩ := perform_eq_ok_iff.mp hperform
  cases command with
  | startBacktest =>
    have hstopped := h.not_stopped (ne_stopped_of_isAllowed hallowed (by rintro ⟨⟩))
    refine ⟨h.valid, by simp [record, changedBy], by rintro ⟨⟩, ?_⟩
    simpa [record, changedBy] using hstopped
  | completeBacktest result =>
    have hstopped := h.not_stopped (ne_stopped_of_isAllowed hallowed (by rintro ⟨⟩))
    refine ⟨h.valid, ?_, ?_, ?_⟩
    . intro hstatus
      refine ⟨_, rfl, rfl, ?_⟩
      -- the status tells whether the result passed
      by_contra hfailed
      simp [record, changedBy, hfailed] at hstatus
    . simp only [record, changedBy]
      split <;> rintro ⟨⟩
    . simp only [record, changedBy]
      split <;> simpa using hstopped
  | failBacktest reason capital =>
    have hstopped := h.not_stopped (ne_stopped_of_isAllowed hallowed (by rintro ⟨⟩))
    refine ⟨h.valid, by simp [record, changedBy], by rintro ⟨⟩, ?_⟩
    simpa [record, changedBy] using hstopped
  | activate =>
    have hreleased : s.status ∈ [.backtestPassed, .active, .paused, .stopped] := by
      revert hallowed
      cases s.status <;> simp [Command.operation, Operation.isAllowed]
    exact ⟨h.valid, fun _ => h.passed hreleased, fun _ => rfl, by simp [record, changedBy]⟩
  | pause =>
    have hactive : s.status = .active := by simpa [Command.operation, Operation.isAllowed] using hallowed
    have hstopped := h.not_stopped (ne_stopped_of_isAllowed hallowed (by rintro ⟨⟩))
    refine ⟨h.valid, fun _ => h.passed (by simp [hactive]), by rintro ⟨⟩, ?_⟩
    simpa [record, changedBy] using hstopped
  | stop =>
    have hreleased : s.status ∈ [.backtestPassed, .active, .paused, .stopped] := by
      revert hallowed
      cases s.status <;> simp [Command.operation, Operation.isAllowed]
    exact ⟨h.valid, fun _ => h.passed hreleased, by rintro ⟨⟩, by simp [record, changedBy]⟩
  | updateConfiguration cfg => exact ⟨hvalid, h.passed, h.activated, h.stopped⟩

theorem Sound.after (h : s.Sound last) (deed : Deed) :
    (s.after deed).Sound ((s.verdict? deed).or last) := by
  cases deed with
  | perform command now =>
    cases hperform : s.perform command now with
    | ok t =>
      rw [after_of_perform hperform]
      exact h.perform hperform
    | error f =>
      rw [after_of_refused hperform, verdict?_of_error hperform]
      exact h
  | save version => exact ⟨h.valid, h.passed, h.activated, h.stopped⟩
  | publish => exact ⟨h.valid, h.passed, h.activated, h.stopped⟩

theorem Sound.live (h : s.Sound last) (deeds : List Deed) :
    (s.live deeds).Sound ((s.verdicts deeds).getLast?.or last) := by
  induction deeds generalizing s last with
  | nil => exact h
  | cons deed deeds ih =>
    -- the last verdict is one on the later deeds, or else the one that the first deed has brought
    have hlater := ih (h.after deed)
    unfold verdicts
    rw [List.getLast?_append, Option.or_assoc]
    cases hverdict : s.verdict? deed with
    | none =>
      rw [hverdict] at hlater
      exact hlater
    | some v =>
      rw [hverdict] at hlater
      exact hlater

theorem config_after_of_active (h : s.status = .active) (deed : Deed) :
    (s.after deed).config = s.config := by
  cases deed with
  | perform command now =>
    cases hperform : s.perform command now with
    | ok t =>
      rw [after_of_perform hperform]
      obtain ⟨hallowed, _, rfl⟩ := perform_eq_ok_iff.mp hperform
      cases command with
      | updateConfiguration cfg =>
        rw [h] at hallowed
        cases hallowed
      | _ => rfl
    | error f => rw [after_of_refused hperform]
  | save version => rfl
  | publish => rfl

/--
Whatever is done to a strategy in its life, its configuration is valid. It is ready to trade, trades,
or has traded, only by the last verdict on it, which left it with the result that passed under the
limit of that moment. The time of its stop is known just when it is stopped, and while it trades its
configuration stays as it is.
-/
theorem released_only_when_passed {id ownerId : String} {cfg : Config Float}
    (h : create id ownerId cfg now = .ok s) (deeds : List Deed) :
    let t := s.live deeds
    t.config.validate = .ok () ∧
    (t.status ∈ [.backtestPassed, .active, .paused, .stopped] →
      ∃ v, (s.verdicts deeds).getLast? = some v ∧ t.result = some v.result ∧
        v.result.error = none ∧ 0 < v.result.profitability ∧ 40 ≤ v.result.winRate ∧
        v.result.maxDrawdown ≤ v.limit) ∧
    (t.status = .active → t.activatedAt.isSome = true) ∧
    (t.stoppedAt.isSome = true ↔ t.status = .stopped) ∧
    (t.status = .active → ∀ deed, (t.after deed).config = t.config) := by
  intro t
  have hsound := (sound_of_create h).live deeds
  rw [Option.or_none] at hsound
  refine ⟨hsound.valid, ?_, hsound.activated, hsound.stopped, config_after_of_active⟩
  intro hstatus
  obtain ⟨v, hlast, hresult, hpasses⟩ := hsound.passed hstatus
  exact ⟨v, hlast, hresult, BacktestResult.passes_iff.mp hpasses⟩

def winningResult : BacktestResult Float where
  initialCapital := 1000
  finalCapital := 1050
  totalTrades := 1
  winningTrades := 1
  losingTrades := 0
  winRate := 100
  profitability := 5
  maxDrawdown := 0
  trades := []
  error := none

def sampleLife (now : Instant) : List Deed :=
  [.perform .startBacktest now, .perform (.failBacktest "no candles" 1000) now,
    .perform .startBacktest now, .perform (.completeBacktest winningResult) now,
    .perform .activate now, .save 5, .publish, .perform .stop now]

theorem released_after_second_backtest :
    let now : Instant := { seconds := 0 }
    ∃ s, create "s" "owner" (crossingConfig ["BTC"]) now = .ok s ∧
      (s.live (sampleLife now)).status = .stopped ∧
      ∃ v, (s.verdicts (sampleLife now)).getLast? = some v ∧ 0 < v.result.profitability := by
  intro now
  have hstatus : (create "s" "owner" (crossingConfig ["BTC"]) now).toOption.map
      (fun s => (s.live (sampleLife now)).status) = some .stopped := by
    decide +kernel
  obtain ⟨s, hs, hstatus⟩ := exists_ok_of_toOption hstatus
  obtain ⟨_, hreleased, _⟩ := released_only_when_passed hs (sampleLife now)
  obtain ⟨v, hlast, _, _, hprofit, _⟩ := hreleased (by rw [hstatus]; decide)
  exact ⟨s, hs, hstatus, v, hlast, hprofit⟩

end Strategy
end StrategyDesk
