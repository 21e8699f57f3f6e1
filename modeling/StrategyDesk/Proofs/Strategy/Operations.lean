import StrategyDesk.Strategy.Basic

/-!
This module contains what the operations on strategies do, apart from the conditions on which they
are allowed: an operation changes some fields, stamps the strategy and leaves one event.
-/

namespace StrategyDesk

def Command.isValid : Command → Prop
  | .updateConfiguration cfg => cfg.validate = .ok ()
  | _ => True

namespace Strategy

def changedBy (s : Strategy) (now : Instant) : Command → Strategy
  | .startBacktest => { s with status := .backtesting }
  | .completeBacktest result =>
    { s with
      status := if result.passes s.config.risk.maxDrawdown then .backtestPassed else .backtestFailed
      result := some result
      testedAt := some now }
  | .failBacktest reason capital =>
    { s with
      status := .backtestFailed
      result := some (.failed capital reason)
      testedAt := some now }
  | .activate => { s with status := .active, activatedAt := some now, stoppedAt := none }
  | .pause => { s with status := .paused }
  | .stop => { s with status := .stopped, stoppedAt := some now }
  | .updateConfiguration cfg => { s with config := cfg, reconfiguredAt := some now }

def changeOf (s : Strategy) (now : Instant) : Command → Change
  | .startBacktest => .backtestStarted
  | .completeBacktest result =>
    .backtestCompleted (result.passes s.config.risk.maxDrawdown) result.totalTrades
      result.profitability
  | .failBacktest reason _ => .backtestFailed reason
  | .activate => .activated
  | .pause => .paused
  | .stop => .stopped
  | .updateConfiguration cfg => .configurationUpdated (s.changedBy now (.updateConfiguration cfg)).isStale

variable {s t : Strategy} {command : Command} {now : Instant}

theorem effect_of_isValid (h : command.isValid) :
    (command.effect now).run.run s =
      (.ok (), (s.changedBy now command).record (s.changeOf now command) now) := by
  cases command with
  | updateConfiguration cfg =>
    have hvalid : cfg.validate = .ok () := h
    simp only [Command.effect, hvalid]
    rfl
  | _ => rfl

theorem effect_of_not_isValid (h : ¬ command.isValid) :
    ∃ f, (command.effect now).run.run s = (.error f, s) := by
  cases command with
  | updateConfiguration cfg =>
    have hinvalid : cfg.validate ≠ .ok () := h
    cases hvalidate : cfg.validate with
    | error f =>
      refine ⟨f, ?_⟩
      simp only [Command.effect, hvalidate]
      rfl
    | ok _ => exact absurd hvalidate hinvalid
  | _ => exact absurd trivial h

theorem run_require (s : Strategy) (op : Operation) :
    (Alteration.require op).run.run s =
      if op.isAllowed s.status then (.ok (), s) else (.error (.badTransition s.status op), s) := by
  show ((if !op.isAllowed s.status then throw (.badTransition s.status op) else pure () :
    Alteration Unit)).run.run s = _
  cases op.isAllowed s.status with
  | true => rfl
  | false => rfl

theorem operate_of_not_isAllowed (h : command.operation.isAllowed s.status = false) :
    s.operate command now = (.error (.badTransition s.status command.operation), s) := by
  unfold operate Command.alteration
  rw [ExceptT.run_bind, StateT.run_bind, run_require, h]
  rfl

theorem operate_of_isAllowed (h : command.operation.isAllowed s.status = true) :
    s.operate command now = (command.effect now).run.run s := by
  unfold operate Command.alteration
  rw [ExceptT.run_bind, StateT.run_bind, run_require, h]
  rfl

theorem operate_cases (s : Strategy) (command : Command) (now : Instant) :
    (command.operation.isAllowed s.status = true ∧ command.isValid ∧
      s.operate command now =
        (.ok (), (s.changedBy now command).record (s.changeOf now command) now)) ∨
    (¬ (command.operation.isAllowed s.status = true ∧ command.isValid) ∧
      ∃ f, s.operate command now = (.error f, s)) := by
  cases hallowed : command.operation.isAllowed s.status with
  | false => exact .inr ⟨by simp, _, operate_of_not_isAllowed hallowed⟩
  | true =>
    rw [operate_of_isAllowed hallowed]
    by_cases hvalid : command.isValid
    . exact .inl ⟨rfl, hvalid, effect_of_isValid hvalid⟩
    . exact .inr ⟨fun h => hvalid h.2, effect_of_not_isValid hvalid⟩

theorem perform_eq_ok_iff :
    s.perform command now = .ok t ↔
      command.operation.isAllowed s.status = true ∧ command.isValid ∧
        t = (s.changedBy now command).record (s.changeOf now command) now := by
  unfold perform
  rcases s.operate_cases command now with ⟨hallowed, hvalid, heq⟩ | ⟨hrefused, f, heq⟩
  . rw [heq]
    simp [hallowed, hvalid, eq_comm]
  . rw [heq]
    constructor
    . exact nofun
    . rintro ⟨hallowed, hvalid, _⟩
      exact absurd ⟨hallowed, hvalid⟩ hrefused

theorem perform_of_not_isAllowed (h : command.operation.isAllowed s.status = false) :
    s.perform command now = .error (.badTransition s.status command.operation) := by
  unfold perform
  rw [operate_of_not_isAllowed h]

theorem operate_of_ok (h : s.perform command now = .ok t) :
    s.operate command now = (.ok (), t) := by
  unfold perform at h
  split at h
  . next heq =>
    injection h with h
    rw [heq, h]
  . cases h

theorem operate_of_error {f : Failure} (h : s.perform command now = .error f) :
    s.operate command now = (.error f, s) := by
  unfold perform at h
  rcases s.operate_cases command now with ⟨_, _, heq⟩ | ⟨_, f', heq⟩
  . rw [heq] at h
    cases h
  . rw [heq] at h ⊢
    injection h with h
    rw [h]

theorem id_of_perform (h : s.perform command now = .ok t) : t.id = s.id := by
  obtain ⟨_, _, rfl⟩ := perform_eq_ok_iff.mp h
  cases command <;> rfl

theorem version_of_perform (h : s.perform command now = .ok t) : t.version = s.version := by
  obtain ⟨_, _, rfl⟩ := perform_eq_ok_iff.mp h
  cases command <;> rfl

theorem status_of_perform (h : s.perform command now = .ok t) :
    t.status = (s.changedBy now command).status := by
  obtain ⟨_, _, rfl⟩ := perform_eq_ok_iff.mp h
  rfl

theorem status_of_start (h : s.perform .startBacktest now = .ok t) : t.status = .backtesting :=
  status_of_perform h

theorem config_of_complete {result : BacktestResult Float}
    (h : s.perform (.completeBacktest result) now = .ok t) : t.config = s.config := by
  obtain ⟨_, _, rfl⟩ := perform_eq_ok_iff.mp h
  rfl

theorem pending_of_perform (h : s.perform command now = .ok t) :
    t.pending = s.pending ++ [{ strategyId := s.id, change := s.changeOf now command, time := now }] := by
  obtain ⟨_, _, rfl⟩ := perform_eq_ok_iff.mp h
  cases command <;> rfl

theorem change_of_perform (h : s.perform command now = .ok t) :
    t.pending.getLast?.map Event.change = some (s.changeOf now command) := by
  obtain ⟨_, _, rfl⟩ := perform_eq_ok_iff.mp h
  simp [record]

theorem command_of_complete {known : Strategy} {result : BacktestResult Float} {later : Instant}
    (h : s.perform command now = .ok t)
    (hknown : known.perform (.completeBacktest result) later = .ok t) :
    command = .completeBacktest result := by
  have hchange := (change_of_perform h).symm.trans (change_of_perform hknown)
  cases command with
  | completeBacktest result' =>
    have hresult : some result' = some result := by
      obtain ⟨_, _, rfl⟩ := perform_eq_ok_iff.mp h
      obtain ⟨_, _, ht⟩ := perform_eq_ok_iff.mp hknown
      exact congrArg Strategy.result ht
    injection hresult with hresult
    rw [hresult]
  | _ =>
    injection hchange with hchange
    cases hchange

theorem create_eq_ok_iff {id ownerId : String} {cfg : Config Float} :
    create id ownerId cfg now = .ok s ↔ checkId id = .ok () ∧ cfg.validate = .ok () ∧
      s = {
        id, ownerId, config := cfg
        status := .draft
        result := none
        testedAt := none
        reconfiguredAt := none
        activatedAt := none
        stoppedAt := none
        createdAt := now
        updatedAt := now
        version := 0
        pending := [{ strategyId := id, change := .created ownerId, time := now }] } := by
  unfold create
  cases hid : checkId id with
  | error f => simp [bind, Except.bind]
  | ok _ =>
    cases hvalid : cfg.validate with
    | error f => simp [bind, Except.bind]
    | ok _ => simp [bind, Except.bind, pure, Except.pure, eq_comm]

end Strategy
end StrategyDesk
