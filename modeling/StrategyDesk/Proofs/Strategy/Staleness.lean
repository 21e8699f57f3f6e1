import StrategyDesk.Proofs.Calendar.Order
import StrategyDesk.Proofs.Strategy.Journal

/-!
This module contains when the verdict on a strategy is stale. A strategy does not hold whether it was
edited since its last backtest; it is told from two times. As long as time does not run backwards no
edit is missed by this, and if no two operations happen at one time nothing else is taken for an edit.
-/

namespace StrategyDesk

def Deed.time? : Deed → Option Instant
  | .perform _ now => some now
  | _ => none

def Deed.times (deeds : List Deed) : List Instant :=
  deeds.filterMap Deed.time?

namespace Strategy

def edit? (s : Strategy) : Deed → Option Instant
  | .perform (.updateConfiguration cfg) now =>
    match s.perform (.updateConfiguration cfg) now with
    | .ok _ => some now
    | .error _ => none
  | _ => none

def edits (s : Strategy) : List Deed → List Instant
  | [] => []
  | deed :: deeds => (s.edit? deed).toList ++ (s.after deed).edits deeds

def MayBeActivated (s : Strategy) : Prop :=
  s.status = .backtestPassed ∨ s.status = .paused

/-- Whether there is an edit behind the backtest that was completed last. -/
def EditedSinceTest (s : Strategy) (deeds : List Deed) : Prop :=
  ∃ before completion later, deeds = before ++ completion :: later ∧
    (s.live before).verdict? completion ≠ none ∧
    (s.live (before ++ [completion])).verdicts later = [] ∧
    (s.live (before ++ [completion])).edits later ≠ []

variable {s t : Strategy} {command : Command} {now tested : Instant} {deed : Deed}
  {deeds before later : List Deed} {v : Verdict} {r : BacktestResult Float}

theorem live_append (deeds later : List Deed) : s.live (deeds ++ later) = (s.live deeds).live later :=
  List.foldl_append

theorem verdicts_append (deeds later : List Deed) :
    s.verdicts (deeds ++ later) = s.verdicts deeds ++ (s.live deeds).verdicts later := by
  induction deeds generalizing s with
  | nil => rfl
  | cons deed deeds ih =>
    simp only [List.cons_append, verdicts, ih, List.append_assoc]
    rfl

/-! ## Edits -/

theorem mem_times_of_edit? {edited : Instant} (h : s.edit? deed = some edited) :
    deed.time? = some edited := by
  unfold edit? at h
  split at h
  . split at h
    . exact h
    . cases h
  . cases h

theorem edits_sublist_times (deeds : List Deed) : (s.edits deeds).Sublist (Deed.times deeds) := by
  induction deeds generalizing s with
  | nil => exact .slnil
  | cons deed deeds ih =>
    unfold edits Deed.times
    rw [List.filterMap_cons]
    cases hedit : s.edit? deed with
    | none =>
      cases deed.time? with
      | none => exact ih
      | some _ => exact ih.cons _
    | some edited =>
      rw [mem_times_of_edit? hedit]
      exact ih.cons_cons edited

theorem reconfiguredAt_after (deed : Deed) :
    (s.after deed).reconfiguredAt = (s.edit? deed).or s.reconfiguredAt := by
  cases deed with
  | perform command now =>
    cases hperform : s.perform command now with
    | ok t =>
      rw [after_of_perform hperform]
      obtain ⟨_, _, rfl⟩ := perform_eq_ok_iff.mp hperform
      cases command with
      | updateConfiguration cfg =>
        unfold edit?
        dsimp only
        rw [hperform]
        rfl
      | _ => rfl
    | error f =>
      rw [after_of_refused hperform]
      cases command with
      | updateConfiguration cfg =>
        unfold edit?
        dsimp only
        rw [hperform]
        rfl
      | _ => rfl
  | save version => rfl
  | publish => rfl

theorem reconfiguredAt_live (deeds : List Deed) :
    (s.live deeds).reconfiguredAt = (s.edits deeds).getLast?.or s.reconfiguredAt := by
  induction deeds generalizing s with
  | nil => rfl
  | cons deed deeds ih =>
    have hlater : ((s.after deed).live deeds).reconfiguredAt = _ := ih
    rw [reconfiguredAt_after, ← Option.or_assoc] at hlater
    unfold edits
    rw [List.getLast?_append]
    cases hedit : s.edit? deed with
    | none =>
      rw [hedit] at hlater
      exact hlater
    | some edited =>
      rw [hedit] at hlater
      exact hlater

theorem config_after_of_edit?_eq_none (h : s.edit? deed = none) : (s.after deed).config = s.config := by
  cases deed with
  | perform command now =>
    cases hperform : s.perform command now with
    | ok t =>
      rw [after_of_perform hperform]
      obtain ⟨_, _, ht⟩ := perform_eq_ok_iff.mp hperform
      cases command with
      | updateConfiguration cfg =>
        unfold edit? at h
        dsimp only at h
        rw [hperform] at h
        cases h
      | _ =>
        rw [ht]
        rfl
    | error f => rw [after_of_refused hperform]
  | save version => rfl
  | publish => rfl

theorem config_live_of_edits_eq_nil (h : s.edits deeds = []) : (s.live deeds).config = s.config := by
  induction deeds generalizing s with
  | nil => rfl
  | cons deed deeds ih =>
    unfold edits at h
    rw [List.append_eq_nil_iff, Option.toList_eq_nil_iff] at h
    have hlater := ih h.2
    rw [config_after_of_edit?_eq_none h.1] at hlater
    exact hlater

/-! ## The last verdict -/

def released : List Status :=
  [.backtestPassed, .active, .paused, .stopped]

/-- Whether a strategy trades, or could, by the verdict that it got on a result at some time. -/
structure StandsBy (s : Strategy) (r : BacktestResult Float) (tested : Instant) : Prop where
  status : s.status ∈ released
  result : s.result = some r
  testedAt : s.testedAt = some tested

theorem operation_of_released {status : Status} {operation : Operation} (hstatus : status ∈ released)
    (hallowed : operation.isAllowed status = true) :
    operation ∈ [.activate, .pause, .stop, .updateConfiguration] := by
  revert hallowed hstatus
  cases status <;> cases operation <;> decide

theorem StandsBy.after (h : s.StandsBy r tested) (deed : Deed) : (s.after deed).StandsBy r tested := by
  have hstatus := h.status
  cases deed with
  | perform command now =>
    cases hperform : s.perform command now with
    | ok t =>
      rw [after_of_perform hperform]
      obtain ⟨hallowed, _, rfl⟩ := perform_eq_ok_iff.mp hperform
      cases command with
      | startBacktest => simpa [Command.operation] using operation_of_released hstatus hallowed
      | completeBacktest result =>
        simpa [Command.operation] using operation_of_released hstatus hallowed
      | failBacktest reason capital =>
        simpa [Command.operation] using operation_of_released hstatus hallowed
      | activate => exact ⟨by simp [released, record, changedBy], h.result, h.testedAt⟩
      | pause => exact ⟨by simp [released, record, changedBy], h.result, h.testedAt⟩
      | stop => exact ⟨by simp [released, record, changedBy], h.result, h.testedAt⟩
      | updateConfiguration cfg => exact ⟨hstatus, h.result, h.testedAt⟩
    | error f =>
      rw [after_of_refused hperform]
      exact h
  | save version => exact ⟨hstatus, h.result, h.testedAt⟩
  | publish => exact ⟨hstatus, h.result, h.testedAt⟩

theorem StandsBy.live (h : s.StandsBy r tested) (deeds : List Deed) :
    (s.live deeds).StandsBy r tested := by
  induction deeds generalizing s with
  | nil => exact h
  | cons deed deeds ih => exact ih (h.after deed)

theorem verdict?_eq_some_iff :
    s.verdict? deed = some v ↔ ∃ tested t, deed = .perform (.completeBacktest v.result) tested ∧
      s.perform (.completeBacktest v.result) tested = .ok t ∧ v.limit = s.config.risk.maxDrawdown := by
  constructor
  . intro h
    unfold verdict? at h
    split at h
    . next result tested =>
      split at h
      . next t hperform =>
        cases h
        exact ⟨tested, t, rfl, hperform, rfl⟩
      . cases h
    . cases h
  . rintro ⟨tested, t, rfl, hperform, hlimit⟩
    rw [verdict?_of_perform hperform, ← hlimit]

theorem exists_completion (h : (s.verdicts deeds).getLast? = some v) :
    ∃ before completion later, deeds = before ++ completion :: later ∧
      (s.live before).verdict? completion = some v ∧
      (s.live (before ++ [completion])).verdicts later = [] := by
  induction deeds generalizing s with
  | nil => cases h
  | cons deed deeds ih =>
    unfold verdicts at h
    cases hlater : (s.after deed).verdicts deeds with
    | nil =>
      rw [hlater, List.append_nil] at h
      refine ⟨[], deed, deeds, rfl, ?_, hlater⟩
      cases hverdict : s.verdict? deed with
      | none =>
        rw [hverdict] at h
        cases h
      | some w =>
        rw [hverdict] at h
        exact hverdict.trans h
    | cons w ws =>
      have hlast : ((s.after deed).verdicts deeds).getLast? = some v := by
        rw [List.getLast?_append, hlater, List.getLast?_cons, Option.some_or] at h
        rw [hlater, List.getLast?_cons, h]
      obtain ⟨before, completion, later, rfl, hverdict, hnone⟩ := ih hlast
      exact ⟨deed :: before, completion, later, rfl, hverdict, hnone⟩

structure Tested (s : Strategy) (before : List Deed) (r : BacktestResult Float) (tested : Instant)
    (later : List Deed) : Prop where
  passed : r.passes (s.live before).config.risk.maxDrawdown = true
  config : (s.live (before ++ [.perform (.completeBacktest r) tested])).config =
    (s.live before).config
  reconfiguredAt : (s.live (before ++ [.perform (.completeBacktest r) tested])).reconfiguredAt =
    (s.live before).reconfiguredAt
  stands : (s.live (before ++ .perform (.completeBacktest r) tested :: later)).StandsBy r tested

theorem tested_of_verdict? {completion : Deed} {id ownerId : String} {cfg : Config Float}
    (h : create id ownerId cfg now = .ok s) (hverdict : (s.live before).verdict? completion = some v)
    (hlast : (s.live (before ++ [completion])).verdicts later = [])
    (hstatus : (s.live (before ++ completion :: later)).status ∈ released) :
    ∃ tested, completion = .perform (.completeBacktest v.result) tested ∧
      s.Tested before v.result tested later := by
  obtain ⟨tested, t, rfl, hperform, hlimit⟩ := verdict?_eq_some_iff.mp hverdict
  refine ⟨tested, rfl, ?_⟩
  have hafter : s.live (before ++ [.perform (.completeBacktest v.result) tested]) = t := by
    rw [live_concat, after_of_perform hperform]
  have hdeeds : before ++ .perform (.completeBacktest v.result) tested :: later =
      (before ++ [.perform (.completeBacktest v.result) tested]) ++ later := by
    simp
  have hpassed : v.result.passes v.limit = true := by
    obtain ⟨w, hw, _, hpasses⟩ := ((sound_of_create h).live _).passed hstatus
    rw [Option.or_none, hdeeds, verdicts_append, hlast, List.append_nil, verdicts_append] at hw
    simp only [verdicts, hverdict] at hw
    simp at hw
    rw [hw]
    exact hpasses
  rw [hlimit] at hpassed
  obtain ⟨_, _, rfl⟩ := perform_eq_ok_iff.mp hperform
  constructor
  . exact hpassed
  . rw [hafter]
    rfl
  . rw [hafter]
    rfl
  . rw [hdeeds, live_append, hafter]
    apply StandsBy.live
    exact ⟨by simp [record, changedBy, hpassed, released], rfl, rfl⟩

theorem exists_tested {id ownerId : String} {cfg : Config Float}
    (h : create id ownerId cfg now = .ok s) (hstatus : (s.live deeds).status ∈ released) :
    ∃ before r tested later, deeds = before ++ .perform (.completeBacktest r) tested :: later ∧
      (s.live before).verdict? (.perform (.completeBacktest r) tested) ≠ none ∧
      (s.live (before ++ [.perform (.completeBacktest r) tested])).verdicts later = [] ∧
      s.Tested before r tested later := by
  obtain ⟨v, hv, _, _⟩ := ((sound_of_create h).live _).passed hstatus
  rw [Option.or_none] at hv
  obtain ⟨before, completion, later, rfl, hverdict, hlast⟩ := exists_completion hv
  obtain ⟨tested, rfl, htested⟩ := tested_of_verdict? h hverdict hlast hstatus
  exact ⟨before, v.result, tested, later, rfl, by simp [hverdict], hlast, htested⟩

/-! ## Staleness -/

theorem isStale_iff :
    s.isStale = true ↔ s.MayBeActivated ∧
      ∃ edited tested, s.reconfiguredAt = some edited ∧ s.testedAt = some tested ∧ tested ≤ edited := by
  unfold isStale MayBeActivated
  rw [Bool.and_eq_true, Bool.or_eq_true, beq_iff_eq, beq_iff_eq]
  cases s.reconfiguredAt with
  | none => simp
  | some edited =>
    cases s.testedAt with
    | none => simp
    | some tested => simp

theorem MayBeActivated.mem_released (h : s.MayBeActivated) : s.status ∈ released := by
  rcases h with h | h
  . simp [h, released]
  . simp [h, released]

theorem reconfiguredAt_of_create {id ownerId : String} {cfg : Config Float}
    (h : create id ownerId cfg now = .ok s) : s.reconfiguredAt = none := by
  obtain ⟨_, _, rfl⟩ := create_eq_ok_iff.mp h
  rfl

theorem times_append (before : List Deed) :
    Deed.times (before ++ .perform command now :: later) =
      Deed.times before ++ now :: Deed.times later := by
  simp [Deed.times, Deed.time?]

theorem Tested.reconfiguredAt_eq (h : s.Tested before r tested later) :
    (s.live (before ++ .perform (.completeBacktest r) tested :: later)).reconfiguredAt =
      ((s.live (before ++ [.perform (.completeBacktest r) tested])).edits later).getLast?.or
        ((s.edits before).getLast?.or s.reconfiguredAt) := by
  have hdeeds : before ++ .perform (.completeBacktest r) tested :: later =
      (before ++ [.perform (.completeBacktest r) tested]) ++ later := by
    simp
  rw [hdeeds, live_append, reconfiguredAt_live, h.reconfiguredAt, reconfiguredAt_live before]

theorem Tested.isStale (h : s.Tested before r tested later)
    (hordered : (Deed.times (before ++ .perform (.completeBacktest r) tested :: later)).Pairwise
      (· ≤ ·))
    (hstatus : (s.live (before ++ .perform (.completeBacktest r) tested :: later)).MayBeActivated)
    (hedits : (s.live (before ++ [.perform (.completeBacktest r) tested])).edits later ≠ []) :
    (s.live (before ++ .perform (.completeBacktest r) tested :: later)).isStale = true := by
  rw [times_append, List.pairwise_append, List.pairwise_cons] at hordered
  have hedited := List.getLast?_eq_some_getLast hedits
  have hmem := (edits_sublist_times later).subset (List.getLast_mem hedits)
  rw [isStale_iff]
  refine ⟨hstatus, _, tested, ?_, h.stands.testedAt, hordered.2.1.1 _ hmem⟩
  rw [h.reconfiguredAt_eq, hedited, Option.some_or]

theorem Tested.edits_ne_nil {id ownerId : String} {cfg : Config Float}
    (h : s.Tested before r tested later) (hcreate : create id ownerId cfg now = .ok s)
    (hordered : (Deed.times (before ++ .perform (.completeBacktest r) tested :: later)).Pairwise
      (· < ·))
    (hstale : (s.live (before ++ .perform (.completeBacktest r) tested :: later)).isStale = true) :
    (s.live (before ++ [.perform (.completeBacktest r) tested])).edits later ≠ [] := by
  intro hnone
  rw [times_append, List.pairwise_append] at hordered
  obtain ⟨_, edited, tested', hedited, htested, hle⟩ := isStale_iff.mp hstale
  rw [h.stands.testedAt] at htested
  cases htested
  rw [h.reconfiguredAt_eq, hnone, reconfiguredAt_of_create hcreate, Option.or_none] at hedited
  have hmem := (edits_sublist_times before).subset (List.mem_of_getLast? hedited)
  have hlt := hordered.2.2 edited hmem tested (by simp)
  exact Instant.not_le.mpr hlt hle

theorem isStale_changedBy_iff {id ownerId : String} {cfg cfg' : Config Float} {edited : Instant}
    (h : create id ownerId cfg now = .ok s)
    (hordered : (Deed.times (before ++ [.perform (.updateConfiguration cfg') edited])).Pairwise
      (· ≤ ·)) :
    ((s.live before).changedBy edited (.updateConfiguration cfg')).isStale = true ↔
      (s.live before).MayBeActivated := by
  rw [isStale_iff]
  constructor
  . exact And.left
  . intro hstatus
    obtain ⟨earlier, r, tested, later, rfl, _, _, htested⟩ := exists_tested h hstatus.mem_released
    refine ⟨hstatus, edited, tested, rfl, htested.stands.testedAt, ?_⟩
    rw [times_append, List.pairwise_append] at hordered
    apply hordered.2.2 tested _ edited (by simp)
    rw [times_append]
    simp

/--
As long as time does not run backwards, a strategy that could be activated on its last verdict is
stale if it was edited since, and every edit says whether it makes the verdict stale. If no two
operations happen at one time, nothing else makes it stale. A verdict that is not stale holds for
the configuration as it is.
-/
theorem isStale_of_edited {id ownerId : String} {cfg : Config Float}
    (h : create id ownerId cfg now = .ok s) (deeds : List Deed)
    (hordered : (Deed.times deeds).Pairwise (· ≤ ·)) :
    let t := s.live deeds
    (t.MayBeActivated → s.EditedSinceTest deeds → t.isStale = true) ∧
    (∀ before cfg' edited later edit,
      deeds = before ++ .perform (.updateConfiguration cfg') edited :: later →
      (s.live before).perform (.updateConfiguration cfg') edited = .ok edit →
      ∃ stale, edit.pending = (s.live before).pending ++
          [⟨(s.live before).id, .configurationUpdated stale, edited⟩] ∧
        (stale = true ↔ (s.live before).MayBeActivated)) ∧
    ((Deed.times deeds).Pairwise (· < ·) → t.isStale = true →
      t.MayBeActivated ∧ s.EditedSinceTest deeds) ∧
    (t.MayBeActivated → t.isStale = false →
      ∃ r, t.result = some r ∧ r.passes t.config.risk.maxDrawdown = true) := by
  intro t
  refine ⟨?_, ?_, ?_, ?_⟩
  . rintro hstatus ⟨before, completion, later, rfl, hverdict, hlast, hedits⟩
    obtain ⟨v, hv⟩ := Option.ne_none_iff_exists'.mp hverdict
    obtain ⟨tested, rfl, htested⟩ := tested_of_verdict? h hv hlast hstatus.mem_released
    exact htested.isStale hordered hstatus hedits
  . rintro before cfg' edited later edit rfl hperform
    refine ⟨_, pending_of_perform hperform, isStale_changedBy_iff h ?_⟩
    apply List.Pairwise.sublist _ hordered
    apply List.Sublist.filterMap
    simp
  . intro hstrict hstale
    have hstatus := (isStale_iff.mp hstale).1
    obtain ⟨before, r, tested, later, rfl, hverdict, hlast, htested⟩ :=
      exists_tested h hstatus.mem_released
    have hedits := htested.edits_ne_nil h hstrict hstale
    exact ⟨hstatus, before, _, later, rfl, hverdict, hlast, hedits⟩
  . intro hstatus hfresh
    obtain ⟨before, r, tested, later, rfl, _, _, htested⟩ := exists_tested h hstatus.mem_released
    refine ⟨r, htested.stands.result, ?_⟩
    have hedits : (s.live (before ++ [.perform (.completeBacktest r) tested])).edits later = [] := by
      by_contra hedits
      have hstale : t.isStale = true := htested.isStale hordered hstatus hedits
      rw [hfresh] at hstale
      cases hstale
    have hconfig : t.config = (s.live before).config := by
      rw [← htested.config, ← config_live_of_edits_eq_nil hedits, ← live_append]
      simp [t]
    rw [hconfig]
    exact htested.passed

def editedLife (cfg : Config Float) : List Deed :=
  [.perform .startBacktest { seconds := 1 },
    .perform (.completeBacktest winningResult) { seconds := 2 }, .publish,
    .perform .activate { seconds := 3 }, .perform .pause { seconds := 4 },
    .perform (.updateConfiguration cfg) { seconds := 5 }]

theorem isStale_editedLife :
    let deeds := editedLife (crossingConfig ["ETH"])
    ∃ s, create "s" "owner" (crossingConfig ["BTC"]) { seconds := 0 } = .ok s ∧
      (s.live deeds).isStale = true ∧ s.EditedSinceTest deeds := by
  intro deeds
  have hstale : (create "s" "owner" (crossingConfig ["BTC"]) { seconds := 0 }).toOption.map
      (fun s => (s.live deeds).isStale) = some true := by
    decide +kernel
  obtain ⟨s, hs, hstale⟩ := exists_ok_of_toOption hstale
  have hordered : (Deed.times deeds).Pairwise (· ≤ ·) := by decide
  have hstrict : (Deed.times deeds).Pairwise (· < ·) := by decide
  obtain ⟨_, _, hedited, _⟩ := isStale_of_edited hs deeds hordered
  exact ⟨s, hs, hstale, (hedited hstrict hstale).2⟩

end Strategy
end StrategyDesk
