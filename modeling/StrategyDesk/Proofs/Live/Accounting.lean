import Mathlib
import StrategyDesk.Proofs.Live.Floor

/-!
This module contains the accounts of a tick. Whatever happens in it and whenever its deadline comes,
each pair is counted once in the end, and the report says how often each outcome was counted.
-/

namespace StrategyDesk
namespace Live

def Progress.outcome? : Progress → Option Outcome
  | .counted outcome => some outcome
  | .cutOff _ => some .timedOut
  | _ => none

def Tick.isOver (t : Tick) : Bool :=
  t.tasks.all fun task => task.progress.outcome?.isSome

theorem Tick.isOver_deadline (t : Tick) : (t.step .deadline).isOver = true := by
  unfold isOver step
  apply List.all_eq_true.mpr
  intro task htask
  obtain ⟨i, hi, rfl⟩ := List.mem_mapIdx.mp htask
  unfold Task.moved Move.concerns
  dsimp only
  rw [if_pos rfl]
  cases (t.tasks[i]).progress <;> rfl

theorem Tick.count_outcomes (t : Tick) (outcome : Outcome) :
    (t.tasks.flatMap fun task => task.progress.outcome?.toList).count outcome =
      t.countOf outcome + if outcome = .timedOut then t.cutOffs else 0 := by
  obtain ⟨settings, now, tasks⟩ := t
  unfold countOf cutOffs
  dsimp only
  induction tasks with
  | nil => simp
  | cons task tasks ih =>
    rw [List.flatMap_cons, List.count_append, ih, List.filter_cons, List.filter_cons]
    cases hprogress : task.progress with
    | counted o =>
      by_cases ho : o = outcome
      . subst ho
        simp [Progress.outcome?, Progress.isCutOff]
        omega
      . simp [Progress.outcome?, Progress.isCutOff, ho]
    | cutOff rest =>
      by_cases ho : outcome = .timedOut
      . subst ho
        simp [Progress.outcome?, Progress.isCutOff]
        omega
      . simp [Progress.outcome?, ho, Ne.symm ho]
    | waiting => simp [Progress.outcome?, Progress.isCutOff]
    | working p => simp [Progress.outcome?, Progress.isCutOff]
    | finished o => simp [Progress.outcome?, Progress.isCutOff]

theorem Outcome.length_eq_sum_count (outcomes : List Outcome) :
    outcomes.length = outcomes.count .signal + outcomes.count .quiet + outcomes.count .failed +
      outcomes.count .timedOut := by
  induction outcomes with
  | nil => rfl
  | cons outcome outcomes ih =>
    rw [List.length_cons, ih]
    cases outcome <;> simp <;> omega

theorem flatMap_range_length {β γ : Type} (f : β → List γ) (l : List β) :
    ((List.range l.length).flatMap fun i => (l[i]?).elim [] f) = l.flatMap f := by
  induction l with
  | nil => rfl
  | cons b l ih =>
    rw [List.length_cons, List.range_succ_eq_map, List.flatMap_cons, List.flatMap_map,
      List.flatMap_cons, ← ih]
    rfl

theorem Pair.length_ofStrategies (strategies : List Strategy) :
    (Pair.ofStrategies strategies).length =
      (strategies.map fun s => s.config.symbols.length).sum := by
  unfold ofStrategies
  rw [List.length_flatMap]
  simp only [List.length_map]

namespace Pair

variable {prompt : Prop} {pair : Pair} {settings : LiveSettings} {now : Instant}
  {progress : Progress} {signals : List (Signal Float)} {counts : List Outcome}

theorem Stands.counts_eq (h : Stands prompt pair settings now progress signals counts) :
    counts = progress.outcome?.toList := by
  cases h <;> rfl

theorem Ended.length_le {outcome : Outcome} (h : Ended prompt pair now outcome signals)
    (hprompt : prompt ∨ outcome = .timedOut) :
    signals.length ≤ [outcome].count .signal + [outcome].count .timedOut := by
  cases signals with
  | nil => exact Nat.zero_le _
  | cons signal signals =>
    have hone := h.atMostOne
    rcases hprompt with hprompt | rfl
    . rw [h.taken hprompt (List.cons_ne_nil _ _)]
      exact hone
    . exact hone

end Pair

namespace Floor

variable {settings : LiveSettings} {now : Instant} {pairs : List Pair} {f : Floor}

theorem Over.perm_flatMap_range {β : Type} (h : Over settings now pairs f) (g : Deed → Option β) :
    ((List.range pairs.length).flatMap fun i => (f.deedsOf i).filterMap g).Perm
      (f.deeds.filterMap g) := by
  have hperm := (perm_flatMap_filter Deed.place h.place_lt).filterMap g
  rw [List.filterMap_flatMap] at hperm
  exact hperm

theorem Over.exists_task (h : Over settings now pairs f) {i : Nat} (hi : i < pairs.length) :
    ∃ task, f.tick.tasks[i]? = some task := by
  rw [← h.length] at hi
  exact ⟨_, List.getElem?_eq_getElem hi⟩

theorem Over.perm_outcomes {prompt : Prop} (h : Over settings now pairs f) (hstand : f.Stand prompt) :
    f.outcomes.Perm (f.tick.tasks.flatMap fun task => task.progress.outcome?.toList) := by
  apply (h.perm_flatMap_range Deed.outcome?).symm.trans
  rw [← flatMap_range_length _ f.tick.tasks, h.length]
  apply List.Perm.of_eq
  apply List.flatMap_congr
  intro i hi
  obtain ⟨task, htask⟩ := h.exists_task (List.mem_range.mp hi)
  rw [htask]
  exact (hstand i task htask).counts_eq

theorem Over.count_outcomes (h : Over settings now pairs f) (outcome : Outcome) :
    f.outcomes.count outcome =
      ((List.range pairs.length).map fun i => (f.outcomesOf i).count outcome).sum := by
  unfold outcomes
  rw [← (h.perm_flatMap_range Deed.outcome?).count_eq, List.count_flatMap]
  rfl

theorem Over.report_eq {prompt : Prop} (h : Over settings now pairs f) (hstand : f.Stand prompt) :
    f.tick.report =
      { pairs := pairs.length
        signals := f.outcomes.count .signal
        failures := f.outcomes.count .failed
        timedOut := f.outcomes.count .timedOut } := by
  have hcount (outcome : Outcome) : f.outcomes.count outcome =
      f.tick.countOf outcome + if outcome = .timedOut then f.tick.cutOffs else 0 := by
    rw [(h.perm_outcomes hstand).count_eq, Tick.count_outcomes]
  unfold Tick.report
  rw [h.length, hcount .signal, hcount .failed, hcount .timedOut]
  rfl

theorem Over.deedsOf_eq_nil (h : Over settings now pairs f) {i : Nat} (hi : pairs.length ≤ i) :
    f.deedsOf i = [] := by
  apply List.filter_eq_nil_iff.mpr
  intro d hd
  have := h.place_lt d hd
  simp only [beq_iff_eq]
  omega

theorem Over.length_le_one {prompt : Prop} (h : Over settings now pairs f) (hstand : f.Stand prompt)
    (i : Nat) : (f.signalsOf i).length ≤ 1 ∧ (f.outcomesOf i).length ≤ 1 := by
  by_cases hi : i < pairs.length
  . obtain ⟨task, htask⟩ := h.exists_task hi
    have hstands := hstand i task htask
    obtain ⟨_, hended⟩ := hstands.ended
    refine ⟨hended.atMostOne, ?_⟩
    rw [hstands.counts_eq]
    exact Option.length_toList_le
  . unfold signalsOf outcomesOf
    rw [h.deedsOf_eq_nil (Nat.le_of_not_lt hi)]
    exact ⟨Nat.zero_le 1, Nat.zero_le 1⟩

theorem isSome_of_isOver (h : f.tick.isOver = true) {i : Nat} {task : Task}
    (htask : f.tick.tasks[i]? = some task) : task.progress.outcome?.isSome = true :=
  List.all_eq_true.mp h task (List.mem_of_getElem? htask)

theorem Over.exists_outcome {prompt : Prop} (h : Over settings now pairs f) (hstand : f.Stand prompt)
    (hend : f.tick.isOver = true) {i : Nat} (hi : i < pairs.length) :
    ∃ outcome, f.outcomesOf i = [outcome] := by
  obtain ⟨task, htask⟩ := h.exists_task hi
  obtain ⟨outcome, houtcome⟩ := Option.isSome_iff_exists.mp (isSome_of_isOver hend htask)
  refine ⟨outcome, ?_⟩
  rw [(hstand i task htask).counts_eq, houtcome]
  rfl

theorem Over.length_outcomes {prompt : Prop} (h : Over settings now pairs f)
    (hstand : f.Stand prompt) (hend : f.tick.isOver = true) : f.outcomes.length = pairs.length := by
  have hones : ∀ k ∈ (List.range pairs.length).map fun i => (f.outcomesOf i).length, k = 1 := by
    intro k hk
    obtain ⟨i, hi, rfl⟩ := List.mem_map.mp hk
    obtain ⟨outcome, houtcome⟩ := h.exists_outcome hstand hend (List.mem_range.mp hi)
    rw [houtcome]
    rfl
  have hperm := (h.perm_flatMap_range Deed.outcome?).length_eq
  rw [List.length_flatMap] at hperm
  have hsum := List.sum_eq_card_nsmul _ 1 hones
  rw [List.length_map, List.length_range] at hsum
  exact hperm.symm.trans (hsum.trans (Nat.mul_one _))

end Floor
end Live
end StrategyDesk
