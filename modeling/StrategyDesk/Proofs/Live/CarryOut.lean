import StrategyDesk.Live.Schedule
import StrategyDesk.Proofs.Live.Accounting

/-!
This module contains that ticks are carried out by the moves of a tick: whatever the host replies and
however long candles take, there are moves that lead to the same end, and nothing is left to be
counted then. So the accounts of ticks hold for those that are carried out.
-/

namespace StrategyDesk

namespace Live

def Progress.weight : Progress → Nat
  | .waiting => 2
  | .working _ => 1
  | _ => 0

theorem Pair.Stands.proceed_within {prompt : Prop} {pair : Pair} {settings : LiveSettings}
    {now : Instant} {progress : Progress} {signals : List (Signal Float)} {counts : List Outcome}
    (h : pair.Stands prompt settings now progress signals counts) (store : Store)
    (outside : Host Id) :
    progress.proceed (fun r => (store.answer outside r).1) = progress.proceed outside := by
  have hrest {p : Program (Except Failure Bool)} (h : pair.Rest prompt settings now p signals) :
      p.step (fun r => (store.answer outside r).1) = p.step outside := by
    cases h <;> rfl
  cases h with
  | waiting => rfl
  | working h _ => exact congrArg Progress.ofProgram (hrest h)
  | finished _ => rfl
  | counted _ => rfl
  | @cutOff rest _ h _ =>
    cases rest with
    | none => rfl
    | some p => exact congrArg (fun p => Progress.cutOff (some p)) (hrest (h p rfl))

namespace Tick

variable {t : Tick} {i : Nat} {pair : Pair} {p : Program (Except Failure Bool)}

def setProgress (t : Tick) (i : Nat) (progress : Progress) : Tick :=
  { t with tasks := t.tasks.modify i fun task => { task with progress } }

theorem eq_setProgress {t' : Tick} {progress : Progress} (hsettings : t'.settings = t.settings)
    (hnow : t'.now = t.now)
    (htasks : ∀ j, t'.tasks[j]? = (t.tasks[j]?).map fun task =>
      if i = j then { task with progress } else task) :
    t' = t.setProgress i progress := by
  obtain ⟨settings, now, tasks⟩ := t'
  cases hsettings
  cases hnow
  unfold setProgress
  congr 1
  apply List.ext_getElem?
  intro j
  rw [List.getElem?_modify]
  exact htasks j

theorem getElem?_setProgress (progress : Progress) (j : Nat) :
    (t.setProgress i progress).tasks[j]? = (t.tasks[j]?).map fun task =>
      if i = j then { task with progress } else task := by
  exact List.getElem?_modify _ i t.tasks j

theorem getElem?_setProgress_self {progress progress' : Progress}
    (htask : t.tasks[i]? = some ⟨pair, progress⟩) :
    (t.setProgress i progress').tasks[i]? = some ⟨pair, progress'⟩ := by
  rw [getElem?_setProgress, htask, Option.map_some, if_pos rfl]

theorem getElem?_setProgress_of_ne {j : Nat} (h : i ≠ j) (progress : Progress) :
    (t.setProgress i progress).tasks[j]? = t.tasks[j]? := by
  rw [getElem?_setProgress]
  simp [h]

@[simp]
theorem setProgress_setProgress (progress progress' : Progress) :
    (t.setProgress i progress).setProgress i progress' = t.setProgress i progress' := by
  refine eq_setProgress ?_ ?_ ?_
  . rfl
  . rfl
  . intro j
    rw [getElem?_setProgress, getElem?_setProgress, Option.map_map]
    congr 1
    funext task
    dsimp only [Function.comp_apply]
    split
    . rfl
    . rfl

theorem step_eq_setProgress {m : Move} (hconcerns : ∀ j, m.concerns j = (i == j))
    {progress : Progress} (htask : t.tasks[i]? = some ⟨pair, progress⟩) :
    t.step m = t.setProgress i (Task.moved t.settings t.now ⟨pair, progress⟩ m).progress := by
  refine eq_setProgress ?_ ?_ ?_
  . rfl
  . rfl
  . intro j
    rw [getElem?_step]
    cases hj : t.tasks[j]? with
    | none => rfl
    | some task =>
      rw [Option.map_some, Option.map_some, hconcerns]
      by_cases hij : i = j
      . subst hij
        rw [htask] at hj
        cases hj
        rw [if_pos (beq_self_eq_true i), if_pos rfl]
        cases m <;> rfl
      . rw [if_neg hij, if_neg (by simpa using hij)]

theorem count_setProgress {progress : Progress} (htask : t.tasks[i]? = some ⟨pair, progress⟩)
    (outcome : Outcome) :
    (t.setProgress i (.finished outcome)).step (.count i) =
      t.setProgress i (.counted outcome) := by
  rw [step_eq_setProgress (m := .count i) (fun _ => rfl) (getElem?_setProgress_self htask),
    setProgress_setProgress]
  rfl

theorem resume_eq_setProgress (htask : t.tasks[i]? = some ⟨pair, .working p⟩)
    (rest : Program (Except Failure Bool)) :
    t.resume i rest = t.setProgress i (.ofProgram rest) := by
  refine eq_setProgress ?_ ?_ ?_
  . rfl
  . rfl
  . intro j
    unfold resume
    dsimp only
    rw [List.getElem?_modify]
    cases hj : t.tasks[j]? with
    | none => rfl
    | some task =>
      by_cases hij : i = j
      . subst hij
        rw [htask] at hj
        cases hj
        simp
      . simp [hij]

theorem progress?_setProgress {progress : Progress} (progress' : Progress)
    (htask : t.tasks[i]? = some ⟨pair, progress⟩) :
    (t.setProgress i progress').progress? i = some progress' := by
  unfold progress?
  rw [getElem?_setProgress_self htask]
  rfl

theorem step_enter_of_isReachable (htask : t.tasks[i]? = some ⟨pair, .waiting⟩)
    (h : pair.isReachable t.settings t.now = true) :
    t.step (.enter i) = t.setProgress i (.working (.ask (.fetch (pair.request t.settings t.now))
      (pair.afterCandles t.now))) := by
  rw [step_eq_setProgress (m := .enter i) (fun _ => rfl) htask]
  show t.setProgress i (.ofProgram (pair.work t.settings t.now).run) = _
  rw [Pair.work_of_isReachable h]
  rfl

theorem step_enter_of_not_isReachable (htask : t.tasks[i]? = some ⟨pair, .waiting⟩)
    (h : pair.isReachable t.settings t.now = false) :
    t.step (.enter i) = t.setProgress i (.finished .failed) := by
  rw [step_eq_setProgress (m := .enter i) (fun _ => rfl) htask]
  show t.setProgress i (.ofProgram (pair.work t.settings t.now).run) = _
  rw [Pair.work_of_not_isReachable h]
  rfl

def weight (t : Tick) : Nat :=
  (t.tasks.map fun task => task.progress.weight).sum

theorem weight_setProgress {progress : Progress} (htask : t.tasks[i]? = some ⟨pair, progress⟩)
    (progress' : Progress) :
    (t.setProgress i progress').weight + progress.weight = t.weight + progress'.weight := by
  obtain ⟨settings, now, tasks⟩ := t
  unfold weight setProgress
  dsimp only at htask ⊢
  induction tasks generalizing i with
  | nil => cases htask
  | cons task tasks ih =>
    cases i with
    | zero =>
      cases htask
      rw [List.modify_zero_cons]
      simp only [List.map_cons, List.sum_cons]
      omega
    | succ i =>
      have htail := ih htask
      rw [List.modify_succ_cons]
      simp only [List.map_cons, List.sum_cons]
      omega

section Rounds

variable {host : Host Id} {delayOf : CandleRequest → Nat} {rounds clock : Nat}
  {agenda : List Appointment} {a : Appointment}

theorem carryOn_of_isComplete (hcomplete : t.isComplete = true) :
    Id.run (t.carryOn host delayOf (rounds + 1) clock agenda) = (t, clock) := by
  unfold carryOn
  rw [if_pos hcomplete]
  rfl

theorem carryOn_of_late (hcomplete : t.isComplete = false)
    (hlate : t.settings.tickDeadline ≤ clock) :
    Id.run (t.carryOn host delayOf (rounds + 1) clock agenda) = (t.step .deadline, clock) := by
  unfold carryOn
  rw [hcomplete, if_neg Bool.false_ne_true, if_pos hlate]
  rfl

theorem carryOn_of_due_late (hcomplete : t.isComplete = false)
    (hlate : ¬ t.settings.tickDeadline ≤ clock) (hi : t.admissible? = none)
    (hdue : t.settings.tickDeadline ≤ a.due) :
    Id.run (t.carryOn host delayOf (rounds + 1) clock (a :: agenda)) =
      (t.step .deadline, t.settings.tickDeadline) := by
  unfold carryOn
  rw [hcomplete, if_neg Bool.false_ne_true, if_neg hlate, hi]
  dsimp only
  rw [if_pos hdue]
  rfl

theorem carryOn_of_due (hcomplete : t.isComplete = false)
    (hlate : ¬ t.settings.tickDeadline ≤ clock) (hi : t.admissible? = none)
    (hdue : ¬ t.settings.tickDeadline ≤ a.due) :
    Id.run (t.carryOn host delayOf (rounds + 1) clock (a :: agenda)) =
      Id.run ((Id.run (t.complete host a.task a.rest)).carryOn host delayOf rounds a.due
        agenda) := by
  rw [carryOn, hcomplete, if_neg Bool.false_ne_true, if_neg hlate, hi]
  dsimp only
  rw [if_neg hdue]
  rfl

theorem carryOn_of_fetch {q : CandleRequest}
    {next : Except Failure (List (Candle Float)) → Program (Except Failure Bool)}
    (hcomplete : t.isComplete = false) (hlate : ¬ t.settings.tickDeadline ≤ clock)
    (hi : t.admissible? = some i)
    (hprogress : (t.step (.enter i)).progress? i = some (.working (.ask (.fetch q) next))) :
    Id.run (t.carryOn host delayOf (rounds + 1) clock agenda) =
      Id.run ((t.step (.enter i)).carryOn host delayOf rounds clock
        ((Appointment.make t.settings clock i (delayOf q) (next (host (.fetch q)))).insert
          agenda)) := by
  conv_lhs => unfold carryOn
  rw [hcomplete, if_neg Bool.false_ne_true, if_neg hlate, hi]
  dsimp only
  rw [hprogress]
  rfl

theorem carryOn_of_finished {outcome : Outcome} (hcomplete : t.isComplete = false)
    (hlate : ¬ t.settings.tickDeadline ≤ clock) (hi : t.admissible? = some i)
    (hprogress : (t.step (.enter i)).progress? i = some (.finished outcome)) :
    Id.run (t.carryOn host delayOf (rounds + 1) clock agenda) =
      Id.run (((t.step (.enter i)).step (.count i)).carryOn host delayOf rounds clock agenda) := by
  conv_lhs => unfold carryOn
  rw [hcomplete, if_neg Bool.false_ne_true, if_neg hlate, hi]
  dsimp only
  rw [hprogress]

end Rounds

end Tick

namespace Floor

variable {f : Floor} {i : Nat} {pair : Pair} {m : Tick.Move}

theorem Stand.tick_act (h : f.Stand False) (m : Tick.Move) : (f.act m).tick = f.tick.step m := by
  unfold Floor.act Tick.step
  dsimp only
  congr 1
  apply List.ext_getElem?
  intro j
  rw [List.getElem?_mapIdx, List.getElem?_mapIdx]
  cases hj : f.tick.tasks[j]? with
  | none => rfl
  | some task =>
    rw [Option.map_some, Option.map_some, concerns_within]
    cases m with
    | proceed k outside =>
      have hproceed := (h j task hj).proceed_within f.store outside
      unfold Tick.Move.within Task.moved
      dsimp only
      rw [hproceed]
    | _ => rfl

theorem Stand.tick_step (h : f.Stand False) (hentry : m.isEntry = false) :
    (f.step m).tick = f.tick.step m := by
  rw [step_of_isEntry_eq_false hentry]
  exact h.tick_act m

theorem Stand.tick_moved (h : f.Stand False) (hentry : m.isEntry = false)
    (hconcerns : ∀ j, m.concerns j = (i == j)) {progress : Progress}
    (htask : f.tick.tasks[i]? = some ⟨pair, progress⟩) :
    (f.step m).tick =
      f.tick.setProgress i (Task.moved f.tick.settings f.tick.now ⟨pair, progress⟩ m).progress := by
  rw [h.tick_step hentry]
  exact Tick.step_eq_setProgress hconcerns htask

theorem exists_run_finished (host : Host Id) (p : Program (Except Failure Bool))
    (hstand : f.Stand False) (htask : f.tick.tasks[i]? = some ⟨pair, .working p⟩) :
    ∃ moves, (f.run moves).tick =
      f.tick.setProgress i (.ofProgram (.ofExcept (Id.run (p.run host)))) := by
  -- one move for each request; the last one finishes the pair
  induction p generalizing f with
  | done r =>
    refine ⟨[.proceed i host], ?_⟩
    exact hstand.tick_moved (m := .proceed i host) rfl (fun _ => rfl) htask
  | crash fault =>
    refine ⟨[.proceed i host], ?_⟩
    exact hstand.tick_moved (m := .proceed i host) rfl (fun _ => rfl) htask
  | ask r next ih =>
    have hstep : (f.step (.proceed i host)).tick =
        f.tick.setProgress i (.ofProgram (next (host r))) :=
      hstand.tick_moved (m := .proceed i host) rfl (fun _ => rfl) htask
    have hrun : Id.run ((Program.ask r next).run host) = Id.run ((next (host r)).run host) := rfl
    rw [hrun]
    cases hnext : next (host r) with
    | done result =>
      rw [hnext] at hstep
      exact ⟨[.proceed i host], hstep⟩
    | crash fault =>
      rw [hnext] at hstep
      exact ⟨[.proceed i host], hstep⟩
    | ask r' next' =>
      rw [hnext] at hstep
      have htask' : (f.step (.proceed i host)).tick.tasks[i]? =
          some ⟨pair, .working (.ask r' next')⟩ := by
        rw [hstep]
        exact Tick.getElem?_setProgress_self htask
      rw [← hnext] at htask'
      obtain ⟨moves, hmoves⟩ := ih (host r) (hstand.step False.elim) htask'
      refine ⟨.proceed i host :: moves, ?_⟩
      show ((f.step (.proceed i host)).run moves).tick = _
      rw [hmoves, hstep, Tick.setProgress_setProgress, hnext]

theorem run_append (f : Floor) (moves later : List Tick.Move) :
    f.run (moves ++ later) = (f.run moves).run later :=
  List.foldl_append

theorem exists_run_complete {host : Host Id} {p : Program (Except Failure Bool)}
    (hstand : f.Stand False) (htask : f.tick.tasks[i]? = some ⟨pair, .working p⟩)
    {rest? : Option (Program (Except Failure Bool))}
    (hrest : ∀ rest, rest? = some rest → Id.run (rest.run host) = Id.run (p.run host)) :
    ∃ outcome moves,
      Id.run (f.tick.complete host i rest?) = f.tick.setProgress i (.counted outcome) ∧
        (f.run moves).tick = f.tick.setProgress i (.counted outcome) := by
  have hcount {g : Floor} {outcome : Outcome} (hg : g.Stand False)
      (htick : g.tick = f.tick.setProgress i (.finished outcome)) :
      (g.step (.count i)).tick = f.tick.setProgress i (.counted outcome) := by
    rw [hg.tick_step rfl, htick]
    exact Tick.count_setProgress htask outcome
  cases rest? with
  | some rest =>
    obtain ⟨moves, hmoves⟩ := exists_run_finished host p hstand htask
    obtain ⟨outcome, houtcome⟩ := Progress.exists_ofExcept (Id.run (p.run host))
    rw [houtcome] at hmoves
    refine ⟨outcome, moves ++ [.count i], ?_, ?_⟩
    . show (f.tick.resume i (.ofExcept (Id.run (rest.run host)))).step (.count i) = _
      rw [hrest rest rfl, Tick.resume_eq_setProgress htask, houtcome]
      exact Tick.count_setProgress htask outcome
    . rw [run_append]
      exact hcount (hstand.run False.elim) hmoves
  | none =>
    have hexpire : f.tick.step (.expire i) = f.tick.setProgress i (.finished .timedOut) :=
      Tick.step_eq_setProgress (m := .expire i) (fun _ => rfl) htask
    refine ⟨.timedOut, [.expire i, .count i], ?_, ?_⟩
    . show (f.tick.step (.expire i)).step (.count i) = _
      rw [hexpire]
      exact Tick.count_setProgress htask .timedOut
    . exact hcount (hstand.step False.elim) ((hstand.tick_step rfl).trans hexpire)

end Floor

theorem Appointment.insert_perm (a : Appointment) (agenda : List Appointment) :
    (a.insert agenda).Perm (a :: agenda) := by
  induction agenda with
  | nil => exact .refl _
  | cons b rest ih =>
    unfold insert
    split
    . exact (ih.cons b).trans (.swap a b rest)
    . exact .refl _

structure Fits (host : Host Id) (t : Tick) (agenda : List Appointment) : Prop where
  working : ∀ a ∈ agenda, ∃ pair p, t.tasks[a.task]? = some ⟨pair, .working p⟩ ∧
    ∀ rest, a.rest = some rest → Id.run (rest.run host) = Id.run (p.run host)
  nodup : (agenda.map Appointment.task).Nodup
  others : ∀ i (task : Task), t.tasks[i]? = some task → i ∉ agenda.map Appointment.task →
    task.progress = .waiting ∨ task.progress.isCounted = true

namespace Fits

variable {host : Host Id} {t : Tick} {agenda : List Appointment} {i : Nat} {pair : Pair}

theorem not_mem_of_waiting (h : Fits host t agenda) (htask : t.tasks[i]? = some ⟨pair, .waiting⟩) :
    i ∉ agenda.map Appointment.task := by
  intro hmem
  obtain ⟨a, ha, rfl⟩ := List.mem_map.mp hmem
  obtain ⟨pair', p, hworking, _⟩ := h.working a ha
  rw [htask] at hworking
  cases hworking

theorem counted (h : Fits host t agenda) (hi : i ∉ agenda.map Appointment.task) (outcome : Outcome) :
    Fits host (t.setProgress i (.counted outcome)) agenda where
  working a ha := by
    have hne : i ≠ a.task := fun h => hi (h ▸ List.mem_map_of_mem ha)
    rw [Tick.getElem?_setProgress_of_ne hne]
    exact h.working a ha
  nodup := h.nodup
  others j task hj hnot := by
    by_cases hij : i = j
    . subst hij
      rw [Tick.getElem?_setProgress] at hj
      obtain ⟨old, _, rfl⟩ := Option.map_eq_some_iff.mp hj
      right
      rw [if_pos rfl]
      rfl
    . rw [Tick.getElem?_setProgress_of_ne hij] at hj
      exact h.others j task hj hnot

theorem kept {a : Appointment} (h : Fits host t (a :: agenda)) (outcome : Outcome) :
    Fits host (t.setProgress a.task (.counted outcome)) agenda := by
  obtain ⟨hnot, hnodup⟩ := List.nodup_cons.mp h.nodup
  refine ⟨?_, hnodup, ?_⟩
  . intro b hb
    have hne : a.task ≠ b.task := fun h => hnot (h ▸ List.mem_map_of_mem hb)
    rw [Tick.getElem?_setProgress_of_ne hne]
    exact h.working b (List.mem_cons_of_mem _ hb)
  . intro j task hj hjnot
    by_cases hij : a.task = j
    . rw [Tick.getElem?_setProgress] at hj
      obtain ⟨old, _, rfl⟩ := Option.map_eq_some_iff.mp hj
      right
      rw [if_pos hij]
      rfl
    . rw [Tick.getElem?_setProgress_of_ne hij] at hj
      apply h.others j task hj
      rw [List.map_cons, List.mem_cons, not_or]
      exact ⟨Ne.symm hij, hjnot⟩

theorem appointed (h : Fits host t agenda) {p : Program (Except Failure Bool)} {a : Appointment}
    (ha : a.task = i) (htask : t.tasks[i]? = some ⟨pair, .waiting⟩)
    (hrest : ∀ rest, a.rest = some rest → Id.run (rest.run host) = Id.run (p.run host)) :
    Fits host (t.setProgress i (.working p)) (a.insert agenda) := by
  subst ha
  have hnot := h.not_mem_of_waiting htask
  have hperm := a.insert_perm agenda
  refine ⟨?_, ?_, ?_⟩
  . intro b hb
    rcases List.mem_cons.mp (hperm.mem_iff.mp hb) with rfl | hb
    . exact ⟨pair, p, Tick.getElem?_setProgress_self htask, hrest⟩
    . have hne : a.task ≠ b.task := fun h => hnot (h ▸ List.mem_map_of_mem hb)
      rw [Tick.getElem?_setProgress_of_ne hne]
      exact h.working b hb
  . exact (hperm.map Appointment.task).nodup_iff.mpr (List.nodup_cons.mpr ⟨hnot, h.nodup⟩)
  . intro j task hj hjnot
    have hjnot : j ∉ (a :: agenda).map Appointment.task :=
      fun hmem => hjnot ((hperm.map Appointment.task).mem_iff.mpr hmem)
    rw [List.map_cons, List.mem_cons, not_or] at hjnot
    rw [Tick.getElem?_setProgress_of_ne (Ne.symm hjnot.1)] at hj
    exact h.others j task hj hjnot.2

theorem made (h : Fits host t agenda) (htask : t.tasks[i]? = some ⟨pair, .waiting⟩)
    (q : CandleRequest) (next : Except Failure (List (Candle Float)) → Program (Except Failure Bool))
    (clock delay : Nat) :
    Fits host (t.setProgress i (.working (.ask (.fetch q) next)))
      ((Appointment.make t.settings clock i delay (next (host (.fetch q)))).insert agenda) := by
  unfold Appointment.make
  split
  . refine h.appointed ?_ htask ?_
    . rfl
    . rintro rest ⟨⟩
      rfl
  . refine h.appointed ?_ htask ?_
    . rfl
    . rintro rest ⟨⟩

end Fits

namespace Floor

variable {f : Floor} {host : Host Id} {agenda : List Appointment}

def Ends (f : Floor) (host : Host Id) (delayOf : CandleRequest → Nat) (rounds clock : Nat)
    (agenda : List Appointment) : Prop :=
  ∃ moves, (f.run moves).tick =
      (Id.run (f.tick.carryOn host delayOf rounds clock agenda)).1 ∧
    (f.run moves).tick.isOver = true

theorem isOver_of_isComplete (h : f.tick.isComplete = true) : f.tick.isOver = true := by
  apply List.all_eq_true.mpr
  intro task htask
  have hcounted := List.all_eq_true.mp h task htask
  cases hprogress : task.progress with
  | counted outcome => rfl
  | _ =>
    rw [hprogress] at hcounted
    cases hcounted

theorem exists_waiting_of_admissible? {i : Nat} (h : f.tick.admissible? = some i) :
    f.tick.hasPermit = true ∧ ∃ pair, f.tick.tasks[i]? = some ⟨pair, .waiting⟩ := by
  unfold Tick.admissible? at h
  split at h
  . next hpermit =>
    refine ⟨hpermit, ?_⟩
    obtain ⟨hi, hwaiting, _⟩ := List.findIdx?_eq_some_iff_getElem.mp h
    cases htask : f.tick.tasks[i] with
    | mk pair progress =>
      rw [htask] at hwaiting
      cases progress with
      | waiting => exact ⟨pair, by rw [List.getElem?_eq_getElem hi, htask]⟩
      | _ => cases hwaiting
  . cases h

theorem isComplete_of_idle (hfits : Fits host f.tick []) (hnobody : f.tick.admissible? = none) :
    f.tick.isComplete = true := by
  have hothers (task : Task) (hmem : task ∈ f.tick.tasks) :
      task.progress = .waiting ∨ task.progress.isCounted = true := by
    obtain ⟨i, hi⟩ := List.mem_iff_getElem?.mp hmem
    exact hfits.others i task hi List.not_mem_nil
  have hpermit : f.tick.hasPermit = true := by
    apply Tick.hasPermit_of_idle
    intro task hmem
    rcases hothers task hmem with hprogress | hcounted
    . rw [hprogress]
      rfl
    . cases hprogress : task.progress with
      | working p =>
        rw [hprogress] at hcounted
        cases hcounted
      | _ => rfl
  unfold Tick.admissible? at hnobody
  rw [if_pos hpermit] at hnobody
  have hnotWaiting := List.findIdx?_eq_none_iff.mp hnobody
  apply List.all_eq_true.mpr
  intro task hmem
  rcases hothers task hmem with hprogress | hcounted
  . have := hnotWaiting task hmem
    rw [hprogress] at this
    cases this
  . exact hcounted

variable {delayOf : CandleRequest → Nat} {rounds clock i : Nat} {pair : Pair}

theorem Ends.of_run {rounds' clock' : Nat} {agenda' : List Appointment} (moves : List Tick.Move)
    (h : (f.run moves).Ends host delayOf rounds' clock' agenda')
    (heq : Id.run (f.tick.carryOn host delayOf rounds clock agenda) =
      Id.run ((f.run moves).tick.carryOn host delayOf rounds' clock' agenda')) :
    f.Ends host delayOf rounds clock agenda := by
  obtain ⟨later, hlater, hover⟩ := h
  rw [← run_append] at hlater hover
  refine ⟨moves ++ later, ?_, hover⟩
  rw [heq]
  exact hlater

theorem Ends.deadline {clock' : Nat} (hstand : f.Stand False)
    (heq : Id.run (f.tick.carryOn host delayOf rounds clock agenda) =
      (f.tick.step .deadline, clock')) :
    f.Ends host delayOf rounds clock agenda := by
  refine ⟨[.deadline], ?_, f.tick.isOver_deadline⟩
  rw [heq]
  exact hstand.tick_step (m := .deadline) rfl

section Rounds

variable (hstand : f.Stand False) (hweight : f.tick.weight < rounds + 1)
  (hcomplete : f.tick.isComplete = false) (hlate : ¬ f.tick.settings.tickDeadline ≤ clock)
  (ih : ∀ (g : Floor) (clock : Nat) (agenda : List Appointment), g.Stand False →
    Fits host g.tick agenda → g.tick.weight < rounds → g.Ends host delayOf rounds clock agenda)

include hstand hweight hcomplete hlate ih

theorem ends_of_isReachable (hfits : Fits host f.tick agenda) (hi : f.tick.admissible? = some i)
    (htask : f.tick.tasks[i]? = some ⟨pair, .waiting⟩)
    (henter : (f.step (.enter i)).tick = f.tick.step (.enter i))
    (hreachable : pair.isReachable f.tick.settings f.tick.now = true) :
    f.Ends host delayOf (rounds + 1) clock agenda := by
  have hbegun := Tick.step_enter_of_isReachable htask hreachable
  have hprogress := Tick.progress?_setProgress (.working
    (.ask (.fetch (pair.request f.tick.settings f.tick.now)) (pair.afterCandles f.tick.now))) htask
  have hless : (f.tick.step (.enter i)).weight + 2 = f.tick.weight + 1 := by
    rw [hbegun]
    exact Tick.weight_setProgress htask _
  rw [← hbegun] at hprogress
  apply Ends.of_run [.enter i] (ih (f.step (.enter i)) clock _ (hstand.step False.elim) ?_ ?_)
  . rw [Tick.carryOn_of_fetch hcomplete hlate hi hprogress, ← henter]
    rfl
  . rw [henter, hbegun]
    exact hfits.made htask _ _ _ _
  . rw [henter]
    omega

theorem ends_of_not_isReachable (hfits : Fits host f.tick agenda)
    (hi : f.tick.admissible? = some i) (htask : f.tick.tasks[i]? = some ⟨pair, .waiting⟩)
    (henter : (f.step (.enter i)).tick = f.tick.step (.enter i))
    (hreachable : pair.isReachable f.tick.settings f.tick.now = false) :
    f.Ends host delayOf (rounds + 1) clock agenda := by
  have hbegun := Tick.step_enter_of_not_isReachable htask hreachable
  have hprogress := Tick.progress?_setProgress (.finished .failed) htask
  have hcount : (f.run [.enter i, .count i]).tick = (f.tick.step (.enter i)).step (.count i) := by
    rw [← henter]
    exact (hstand.step False.elim).tick_step (m := .count i) rfl
  have hcounted : (f.tick.step (.enter i)).step (.count i) =
      f.tick.setProgress i (.counted .failed) := by
    rw [hbegun]
    exact Tick.count_setProgress htask .failed
  have hless : (f.tick.setProgress i (.counted .failed)).weight + 2 = f.tick.weight + 0 :=
    Tick.weight_setProgress htask _
  rw [← hbegun] at hprogress
  apply Ends.of_run [.enter i, .count i] (ih _ clock agenda (hstand.run False.elim) ?_ ?_)
  . rw [Tick.carryOn_of_finished hcomplete hlate hi hprogress, hcount]
  . rw [hcount, hcounted]
    exact hfits.counted (hfits.not_mem_of_waiting htask) .failed
  . rw [hcount, hcounted]
    omega

theorem ends_of_due {a : Appointment} (hfits : Fits host f.tick (a :: agenda))
    (hi : f.tick.admissible? = none) (hdue : ¬ f.tick.settings.tickDeadline ≤ a.due) :
    f.Ends host delayOf (rounds + 1) clock (a :: agenda) := by
  obtain ⟨pair, p, htask, hrest⟩ := hfits.working a List.mem_cons_self
  obtain ⟨outcome, moves, hdone, hmoves⟩ := exists_run_complete hstand htask hrest
  have hless : (f.tick.setProgress a.task (.counted outcome)).weight + 1 = f.tick.weight + 0 :=
    Tick.weight_setProgress htask (.counted outcome)
  apply Ends.of_run moves (ih (f.run moves) a.due agenda (hstand.run False.elim) ?_ ?_)
  . rw [Tick.carryOn_of_due hcomplete hlate hi hdue, hdone, hmoves]
  . rw [hmoves]
    exact hfits.kept outcome
  . rw [hmoves]
    omega

end Rounds

theorem ends_carryOn (host : Host Id) (delayOf : CandleRequest → Nat) (rounds : Nat) :
    ∀ (f : Floor) (clock : Nat) (agenda : List Appointment), f.Stand False →
      Fits host f.tick agenda → f.tick.weight < rounds →
        f.Ends host delayOf rounds clock agenda := by
  -- each round takes a weight off the tick: a pair begins, or it is counted
  induction rounds with
  | zero =>
    intro f clock agenda _ _ hweight
    cases hweight
  | succ rounds ih =>
    intro f clock agenda hstand hfits hweight
    cases hcomplete : f.tick.isComplete with
    | true =>
      refine ⟨[], ?_, isOver_of_isComplete hcomplete⟩
      rw [Tick.carryOn_of_isComplete hcomplete]
      rfl
    | false =>
      by_cases hlate : f.tick.settings.tickDeadline ≤ clock
      . exact Ends.deadline hstand (Tick.carryOn_of_late hcomplete hlate)
      . cases hi : f.tick.admissible? with
        | some i =>
          obtain ⟨hpermit, pair, htask⟩ := exists_waiting_of_admissible? hi
          have henter : (f.step (.enter i)).tick = f.tick.step (.enter i) := by
            rw [step_of_hasPermit hpermit]
            exact hstand.tick_act (.enter i)
          cases hreachable : pair.isReachable f.tick.settings f.tick.now with
          | true =>
            exact ends_of_isReachable hstand hweight hcomplete hlate ih hfits hi htask henter
              hreachable
          | false =>
            exact ends_of_not_isReachable hstand hweight hcomplete hlate ih hfits hi htask henter
              hreachable
        | none =>
          cases agenda with
          | nil =>
            rw [isComplete_of_idle hfits hi] at hcomplete
            cases hcomplete
          | cons a agenda =>
            by_cases hdue : f.tick.settings.tickDeadline ≤ a.due
            . exact Ends.deadline hstand (Tick.carryOn_of_due_late hcomplete hlate hi hdue)
            . exact ends_of_due hstand hweight hcomplete hlate ih hfits hi hdue

theorem fits_start (host : Host Id) (settings : LiveSettings) (now : Instant) (pairs : List Pair) :
    Fits host (Tick.start settings now pairs) [] := by
  refine ⟨fun _ ha => absurd ha List.not_mem_nil, List.nodup_nil, ?_⟩
  intro i task htask _
  unfold Tick.start at htask
  rw [List.getElem?_map] at htask
  obtain ⟨pair, _, rfl⟩ := Option.map_eq_some_iff.mp htask
  exact .inl rfl

theorem weight_start (settings : LiveSettings) (now : Instant) (pairs : List Pair) :
    (Tick.start settings now pairs).weight = 2 * pairs.length := by
  unfold Tick.weight Tick.start
  rw [List.map_map]
  induction pairs with
  | nil => rfl
  | cons pair pairs ih =>
    rw [List.map_cons, List.sum_cons, ih, List.length_cons]
    show 2 + 2 * pairs.length = _
    omega

theorem exists_run_carryOut (host : Host Id) (delayOf : CandleRequest → Nat) (store : Store)
    (settings : LiveSettings) (now : Instant) (pairs : List Pair) :
    ∃ moves, ((start store settings now pairs).run moves).tick =
        (Id.run ((Tick.start settings now pairs).carryOut host delayOf)).1 ∧
      ((start store settings now pairs).run moves).tick.isOver = true := by
  apply ends_carryOn host delayOf _ (start store settings now pairs) 0 []
  . exact stand_start False
  . exact fits_start host settings now pairs
  . show (Tick.start settings now pairs).weight < _
    rw [weight_start]
    unfold Tick.start
    rw [List.length_map]
    exact Nat.lt_succ_self _

end Floor

theorem runTick_of_found {host : Host Id} {delayOf : CandleRequest → Nat} {settings : LiveSettings}
    {now : Instant} {strategies : List Strategy} (h : host (.list .active) = .ok strategies) :
    Id.run (runTick host delayOf settings now) =
      (Tick.start? settings now (Pair.ofStrategies strategies)).map fun t =>
        let result := Id.run (t.carryOut host delayOf)
        .ok (result.1.report, result.2) := by
  have hlist : (Service.withStatus .active).run.run host = .ok (.ok strategies) :=
    congrArg Except.ok h
  unfold runTick
  rw [hlist]
  dsimp only [bind]
  cases Tick.start? settings now (Pair.ofStrategies strategies) with
  | error fault => rfl
  | ok t => rfl

/--
The report of a tick that is carried out accounts for all symbols of the strategies that were looked
up: each of them is either a signal, quiet, a failure or too slow.
-/
theorem runTick_accounted (host : Host Id) (delayOf : CandleRequest → Nat)
    (settings : LiveSettings) (now : Instant) (strategies : List Strategy)
    (hfound : host (.list .active) = .ok strategies)
    (hpermits : settings.maxConcurrency ≤ Tick.maxPermits) :
    ∃ report elapsed quiet,
      Id.run (runTick host delayOf settings now) = .ok (.ok (report, elapsed)) ∧
      report.pairs = (strategies.map fun s => s.config.symbols.length).sum ∧
      report.pairs = report.signals + quiet + report.failures + report.timedOut := by
  let pairs := Pair.ofStrategies strategies
  let result := Id.run ((Tick.start settings now pairs).carryOut host delayOf)
  obtain ⟨moves, hmoves, hend⟩ :=
    Floor.exists_run_carryOut host delayOf .empty settings now pairs
  let f := (Floor.start .empty settings now pairs).run moves
  have hover : f.Over settings now pairs := Floor.over_start.run moves
  have hstand : f.Stand False := (Floor.stand_start False).run False.elim
  have hreport : result.1.report = _ := hmoves ▸ hover.report_eq hstand
  have hrun : Id.run (runTick host delayOf settings now) =
      .ok (.ok (result.1.report, result.2)) := by
    rw [runTick_of_found hfound, Tick.start?_of_le hpermits]
    rfl
  refine ⟨result.1.report, result.2, f.outcomes.count .quiet, hrun, ?_, ?_⟩
  . rw [hreport]
    exact Pair.length_ofStrategies strategies
  . rw [hreport]
    dsimp only
    rw [← hover.length_outcomes hstand hend]
    exact Outcome.length_eq_sum_count f.outcomes

end Live
end StrategyDesk
