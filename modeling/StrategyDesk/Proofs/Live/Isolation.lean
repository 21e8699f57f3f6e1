import StrategyDesk.Proofs.Live.Accounting
import StrategyDesk.Proofs.Live.Clock

/-!
This module contains the isolation of pairs from each other. In a tick that ends before its deadline,
whatever the other pairs do and whoever gets his permit first, a pair ends as it would alone.
-/

namespace StrategyDesk
namespace Live
namespace Clocked

variable {deliveries : Nat → Delivery} {store : Store} {settings : LiveSettings} {now : Instant}
  {pairs : List Pair} {c later : Clocked} {i limit : Nat} {pair : Pair}

theorem over_of_reaches (h : Reaches deliveries (start store settings now pairs) c) :
    c.floor.Over settings now pairs := by
  obtain ⟨moves, hmoves⟩ := exists_moves h
  rw [hmoves]
  exact Floor.over_start.run moves

theorem stand_of_reaches (h : Reaches deliveries (start store settings now pairs) c) :
    c.floor.Stand False := by
  obtain ⟨moves, hmoves⟩ := exists_moves h
  rw [hmoves]
  exact (Floor.stand_start False).run False.elim

theorem store_of_reaches (h : Reaches deliveries (start store settings now pairs) c) :
    c.floor.store = store := by
  obtain ⟨moves, hmoves⟩ := exists_moves h
  rw [hmoves]
  exact Floor.store_run (Floor.stand_start False) moves

theorem fate_of_reaches (h : Reaches deliveries (start store settings now pairs) c)
    (hcomplete : c.floor.tick.isComplete = true) (hpair : pairs[i]? = some pair) :
    c.floor.outcomesOf i = [(pair.fate settings now (deliveries i)).1] ∧
      c.floor.signalsOf i = (pair.fate settings now (deliveries i)).2 ∧
      pair.span settings now (deliveries i) ≤ settings.tickDeadline := by
  have hover := over_of_reaches h
  have htask : ∃ task, c.floor.tick.tasks[i]? = some task ∧ task.pair = pair := by
    rw [← hover.pairs_eq, List.getElem?_map] at hpair
    exact Option.map_eq_some_iff.mp hpair
  obtain ⟨task, htask, rfl⟩ := htask
  have hcourse := (onCourse_start deliveries store settings now pairs).reaches h i task htask
  have hcounted := List.all_eq_true.mp hcomplete task (List.mem_of_getElem? htask)
  obtain ⟨hprogress, hsignals, hspan⟩ := hcourse.of_isCounted hcounted
  have hclock := clock_le h (Nat.zero_le _)
  rw [hover.settings_eq, hover.now_eq] at hprogress hsignals hspan
  rw [hover.settings_eq] at hclock
  refine ⟨?_, hsignals, Nat.le_trans hspan hclock⟩
  rw [(stand_of_reaches h i task htask).counts_eq, hprogress]
  rfl

structure SameBut (i : Nat) (c later : Clocked) : Prop where
  settings : later.floor.tick.settings = c.floor.tick.settings
  now : later.floor.tick.now = c.floor.tick.now
  others : ∀ j, j ≠ i → later.floor.tick.tasks[j]? = c.floor.tick.tasks[j]?

theorem SameBut.trans {between : Clocked} (h : SameBut i c between) (h' : SameBut i between later) :
    SameBut i c later where
  settings := h'.settings.trans h.settings
  now := h'.now.trans h.now
  others j hj := (h'.others j hj).trans (h.others j hj)

theorem sameBut_after {m : Tick.Move} (hconcerns : ∀ j, m.concerns j = (i == j)) :
    SameBut i c (c.after m) := by
  unfold after Floor.step
  split
  . exact ⟨rfl, rfl, fun _ _ => rfl⟩
  . refine ⟨rfl, rfl, ?_⟩
    intro j hj
    dsimp only
    rw [Floor.getElem?_act, hconcerns, beq_false_of_ne (Ne.symm hj)]
    exact Option.map_id'

def Finishes (deliveries : Nat → Delivery) (i limit : Nat) (c : Clocked) : Prop :=
  ∃ later, Reaches deliveries c later ∧ later.clock ≤ limit ∧ SameBut i c later ∧
    ∃ task, later.floor.tick.tasks[i]? = some task ∧ task.progress.isCounted = true

theorem Finishes.of_step (hstep : Step deliveries c later) (hsame : SameBut i c later)
    (h : Finishes deliveries i limit later) : Finishes deliveries i limit c := by
  obtain ⟨last, hreaches, hlimit, hrest, hcounted⟩ := h
  exact ⟨last, .head hstep hreaches, hlimit, hsame.trans hrest, hcounted⟩

theorem getElem?_after (m : Tick.Move) (hentry : m.isEntry = false) (hconcerns : m.concerns i = true)
    {task : Task} (htask : c.floor.tick.tasks[i]? = some task) :
    (c.after m).floor.tick.tasks[i]? = some (task.moved c.floor.tick.settings c.floor.tick.now
      (m.within c.floor.store)) := by
  unfold after
  rw [Floor.step_of_isEntry_eq_false hentry]
  dsimp only
  rw [Floor.getElem?_act, htask, Option.map_some, if_pos hconcerns]

theorem finishes_of_finished {outcome : Outcome}
    (htask : c.floor.tick.tasks[i]? = some ⟨pair, .finished outcome⟩) :
    Finishes deliveries i c.clock c :=
  ⟨c.after (.count i), .single (.count i), Nat.le_refl _, sameBut_after fun _ => rfl, _,
    getElem?_after (.count i) rfl (beq_self_eq_true i) htask, rfl⟩

theorem request?_eq {task : Task} (htask : c.floor.tick.tasks[i]? = some task) :
    c.request? i = task.progress.request? := by
  unfold request? Tick.progress?
  rw [htask]
  rfl

theorem finishes_of_submitting {signal : Signal Float}
    (htask : c.floor.tick.tasks[i]? = some ⟨pair, .working (Pair.handOver signal)⟩) :
    Finishes deliveries i c.clock c := by
  apply Finishes.of_step (.submit i (request?_eq htask)) (sameBut_after fun _ => rfl)
  exact finishes_of_finished (getElem?_after (.proceed i _) rfl (beq_self_eq_true i) htask)

theorem finishes_of_afterCandles {now : Instant} {reply : Except Failure (List (Candle Float))}
    (htask : c.floor.tick.tasks[i]? = some ⟨pair, .ofProgram (pair.afterCandles now reply)⟩) :
    Finishes deliveries i c.clock c := by
  cases reply with
  | error f => exact finishes_of_finished htask
  | ok cs =>
    cases hlatest : pair.latest now cs with
    | error f =>
      rw [Pair.afterCandles_of_error hlatest] at htask
      exact finishes_of_finished htask
    | ok signal? =>
      cases signal? with
      | none =>
        rw [Pair.afterCandles_of_none hlatest] at htask
        exact finishes_of_finished htask
      | some signal =>
        rw [Pair.afterCandles_of_some hlatest] at htask
        exact finishes_of_submitting htask

theorem finishes_of_due {q : CandleRequest} {now : Instant}
    (htask : c.floor.tick.tasks[i]? =
      some ⟨pair, .working (.ask (.fetch q) (pair.afterCandles now))⟩)
    (hdue : c.clock = c.due deliveries i) : Finishes deliveries i c.clock c := by
  unfold due at hdue
  have hrequest : c.request? i = some (.fetch q) := request?_eq htask
  by_cases hlate : c.floor.tick.settings.pairTimeout < (deliveries i).delay
  . apply Finishes.of_step (.expire i hrequest (by omega) (by omega)) (sameBut_after fun _ => rfl)
    exact finishes_of_finished (getElem?_after (.expire i) rfl (beq_self_eq_true i) htask)
  . cases hreply : (deliveries i).reply? with
    | none =>
      apply Finishes.of_step (.breakDown i hrequest hreply (by omega)) (sameBut_after fun _ => rfl)
      exact finishes_of_finished (getElem?_after (.panic i) rfl (beq_self_eq_true i) htask)
    | some reply =>
      apply Finishes.of_step (.arrive i hrequest hreply (by omega)) (sameBut_after fun _ => rfl)
      exact finishes_of_afterCandles (getElem?_after (.proceed i _) rfl (beq_self_eq_true i) htask)

def OnlyWorks (i : Nat) (c : Clocked) : Prop :=
  ∀ j (task : Task), j ≠ i → c.floor.tick.tasks[j]? = some task → task.progress.isWorking = false

theorem finishes_of_fetching {q : CandleRequest} {now : Instant} (honly : c.OnlyWorks i)
    (htask : c.floor.tick.tasks[i]? =
      some ⟨pair, .working (.ask (.fetch q) (pair.afterCandles now))⟩)
    (hclock : c.clock ≤ c.due deliveries i)
    (hdeadline : c.due deliveries i ≤ c.floor.tick.settings.tickDeadline) :
    Finishes deliveries i (c.due deliveries i) c := by
  have hwait : c.clock + (c.due deliveries i - c.clock) = c.due deliveries i := by omega
  have hstep : Step deliveries c { c with clock := c.due deliveries i } := by
    rw [← hwait]
    apply Step.pass
    . intro j p hp
      obtain ⟨other, hother, hp⟩ := Option.map_eq_some_iff.mp hp
      by_cases hj : j = i
      . subst hj
        omega
      . have hnot := honly j other hj hother
        rw [hp] at hnot
        cases hnot
    . omega
  apply Finishes.of_step hstep ⟨rfl, rfl, fun _ _ => rfl⟩
  exact finishes_of_due htask rfl

theorem OnlyWorks.hasPermit (honly : c.OnlyWorks i)
    (htask : c.floor.tick.tasks[i]? = some ⟨pair, .waiting⟩) : c.floor.tick.hasPermit = true := by
  apply Tick.hasPermit_of_idle
  intro task hmem
  obtain ⟨j, hj⟩ := List.mem_iff_getElem?.mp hmem
  by_cases hji : j = i
  . subst hji
    rw [htask] at hj
    cases hj
    rfl
  . exact honly j task hji hj

theorem getElem?_grant (hpermit : c.floor.tick.hasPermit = true)
    (htask : c.floor.tick.tasks[i]? = some ⟨pair, .waiting⟩) :
    (c.grant i).floor.tick.tasks[i]? = some ⟨pair, .ofProgram
      (pair.work c.floor.tick.settings c.floor.tick.now).run⟩ := by
  have hconcerns : (Tick.Move.enter i).concerns i = true := beq_self_eq_true i
  unfold grant
  rw [Floor.step_of_hasPermit hpermit]
  dsimp only
  rw [Floor.getElem?_act, htask, Option.map_some, if_pos hconcerns]
  rfl

theorem sameBut_grant (c : Clocked) (i : Nat) : SameBut i c (c.grant i) := by
  obtain ⟨hsettings, hnow, hothers⟩ :=
    sameBut_after (i := i) (c := c) (m := .enter i) fun _ => rfl
  exact ⟨hsettings, hnow, hothers⟩

theorem due_grant (c : Clocked) (i : Nat) : (c.grant i).due deliveries i =
    c.clock + min (deliveries i).delay c.floor.tick.settings.pairTimeout := by
  unfold due
  rw [(sameBut_grant c i).settings]
  have hbegan : (c.grant i).began i = c.clock := by
    unfold grant
    exact Function.update_self i c.clock c.began
  rw [hbegan]

theorem finishes_of_waiting (deliveries : Nat → Delivery) (honly : c.OnlyWorks i)
    (htask : c.floor.tick.tasks[i]? = some ⟨pair, .waiting⟩)
    (hdeadline : c.clock + pair.span c.floor.tick.settings c.floor.tick.now (deliveries i) ≤
      c.floor.tick.settings.tickDeadline) :
    Finishes deliveries i
      (c.clock + pair.span c.floor.tick.settings c.floor.tick.now (deliveries i)) c := by
  have hpermit := honly.hasPermit htask
  have hwaiting : c.floor.tick.progress? i = some .waiting := by
    unfold Tick.progress?
    rw [htask]
    rfl
  have hsame := sameBut_grant c i
  have hnext := getElem?_grant hpermit htask
  apply Finishes.of_step (.enter i hwaiting hpermit) hsame
  cases hreachable : pair.isReachable c.floor.tick.settings c.floor.tick.now with
  | false =>
    rw [Pair.work_of_not_isReachable hreachable] at hnext
    rw [Pair.span_of_not_isReachable hreachable, Nat.add_zero]
    exact finishes_of_finished hnext
  | true =>
    rw [Pair.work_of_isReachable hreachable] at hnext
    rw [Pair.span_of_isReachable hreachable, ← due_grant c i] at hdeadline ⊢
    apply finishes_of_fetching _ hnext
    . rw [due_grant]
      exact Nat.le_add_right _ _
    . rw [hsame.settings]
      exact hdeadline
    . intro j task hj hother
      rw [hsame.others j hj] at hother
      exact honly j task hj hother

def timeFor (settings : LiveSettings) (now : Instant) (pairs : List Pair)
    (deliveries : Nat → Delivery) : Nat → Nat
  | 0 => 0
  | k + 1 => timeFor settings now pairs deliveries k +
      (pairs[k]?).elim 0 fun pair => pair.span settings now (deliveries k)

theorem exists_counted (deliveries : Nat → Delivery) (store : Store) (k : Nat)
    (hk : k ≤ pairs.length)
    (htime : timeFor settings now pairs deliveries k ≤ settings.tickDeadline) :
    ∃ c, Reaches deliveries (start store settings now pairs) c ∧
      c.clock ≤ timeFor settings now pairs deliveries k ∧
      ∀ i (task : Task), c.floor.tick.tasks[i]? = some task →
        if i < k then task.progress.isCounted = true else task.progress = .waiting := by
  -- whoever was counted has given his permit back, so that the next pair can begin
  induction k with
  | zero =>
    refine ⟨start store settings now pairs, .refl, Nat.zero_le _, ?_⟩
    intro i task htask
    unfold start Floor.start Tick.start at htask
    rw [List.getElem?_map] at htask
    obtain ⟨pair, _, rfl⟩ := Option.map_eq_some_iff.mp htask
    rfl
  | succ k ih =>
    unfold timeFor at htime
    obtain ⟨c, hreaches, hclock, htasks⟩ := ih (Nat.le_of_succ_le hk) (Nat.le_of_add_right_le htime)
    have hover := over_of_reaches hreaches
    obtain ⟨⟨pair, progress⟩, htask⟩ := hover.exists_task hk
    obtain rfl : progress = .waiting := by simpa using htasks k _ htask
    have hpair : pairs[k]? = some pair := by
      rw [← hover.pairs_eq, List.getElem?_map, htask]
      rfl
    have honly : c.OnlyWorks k := by
      intro j task hj hother
      have hprogress := htasks j task hother
      split at hprogress
      . cases hworking : task.progress with
        | counted outcome => rfl
        | _ => rw [hworking] at hprogress; cases hprogress
      . rw [hprogress]
        rfl
    rw [hpair, Option.elim_some] at htime
    have hfinishes := finishes_of_waiting deliveries honly htask
    rw [hover.settings_eq, hover.now_eq] at hfinishes
    obtain ⟨later, hlater, hlimit, hsame, task, hcounted⟩ := hfinishes (by omega)
    refine ⟨later, hreaches.trans hlater, ?_, ?_⟩
    . unfold timeFor
      rw [hpair, Option.elim_some]
      omega
    . intro j other hother
      by_cases hj : j = k
      . subst hj
        rw [hcounted.1] at hother
        cases hother
        rw [if_pos (Nat.lt_succ_self j)]
        exact hcounted.2
      . rw [hsame.others j hj] at hother
        have hprogress := htasks j other hother
        split
        . rwa [if_pos (by omega)] at hprogress
        . rwa [if_neg (by omega)] at hprogress

theorem exists_complete (deliveries : Nat → Delivery) (store : Store)
    (htime : timeFor settings now pairs deliveries pairs.length ≤ settings.tickDeadline) :
    ∃ c, Reaches deliveries (start store settings now pairs) c ∧
      c.floor.tick.isComplete = true := by
  obtain ⟨c, hreaches, _, htasks⟩ :=
    exists_counted deliveries store pairs.length (Nat.le_refl _) htime
  refine ⟨c, hreaches, ?_⟩
  apply List.all_eq_true.mpr
  intro task hmem
  obtain ⟨i, hi⟩ := List.mem_iff_getElem?.mp hmem
  have hlength := (over_of_reaches hreaches).length
  have hlt := (List.getElem?_eq_some_iff.mp hi).1
  have hprogress := htasks i task hi
  rwa [if_pos (by omega)] at hprogress

/--
Pairs are isolated. In a tick that has counted all pairs before its deadline, each pair could have
been counted in a tick of its own, and has the outcome and the signals that it has in each such tick.
The signals of all pairs are the signals of these ticks together, and no strategy has changed.
-/
theorem isolated (deliveries : Nat → Delivery) (store : Store) (settings : LiveSettings)
    (now : Instant) :
    let pairs := Pair.ofStrategies (store.withStatus .active)
    let Alone (i : Nat) (pair : Pair) (single : Clocked) : Prop :=
      Reaches (fun _ => deliveries i) (start store settings now [pair]) single ∧
        single.floor.tick.isComplete = true
    ∀ c, Reaches deliveries (start store settings now pairs) c →
      c.floor.tick.isComplete = true →
      c.floor.store = store ∧
      (∀ i pair, pairs[i]? = some pair → (∃ single, Alone i pair single) ∧
        ∀ single, Alone i pair single → single.floor.outcomes = c.floor.outcomesOf i ∧
          single.floor.signals = c.floor.signalsOf i) ∧
      ∀ singles : Nat → Clocked, (∀ i pair, pairs[i]? = some pair → Alone i pair (singles i)) →
        ((List.range pairs.length).flatMap fun i => (singles i).floor.signals).Perm
          c.floor.signals := by
  intro pairs Alone c hreaches hcomplete
  have halone {i : Nat} {pair : Pair} (hpair : pairs[i]? = some pair) {single : Clocked}
      (h : Alone i pair single) : single.floor.outcomes = c.floor.outcomesOf i ∧
        single.floor.signals = c.floor.signalsOf i := by
    obtain ⟨houtcome, hsignals, _⟩ := fate_of_reaches hreaches hcomplete hpair
    obtain ⟨houtcome', hsignals', _⟩ := fate_of_reaches (i := 0) h.1 h.2 rfl
    have hdeeds := (over_of_reaches h.1).deedsOf_zero
    unfold Floor.outcomesOf at houtcome'
    unfold Floor.signalsOf at hsignals'
    rw [hdeeds] at houtcome' hsignals'
    exact ⟨houtcome'.trans houtcome.symm, hsignals'.trans hsignals.symm⟩
  refine ⟨store_of_reaches hreaches, ?_, ?_⟩
  . intro i pair hpair
    refine ⟨?_, fun single h => halone hpair h⟩
    obtain ⟨_, _, hspan⟩ := fate_of_reaches hreaches hcomplete hpair
    apply exists_complete
    unfold timeFor timeFor
    simpa using hspan
  . intro singles hsingles
    apply List.Perm.trans _ ((over_of_reaches hreaches).perm_flatMap_range Deed.signal?)
    apply List.Perm.of_eq
    apply List.flatMap_congr
    intro i hi
    exact (halone (List.getElem?_eq_getElem (List.mem_range.mp hi))
      (hsingles i _ (List.getElem?_eq_getElem (List.mem_range.mp hi)))).2

def mixedDeliveries : Nat → Delivery
  | 0 => { delay := 10, reply? := some (.ok (candlesOfCloses [100, 110, 130])) }
  | 1 => { delay := 5, reply? := none }
  | _ => { delay := 100, reply? := some (.ok (candlesOfCloses [100, 110, 130])) }

theorem mixed_isolated :
    let settings : LiveSettings := { pairTimeout := 50, tickDeadline := 200, maxConcurrency := 2 }
    let now : Instant := { seconds := 86400 }
    let pairs := Pair.ofStrategies (Floor.tradingStore.withStatus .active)
    ∃ c, Reaches mixedDeliveries (start Floor.tradingStore settings now pairs) c ∧
      c.floor.tick.isComplete = true ∧ c.floor.store = Floor.tradingStore ∧
      (List.range 3).map c.floor.outcomesOf = [[.signal], [.failed], [.timedOut]] ∧
      ∀ i pair, pairs[i]? = some pair → ∃ single,
        Reaches (fun _ => mixedDeliveries i) (start Floor.tradingStore settings now [pair]) single ∧
        single.floor.outcomes = c.floor.outcomesOf i ∧
        single.floor.signals = c.floor.signalsOf i := by
  intro settings now pairs
  have htime : timeFor settings now pairs mixedDeliveries pairs.length ≤ settings.tickDeadline := by
    decide +kernel
  have hfates : (List.range 3).map (fun i => (pairs[i]?).elim [] fun pair =>
      [(pair.fate settings now (mixedDeliveries i)).1]) = [[.signal], [.failed], [.timedOut]] := by
    decide +kernel
  obtain ⟨c, hreaches, hcomplete⟩ := exists_complete mixedDeliveries Floor.tradingStore htime
  obtain ⟨hstore, hpairs, _⟩ :=
    isolated mixedDeliveries Floor.tradingStore settings now c hreaches hcomplete
  refine ⟨c, hreaches, hcomplete, hstore, ?_, ?_⟩
  . rw [← hfates]
    apply List.map_congr_left
    intro i hi
    have hlength : pairs.length = 3 := by decide +kernel
    have hlt : i < pairs.length := by simpa [hlength] using hi
    rw [List.getElem?_eq_getElem hlt]
    exact (fate_of_reaches hreaches hcomplete (List.getElem?_eq_getElem hlt)).1
  . intro i pair hpair
    obtain ⟨⟨single, halone⟩, hsingles⟩ := hpairs i pair hpair
    obtain ⟨houtcomes, hsignals⟩ := hsingles single halone
    exact ⟨single, halone.1, houtcomes, hsignals⟩

end Clocked
end Live
end StrategyDesk
