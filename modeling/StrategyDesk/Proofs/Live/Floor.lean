import StrategyDesk.Proofs.Backtest.Rounds
import StrategyDesk.Proofs.Live.Work
import StrategyDesk.Proofs.Service.Interleaving

/-!
This module contains ticks at work on a store, with the log of what they do. The moves come in any
order; only that a pair begins needs a permit. What is known of the work on a single pair is lifted
to all pairs of a tick.
-/

namespace StrategyDesk
namespace Live

variable {settings : LiveSettings} {now : Instant}

theorem Task.place_of_mem_deeds {task : Task} {i : Nat} {m : Tick.Move} {d : Deed}
    (h : d ∈ task.deeds settings now i m) : d.place = i := by
  have hasks {progress : Progress} (h : d ∈ progress.asks i) : d.place = i := by
    obtain ⟨r, _, rfl⟩ := List.mem_map.mp h
    rfl
  unfold deeds at h
  split at h
  . split at h
    . exact hasks h
    . cases h
  . split at h
    . exact hasks h
    . cases h
  . split at h
    . rw [List.mem_singleton.mp h]
      rfl
    . cases h
  . split at h
    . cases h
    . rw [List.mem_singleton.mp h]
      rfl
  . cases h
  . cases h

theorem Pair.Stands.answer_store {prompt : Prop} {pair : Pair} {progress : Progress}
    {signals : List (Signal Float)} {counts : List Outcome} {r : Request}
    (h : pair.Stands prompt settings now progress signals counts) (hr : progress.request? = some r)
    (store : Store) (outside : Host Id) : (store.answer outside r).2 = store := by
  have hrest {p : Program (Except Failure Bool)} (h : pair.Rest prompt settings now p signals)
      (hr : p.request? = some r) : (store.answer outside r).2 = store := by
    cases h <;> cases hr <;> rfl
  cases h with
  | waiting => cases hr
  | working h _ => exact hrest h hr
  | finished _ => cases hr
  | counted _ => cases hr
  | cutOff h _ =>
    obtain ⟨p, hp, hr⟩ := Option.bind_eq_some_iff.mp hr
    exact hrest (h p hp) hr

theorem flatMap_zipIdx {β γ : Type} (f : β → List γ) (l : List β) (i k : Nat) :
    ((l.zipIdx k).flatMap fun p => if p.2 = k + i then f p.1 else []) = (l[i]?).elim [] f := by
  induction l generalizing i k with
  | nil => rfl
  | cons b l ih =>
    rw [List.zipIdx_cons, List.flatMap_cons]
    cases i with
    | zero =>
      have hothers :
          ((l.zipIdx (k + 1)).flatMap fun p => if p.2 = k + 0 then f p.1 else []) = [] := by
        apply List.flatMap_eq_nil_iff.mpr
        rintro ⟨c, j⟩ hj
        have := List.le_snd_of_mem_zipIdx hj
        apply if_neg
        omega
      rw [hothers]
      simp
    | succ i =>
      have hplace : k + (i + 1) = k + 1 + i := by omega
      rw [hplace, ih i (k + 1), if_neg (by omega)]
      rfl

namespace Tick

def deeds (t : Tick) (m : Move) : List Deed :=
  t.tasks.zipIdx.flatMap fun p =>
    if m.concerns p.2 then p.1.deeds t.settings t.now p.2 m else []

theorem deeds_filter (t : Tick) (m : Move) (i : Nat) :
    ((t.deeds m).filter fun d => d.place == i) = (t.tasks[i]?).elim [] fun task =>
      if m.concerns i then task.deeds t.settings t.now i m else [] := by
  rw [← flatMap_zipIdx _ t.tasks i 0]
  unfold deeds
  rw [List.filter_flatMap]
  apply List.flatMap_congr
  rintro ⟨task, j⟩ _
  rw [Nat.zero_add]
  dsimp only
  split
  . next hconcerns =>
    split
    . next hj =>
      subst hj
      rw [if_pos hconcerns]
      apply List.filter_eq_self.mpr
      intro d hd
      simpa using Task.place_of_mem_deeds hd
    . next hj =>
      apply List.filter_eq_nil_iff.mpr
      intro d hd
      simpa [Task.place_of_mem_deeds hd] using hj
  . next hconcerns =>
    split
    . next hj => rw [← hj, if_neg hconcerns, List.filter_nil]
    . rfl

theorem place_lt_of_mem_deeds {t : Tick} {m : Move} {d : Deed} (h : d ∈ t.deeds m) :
    d.place < t.tasks.length := by
  obtain ⟨⟨task, j⟩, hj, hd⟩ := List.mem_flatMap.mp h
  dsimp only at hd
  split at hd
  . rw [Task.place_of_mem_deeds hd]
    exact List.snd_lt_of_mem_zipIdx hj
  . cases hd

theorem getElem?_step (t : Tick) (m : Move) (i : Nat) :
    (t.step m).tasks[i]? = (t.tasks[i]?).map fun task =>
      if m.concerns i then task.moved t.settings t.now m else task := by
  unfold step
  exact List.getElem?_mapIdx

theorem hasPermit_of_idle {t : Tick} (h : ∀ task ∈ t.tasks, task.progress.isWorking = false) :
    t.hasPermit = true := by
  have hnobody : (t.tasks.filter fun task => task.progress.isWorking) = [] := by
    apply List.filter_eq_nil_iff.mpr
    intro task hmem
    rw [h task hmem]
    exact Bool.false_ne_true
  unfold hasPermit
  rw [hnobody]
  exact decide_eq_true (Nat.le_max_right _ _)

def Move.isEntry : Move → Bool
  | .enter _ => true
  | _ => false

def Move.within (store : Store) : Move → Move
  | .proceed i outside => .proceed i fun r => (store.answer outside r).1
  | m => m

def storeAfter (t : Tick) (store : Store) : Move → Store
  | .proceed i outside =>
    match (t.progress? i).bind Progress.request? with
    | some r => (store.answer outside r).2
    | none => store
  | _ => store

theorem start?_eq (settings : LiveSettings) (now : Instant) (pairs : List Pair) :
    start? settings now pairs =
      if settings.maxConcurrency ≤ maxPermits then .ok (start settings now pairs)
      else .error .tooManyPermits := by
  have hpermits : (start settings now pairs).permits ≤ maxPermits ↔
      settings.maxConcurrency ≤ maxPermits := by
    show max settings.maxConcurrency 1 ≤ maxPermits ↔ _
    have : 1 ≤ maxPermits := by decide
    omega
  unfold start?
  simp only [hpermits]

theorem eq_start_of_start? {settings : LiveSettings} {now : Instant} {pairs : List Pair} {t : Tick}
    (h : (start? settings now pairs).toOption = some t) : t = start settings now pairs := by
  rw [start?_eq] at h
  split at h
  . injection h with h
    exact h.symm
  . cases h

theorem start?_of_le {settings : LiveSettings} {now : Instant} {pairs : List Pair}
    (h : settings.maxConcurrency ≤ maxPermits) :
    start? settings now pairs = .ok (start settings now pairs) := by
  rw [start?_eq, if_pos h]

end Tick

structure Floor where
  store : Store
  tick : Tick
  deeds : List Deed

namespace Floor

def start (store : Store) (settings : LiveSettings) (now : Instant) (pairs : List Pair) : Floor where
  store
  tick := .start settings now pairs
  deeds := []

def start? (store : Store) (settings : LiveSettings) (now : Instant) : Except Fault Floor :=
  (Tick.start? settings now (Pair.ofStrategies (store.withStatus .active))).map fun tick =>
    { store, tick, deeds := [] }

def act (f : Floor) (m : Tick.Move) : Floor where
  store := f.tick.storeAfter f.store m
  tick := f.tick.step (m.within f.store)
  deeds := f.deeds ++ f.tick.deeds (m.within f.store)

def step (f : Floor) (m : Tick.Move) : Floor :=
  if m.isEntry && !f.tick.hasPermit then f else f.act m

def run (f : Floor) (moves : List Tick.Move) : Floor :=
  moves.foldl step f

def deedsOf (f : Floor) (i : Nat) : List Deed :=
  f.deeds.filter fun d => d.place == i

def signalsOf (f : Floor) (i : Nat) : List (Signal Float) :=
  (f.deedsOf i).filterMap Deed.signal?

def signals (f : Floor) : List (Signal Float) :=
  f.deeds.filterMap Deed.signal?

def outcomesOf (f : Floor) (i : Nat) : List Outcome :=
  (f.deedsOf i).filterMap Deed.outcome?

def outcomes (f : Floor) : List Outcome :=
  f.deeds.filterMap Deed.outcome?

def AtOnce (f : Floor) (m : Tick.Move) : Prop :=
  ∀ i task, f.tick.tasks[i]? = some task → m.concerns i = true → task.AtOnce m

/--
Whether all signals are taken as soon as they are handed over: nobody is left alone with a signal
that was not taken, but the deadline may come at any time.
-/
def TakenAtOnce (f : Floor) : List Tick.Move → Prop
  | [] => True
  | m :: moves => f.AtOnce m ∧ (f.step m).TakenAtOnce moves

variable {f : Floor} {m : Tick.Move}

theorem step_of_isEntry_eq_false (h : m.isEntry = false) : f.step m = f.act m := by
  unfold step
  rw [h, Bool.false_and, if_neg Bool.false_ne_true]

theorem step_of_hasPermit (h : f.tick.hasPermit = true) : f.step m = f.act m := by
  unfold step
  rw [h, Bool.not_true, Bool.and_false, if_neg Bool.false_ne_true]

theorem run_induction {P : Floor → Prop} (act : ∀ f m, P f → P (f.act m)) (start : P f)
    (moves : List Tick.Move) : P (f.run moves) := by
  induction moves generalizing f with
  | nil => exact start
  | cons m moves ih =>
    apply ih
    unfold step
    split
    . exact start
    . exact act f m start

theorem concerns_within (store : Store) (m : Tick.Move) (i : Nat) :
    (m.within store).concerns i = m.concerns i := by
  cases m <;> rfl

theorem atOnce_within {task : Task} (h : task.AtOnce m) (store : Store) :
    task.AtOnce (m.within store) := by
  cases m <;> exact h

theorem deedsOf_act (f : Floor) (m : Tick.Move) (i : Nat) :
    (f.act m).deedsOf i = f.deedsOf i ++ (f.tick.tasks[i]?).elim [] fun task =>
      if m.concerns i then task.deeds f.tick.settings f.tick.now i (m.within f.store) else [] := by
  unfold deedsOf act
  rw [List.filter_append, Tick.deeds_filter]
  simp only [concerns_within]

theorem getElem?_act (f : Floor) (m : Tick.Move) (i : Nat) :
    (f.act m).tick.tasks[i]? = (f.tick.tasks[i]?).map fun task =>
      if m.concerns i then task.moved f.tick.settings f.tick.now (m.within f.store) else task := by
  unfold act
  rw [Tick.getElem?_step]
  simp only [concerns_within]

theorem pair_moved (task : Task) (m : Tick.Move) : (task.moved settings now m).pair = task.pair := by
  cases m <;> rfl

structure Over (settings : LiveSettings) (now : Instant) (pairs : List Pair) (f : Floor) : Prop where
  settings_eq : f.tick.settings = settings
  now_eq : f.tick.now = now
  pairs_eq : f.tick.tasks.map Task.pair = pairs
  place_lt : ∀ d ∈ f.deeds, d.place < pairs.length

variable {pairs : List Pair} {store : Store}

theorem over_start : Over settings now pairs (start store settings now pairs) where
  settings_eq := rfl
  now_eq := rfl
  pairs_eq := by
    unfold start Tick.start
    rw [List.map_map]
    exact List.map_id pairs
  place_lt _ hd := absurd hd List.not_mem_nil

theorem Over.length (h : Over settings now pairs f) : f.tick.tasks.length = pairs.length := by
  rw [← h.pairs_eq, List.length_map]

theorem Over.act (h : Over settings now pairs f) (m : Tick.Move) :
    Over settings now pairs (f.act m) where
  settings_eq := h.settings_eq
  now_eq := h.now_eq
  pairs_eq := by
    rw [← h.pairs_eq]
    apply List.ext_getElem?
    intro i
    rw [List.getElem?_map, getElem?_act, List.getElem?_map, Option.map_map]
    congr 1
    funext task
    dsimp only [Function.comp_apply]
    split
    . exact pair_moved task _
    . rfl
  place_lt := by
    intro d hd
    rcases List.mem_append.mp hd with hd | hd
    . exact h.place_lt d hd
    . rw [← h.length]
      exact Tick.place_lt_of_mem_deeds hd

theorem Over.run (h : Over settings now pairs f) (moves : List Tick.Move) :
    Over settings now pairs (f.run moves) :=
  run_induction (fun _ m h => h.act m) h moves

theorem Over.deedsOf_zero {pair : Pair} (h : Over settings now [pair] f) :
    f.deedsOf 0 = f.deeds := by
  apply List.filter_eq_self.mpr
  intro d hd
  have := h.place_lt d hd
  rw [List.length_singleton] at this
  rw [beq_iff_eq]
  omega

def Stand (prompt : Prop) (f : Floor) : Prop :=
  ∀ i (task : Task), f.tick.tasks[i]? = some task →
    task.pair.Stands prompt f.tick.settings f.tick.now task.progress (f.signalsOf i)
      (f.outcomesOf i)

theorem stand_start (prompt : Prop) : (start store settings now pairs).Stand prompt := by
  intro i task htask
  unfold start Tick.start at htask
  rw [List.getElem?_map] at htask
  obtain ⟨pair, _, rfl⟩ := Option.map_eq_some_iff.mp htask
  exact .waiting

theorem Stand.act {prompt : Prop} (h : f.Stand prompt) (hprompt : prompt → f.AtOnce m) :
    (f.act m).Stand prompt := by
  intro i task htask
  rw [getElem?_act] at htask
  obtain ⟨old, hold, rfl⟩ := Option.map_eq_some_iff.mp htask
  have hstands := h i old hold
  unfold signalsOf outcomesOf at hstands ⊢
  rw [deedsOf_act, hold, Option.elim_some, List.filterMap_append, List.filterMap_append]
  split
  . next hconcerns =>
    rw [pair_moved]
    apply hstands.moved
    intro h
    exact atOnce_within (hprompt h i old hold hconcerns) f.store
  . exact hstands.idle

theorem Stand.step {prompt : Prop} (h : f.Stand prompt) (hprompt : prompt → f.AtOnce m) :
    (f.step m).Stand prompt := by
  unfold Floor.step
  split
  . exact h
  . exact h.act hprompt

theorem Stand.run {prompt : Prop} {moves : List Tick.Move} (h : f.Stand prompt)
    (hprompt : prompt → f.TakenAtOnce moves) : (f.run moves).Stand prompt := by
  induction moves generalizing f with
  | nil => exact h
  | cons m moves ih => exact ih (h.step fun h => (hprompt h).1) fun h => (hprompt h).2

theorem store_run (hstand : f.Stand False) (moves : List Tick.Move) :
    (f.run moves).store = f.store := by
  have hboth := run_induction (P := fun g => g.Stand False ∧ g.store = f.store) ?_ ⟨hstand, rfl⟩ moves
  . exact hboth.2
  . rintro g m ⟨hstand, hstore⟩
    refine ⟨hstand.act False.elim, ?_⟩
    rw [← hstore]
    unfold act Tick.storeAfter
    dsimp only
    split
    . next i outside =>
      split
      . next r hr =>
        obtain ⟨progress, hprogress, hr⟩ := Option.bind_eq_some_iff.mp hr
        obtain ⟨task, htask, rfl⟩ := Option.map_eq_some_iff.mp hprogress
        exact (hstand i task htask).answer_store hr _ _
      . rfl
    . rfl

def supplying (reply : Except Failure (List (Candle Float))) : Host Id
  | .fetch _ => reply
  | .submit _ | .publish _ => .ok ()
  | .find _ | .list _ | .save _ => .error (.candleData "not for sale")
  | .now => { seconds := 0 }
  | .giveWay => ()

def trading (id : String) (status : Status) (symbols : List String) : Strategy where
  id
  ownerId := "owner"
  config := crossingConfig symbols
  status
  result := none
  testedAt := none
  reconfiguredAt := none
  activatedAt := none
  stoppedAt := none
  createdAt := { seconds := 0 }
  updatedAt := { seconds := 0 }
  version := 4
  pending := []

def tradingStore : Store where
  strategies := [trading "s-1" .active ["BTC", "ETH", "SOL"], trading "s-2" .paused ["BTC"]]

end Floor
end Live
end StrategyDesk
