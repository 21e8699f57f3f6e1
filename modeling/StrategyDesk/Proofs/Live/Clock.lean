import StrategyDesk.Proofs.Live.Floor
import Mathlib.Logic.Function.Basic
import Mathlib.Logic.Relation

/-!
This module contains ticks on a clock. The candles of each pair take their time to arrive, counted
from when the pair got its permit, and no time passes over the head of a pair whose candles are there
or that is to be given up. What becomes of a pair can be told from its own candles.
-/

namespace StrategyDesk
namespace Live

structure Delivery where
  delay : Nat
  reply? : Option (Except Failure (List (Candle Float)))

structure Clocked where
  floor : Floor
  clock : Nat
  began : Nat → Nat

namespace Clocked

def start (store : Store) (settings : LiveSettings) (now : Instant) (pairs : List Pair) :
    Clocked where
  floor := .start store settings now pairs
  clock := 0
  began _ := 0

def request? (c : Clocked) (i : Nat) : Option Request :=
  (c.floor.tick.progress? i).bind Progress.request?

def after (c : Clocked) (m : Tick.Move) : Clocked :=
  { c with floor := c.floor.step m }

def grant (c : Clocked) (i : Nat) : Clocked where
  floor := c.floor.step (.enter i)
  clock := c.clock
  began := Function.update c.began i c.clock

def due (deliveries : Nat → Delivery) (c : Clocked) (i : Nat) : Nat :=
  c.began i + min (deliveries i).delay c.floor.tick.settings.pairTimeout

/--
The steps of a tick. Permits are given to the pairs in any order, and outcomes are collected in any
order. Candles that arrive just in time are not too late. A signal is taken as soon as it is handed
over.
-/
inductive Step (deliveries : Nat → Delivery) : Clocked → Clocked → Prop
  | enter {c} (i) : c.floor.tick.progress? i = some .waiting → c.floor.tick.hasPermit = true →
    Step deliveries c (c.grant i)
  | arrive {c} (i) {q reply} : c.request? i = some (.fetch q) →
    (deliveries i).reply? = some reply → c.began i + (deliveries i).delay ≤ c.clock →
      Step deliveries c (c.after (.proceed i (Floor.supplying reply)))
  | breakDown {c} (i) {q} : c.request? i = some (.fetch q) → (deliveries i).reply? = none →
    c.began i + (deliveries i).delay ≤ c.clock → Step deliveries c (c.after (.panic i))
  | expire {c} (i) {q} : c.request? i = some (.fetch q) →
    c.began i + c.floor.tick.settings.pairTimeout ≤ c.clock →
      c.clock < c.began i + (deliveries i).delay → Step deliveries c (c.after (.expire i))
  | submit {c} (i) {signal} : c.request? i = some (.submit signal) →
    Step deliveries c (c.after (.proceed i (Floor.supplying (.ok []))))
  | count {c} (i) : Step deliveries c (c.after (.count i))
  | pass {c} (d) :
    (∀ i p, c.floor.tick.progress? i = some (.working p) → c.clock + d ≤ c.due deliveries i) →
      c.clock + d ≤ c.floor.tick.settings.tickDeadline →
        Step deliveries c { c with clock := c.clock + d }
  | deadline {c} : c.floor.tick.settings.tickDeadline ≤ c.clock →
    Step deliveries c (c.after .deadline)

abbrev Reaches (deliveries : Nat → Delivery) : Clocked → Clocked → Prop :=
  Relation.ReflTransGen (Step deliveries)

end Clocked

namespace Pair

def verdict (pair : Pair) (now : Instant) :
    Except Failure (List (Candle Float)) → Outcome × List (Signal Float)
  | .error _ => (.failed, [])
  | .ok cs =>
    match pair.latest now cs with
    | .error _ => (.failed, [])
    | .ok none => (.quiet, [])
    | .ok (some signal) => (.signal, [signal])

def fate (pair : Pair) (settings : LiveSettings) (now : Instant) (d : Delivery) :
    Outcome × List (Signal Float) :=
  if pair.isReachable settings now then
    if settings.pairTimeout < d.delay then
      (.timedOut, [])
    else
      match d.reply? with
      | none => (.failed, [])
      | some reply => pair.verdict now reply
  else
    (.failed, [])

def span (pair : Pair) (settings : LiveSettings) (now : Instant) (d : Delivery) : Nat :=
  if pair.isReachable settings now then min d.delay settings.pairTimeout else 0

inductive OnCourse (pair : Pair) (settings : LiveSettings) (now : Instant) (d : Delivery)
    (began clock : Nat) : Progress → List (Signal Float) → Prop
  | waiting : OnCourse pair settings now d began clock .waiting []
  | fetching : pair.isReachable settings now = true → began ≤ clock →
    clock ≤ began + min d.delay settings.pairTimeout →
      OnCourse pair settings now d began clock
        (.working (.ask (.fetch (pair.request settings now)) (pair.afterCandles now))) []
  | submitting {signal} : pair.fate settings now d = (.signal, [signal]) →
    pair.span settings now d ≤ clock →
      OnCourse pair settings now d began clock (.working (handOver signal)) [signal]
  | finished {outcome signals} : pair.fate settings now d = (outcome, signals) →
    pair.span settings now d ≤ clock →
      OnCourse pair settings now d began clock (.finished outcome) signals
  | counted {outcome signals} : pair.fate settings now d = (outcome, signals) →
    pair.span settings now d ≤ clock →
      OnCourse pair settings now d began clock (.counted outcome) signals
  | cutOff {rest signals} : OnCourse pair settings now d began clock (.cutOff rest) signals

variable {pair : Pair} {settings : LiveSettings} {now : Instant} {d : Delivery} {began clock : Nat}
  {signals : List (Signal Float)} {progress : Progress}

theorem fate_of_not_isReachable (h : pair.isReachable settings now = false) (d : Delivery) :
    pair.fate settings now d = (.failed, []) := by
  unfold fate
  rw [h]
  rfl

theorem fate_of_late (h : pair.isReachable settings now = true)
    (hlate : settings.pairTimeout < d.delay) : pair.fate settings now d = (.timedOut, []) := by
  unfold fate
  rw [if_pos h, if_pos hlate]

theorem fate_of_none (h : pair.isReachable settings now = true)
    (hintime : d.delay ≤ settings.pairTimeout) (hreply : d.reply? = none) :
    pair.fate settings now d = (.failed, []) := by
  unfold fate
  rw [if_pos h, if_neg (Nat.not_lt_of_le hintime), hreply]

theorem fate_of_some {reply : Except Failure (List (Candle Float))}
    (h : pair.isReachable settings now = true) (hintime : d.delay ≤ settings.pairTimeout)
    (hreply : d.reply? = some reply) : pair.fate settings now d = pair.verdict now reply := by
  unfold fate
  rw [if_pos h, if_neg (Nat.not_lt_of_le hintime), hreply]

theorem span_of_isReachable (h : pair.isReachable settings now = true) (d : Delivery) :
    pair.span settings now d = min d.delay settings.pairTimeout :=
  if_pos h

theorem span_of_not_isReachable (h : pair.isReachable settings now = false) (d : Delivery) :
    pair.span settings now d = 0 := by
  unfold span
  rw [h]
  rfl

theorem onCourse_work : OnCourse pair settings now d clock clock
    (.ofProgram (pair.work settings now).run) (pair.work settings now).run.signals := by
  cases h : pair.isReachable settings now with
  | true =>
    rw [work_of_isReachable h]
    exact .fetching h (Nat.le_refl _) (Nat.le_add_right _ _)
  | false =>
    rw [work_of_not_isReachable h]
    apply OnCourse.finished (fate_of_not_isReachable h d)
    rw [span_of_not_isReachable h]
    exact Nat.zero_le _

theorem onCourse_afterCandles {reply : Except Failure (List (Candle Float))}
    (hfate : pair.fate settings now d = pair.verdict now reply)
    (hspan : pair.span settings now d ≤ clock) :
    OnCourse pair settings now d began clock (.ofProgram (pair.afterCandles now reply))
      (pair.afterCandles now reply).signals := by
  cases reply with
  | error f => exact .finished hfate hspan
  | ok cs =>
    unfold verdict at hfate
    dsimp only at hfate
    cases hlatest : pair.latest now cs with
    | error f =>
      rw [afterCandles_of_error hlatest]
      rw [hlatest] at hfate
      exact .finished hfate hspan
    | ok signal? =>
      rw [hlatest] at hfate
      cases signal? with
      | none =>
        rw [afterCandles_of_none hlatest]
        exact .finished hfate hspan
      | some signal =>
        rw [afterCandles_of_some hlatest]
        exact .submitting hfate hspan

theorem OnCourse.of_isCounted (h : OnCourse pair settings now d began clock progress signals)
    (hcounted : progress.isCounted = true) :
    progress = .counted (pair.fate settings now d).1 ∧ signals = (pair.fate settings now d).2 ∧
      pair.span settings now d ≤ clock := by
  cases h with
  | counted hfate hspan =>
    rw [hfate]
    exact ⟨rfl, rfl, hspan⟩
  | waiting => cases hcounted
  | fetching _ _ _ => cases hcounted
  | submitting _ _ => cases hcounted
  | finished _ _ => cases hcounted
  | cutOff => cases hcounted

theorem OnCourse.idle (h : OnCourse pair settings now d began clock progress signals) :
    OnCourse pair settings now d began clock progress
      (signals ++ ([] : List Deed).filterMap Deed.signal?) := by
  rw [List.filterMap_nil, List.append_nil]
  exact h

theorem onCourse_asks (i : Nat) {p : Program (Except Failure Bool)}
    (h : OnCourse pair settings now d began clock (.ofProgram p) p.signals) :
    OnCourse pair settings now d began clock (.ofProgram p)
      ([] ++ ((Progress.ofProgram p).asks i).filterMap Deed.signal?) := by
  rw [Progress.signal?_asks, Progress.signals_ofProgram]
  exact h

theorem OnCourse.of_fetch {q : CandleRequest}
    (h : OnCourse pair settings now d began clock progress signals)
    (hrequest : progress.request? = some (.fetch q)) :
    (progress = .working (.ask (.fetch (pair.request settings now)) (pair.afterCandles now)) ∧
      signals = [] ∧ pair.isReachable settings now = true ∧
      clock ≤ began + min d.delay settings.pairTimeout) ∨ ∃ rest, progress = .cutOff rest := by
  cases h with
  | fetching hreachable _ hclock => exact .inl ⟨rfl, rfl, hreachable, hclock⟩
  | cutOff => exact .inr ⟨_, rfl⟩
  | waiting => cases hrequest
  | submitting _ _ => cases hrequest
  | finished _ _ => cases hrequest
  | counted _ _ => cases hrequest

theorem OnCourse.pass (h : OnCourse pair settings now d began clock progress signals) (k : Nat)
    (hdue : progress.isWorking = true → clock + k ≤ began + min d.delay settings.pairTimeout) :
    OnCourse pair settings now d began (clock + k) progress signals := by
  cases h with
  | waiting => exact .waiting
  | fetching hreachable hbegan _ =>
    exact .fetching hreachable (Nat.le_add_right_of_le hbegan) (hdue rfl)
  | submitting hfate hspan => exact .submitting hfate (Nat.le_add_right_of_le hspan)
  | finished hfate hspan => exact .finished hfate (Nat.le_add_right_of_le hspan)
  | counted hfate hspan => exact .counted hfate (Nat.le_add_right_of_le hspan)
  | cutOff => exact .cutOff

end Pair

section Moves

variable {task : Task} {settings : LiveSettings} {now : Instant} {d : Delivery} {began clock : Nat}
  {signals : List (Signal Float)} {replies : Host Id}

theorem Task.onCourse_enter
    (h : task.pair.OnCourse settings now d began clock task.progress signals)
    (hwaiting : task.progress = .waiting) (i : Nat) :
    task.pair.OnCourse settings now d clock clock (task.moved settings now (.enter i)).progress
      (signals ++ (task.deeds settings now i (.enter i)).filterMap Deed.signal?) := by
  obtain ⟨pair, progress⟩ := task
  cases hwaiting
  cases h
  exact Pair.onCourse_asks i Pair.onCourse_work

theorem Task.onCourse_arrive {q : CandleRequest} {reply : Except Failure (List (Candle Float))}
    (h : task.pair.OnCourse settings now d began clock task.progress signals)
    (hrequest : task.progress.request? = some (.fetch q)) (hreply : d.reply? = some reply)
    (hdue : began + d.delay ≤ clock) (hreplies : ∀ q, replies (.fetch q) = reply) (i : Nat) :
    task.pair.OnCourse settings now d began clock
      (task.moved settings now (.proceed i replies)).progress
      (signals ++ (task.deeds settings now i (.proceed i replies)).filterMap Deed.signal?) := by
  obtain ⟨pair, progress⟩ := task
  dsimp only at h hrequest ⊢
  obtain ⟨rfl, rfl, hreachable, hclock⟩ | ⟨rest, rfl⟩ := h.of_fetch hrequest
  . have hspan := Pair.span_of_isReachable hreachable d
    have hcourse : pair.OnCourse settings now d began clock
        (.ofProgram (pair.afterCandles now (replies (.fetch (pair.request settings now)))))
        (pair.afterCandles now (replies (.fetch (pair.request settings now)))).signals := by
      rw [hreplies]
      apply Pair.onCourse_afterCandles
      . exact Pair.fate_of_some hreachable (by omega) hreply
      . omega
    exact Pair.onCourse_asks i hcourse
  . exact .cutOff

theorem Task.onCourse_breakDown {q : CandleRequest}
    (h : task.pair.OnCourse settings now d began clock task.progress signals)
    (hrequest : task.progress.request? = some (.fetch q)) (hreply : d.reply? = none)
    (hdue : began + d.delay ≤ clock) (i : Nat) :
    task.pair.OnCourse settings now d began clock (task.moved settings now (.panic i)).progress
      (signals ++ (task.deeds settings now i (.panic i)).filterMap Deed.signal?) := by
  obtain ⟨pair, progress⟩ := task
  dsimp only at h hrequest ⊢
  apply Pair.OnCourse.idle
  obtain ⟨rfl, rfl, hreachable, hclock⟩ | ⟨rest, rfl⟩ := h.of_fetch hrequest
  . have hspan := Pair.span_of_isReachable hreachable d
    apply Pair.OnCourse.finished
    . exact Pair.fate_of_none hreachable (by omega) hreply
    . omega
  . exact .cutOff

theorem Task.onCourse_expire {q : CandleRequest}
    (h : task.pair.OnCourse settings now d began clock task.progress signals)
    (hrequest : task.progress.request? = some (.fetch q))
    (hdue : began + settings.pairTimeout ≤ clock) (hlate : clock < began + d.delay) (i : Nat) :
    task.pair.OnCourse settings now d began clock (task.moved settings now (.expire i)).progress
      (signals ++ (task.deeds settings now i (.expire i)).filterMap Deed.signal?) := by
  obtain ⟨pair, progress⟩ := task
  dsimp only at h hrequest ⊢
  apply Pair.OnCourse.idle
  obtain ⟨rfl, rfl, hreachable, hclock⟩ | ⟨rest, rfl⟩ := h.of_fetch hrequest
  . have hspan := Pair.span_of_isReachable hreachable d
    apply Pair.OnCourse.finished
    . exact Pair.fate_of_late hreachable (by omega)
    . omega
  . exact .cutOff

theorem Task.onCourse_submit {signal : Signal Float}
    (h : task.pair.OnCourse settings now d began clock task.progress signals)
    (hrequest : task.progress.request? = some (.submit signal))
    (htaken : ∀ signal, replies (.submit signal) = .ok ()) (i : Nat) :
    task.pair.OnCourse settings now d began clock
      (task.moved settings now (.proceed i replies)).progress
      (signals ++ (task.deeds settings now i (.proceed i replies)).filterMap Deed.signal?) := by
  obtain ⟨pair, progress⟩ := task
  dsimp only at h ⊢
  cases h with
  | @submitting signal hfate hspan =>
    have hdone : Program.step replies (Pair.handOver signal) = .done (.ok true) := by
      show Program.done ((replies (.submit signal)).map fun _ => true) = _
      rw [htaken]
      rfl
    have hcourse : pair.OnCourse settings now d began clock
        (.ofProgram (Program.step replies (Pair.handOver signal))) [signal] := by
      rw [hdone]
      exact .finished hfate hspan
    exact hcourse.idle
  | cutOff => exact .cutOff
  | waiting => cases hrequest
  | fetching _ _ _ => cases hrequest
  | finished _ _ => cases hrequest
  | counted _ _ => cases hrequest

theorem Task.onCourse_count
    (h : task.pair.OnCourse settings now d began clock task.progress signals) (i : Nat) :
    task.pair.OnCourse settings now d began clock (task.moved settings now (.count i)).progress
      (signals ++ (task.deeds settings now i (.count i)).filterMap Deed.signal?) := by
  obtain ⟨pair, progress⟩ := task
  dsimp only at h ⊢
  cases h with
  | finished hfate hspan => exact (Pair.OnCourse.counted hfate hspan).idle
  | waiting => exact Pair.OnCourse.waiting.idle
  | fetching hreachable hbegan hclock =>
    exact (Pair.OnCourse.fetching hreachable hbegan hclock).idle
  | submitting hfate hspan => exact (Pair.OnCourse.submitting hfate hspan).idle
  | counted hfate hspan => exact (Pair.OnCourse.counted hfate hspan).idle
  | cutOff => exact Pair.OnCourse.cutOff.idle

theorem Task.onCourse_deadline
    (h : task.pair.OnCourse settings now d began clock task.progress signals) (i : Nat) :
    task.pair.OnCourse settings now d began clock (task.moved settings now .deadline).progress
      (signals ++ (task.deeds settings now i .deadline).filterMap Deed.signal?) := by
  obtain ⟨pair, progress⟩ := task
  dsimp only at h ⊢
  cases h with
  | counted hfate hspan => exact (Pair.OnCourse.counted hfate hspan).idle
  | waiting => exact .cutOff
  | fetching _ _ _ => exact .cutOff
  | submitting _ _ => exact .cutOff
  | finished _ _ => exact .cutOff
  | cutOff => exact .cutOff

end Moves

namespace Clocked

variable {deliveries : Nat → Delivery} {c later : Clocked}

def OnCourse (deliveries : Nat → Delivery) (c : Clocked) : Prop :=
  ∀ i (task : Task), c.floor.tick.tasks[i]? = some task →
    task.pair.OnCourse c.floor.tick.settings c.floor.tick.now (deliveries i) (c.began i) c.clock
      task.progress (c.floor.signalsOf i)

theorem onCourse_start (deliveries : Nat → Delivery) (store : Store) (settings : LiveSettings)
    (now : Instant) (pairs : List Pair) : OnCourse deliveries (start store settings now pairs) := by
  intro i task htask
  unfold start Floor.start Tick.start at htask
  rw [List.getElem?_map] at htask
  obtain ⟨pair, _, rfl⟩ := Option.map_eq_some_iff.mp htask
  exact .waiting

theorem OnCourse.act (h : OnCourse deliveries c) (m : Tick.Move) (began : Nat → Nat)
    (hothers : ∀ i, m.concerns i = false → began i = c.began i)
    (hself : ∀ i (task : Task), c.floor.tick.tasks[i]? = some task → m.concerns i = true →
      task.pair.OnCourse c.floor.tick.settings c.floor.tick.now (deliveries i) (began i) c.clock
        (task.moved c.floor.tick.settings c.floor.tick.now (m.within c.floor.store)).progress
        (c.floor.signalsOf i ++ (task.deeds c.floor.tick.settings c.floor.tick.now i
          (m.within c.floor.store)).filterMap Deed.signal?)) :
    OnCourse deliveries { c with floor := c.floor.act m, began } := by
  intro i task htask
  rw [Floor.getElem?_act] at htask
  obtain ⟨old, hold, rfl⟩ := Option.map_eq_some_iff.mp htask
  dsimp only
  unfold Floor.signalsOf at hself ⊢
  rw [Floor.deedsOf_act, hold, Option.elim_some, List.filterMap_append]
  cases hconcerns : m.concerns i with
  | true =>
    rw [if_pos rfl, if_pos rfl, Floor.pair_moved]
    exact hself i old hold hconcerns
  | false =>
    rw [hothers i hconcerns]
    exact (h i old hold).idle

theorem OnCourse.after (h : OnCourse deliveries c) {m : Tick.Move} (hentry : m.isEntry = false)
    (hself : ∀ i (task : Task), c.floor.tick.tasks[i]? = some task → m.concerns i = true →
      task.pair.OnCourse c.floor.tick.settings c.floor.tick.now (deliveries i) (c.began i) c.clock
        (task.moved c.floor.tick.settings c.floor.tick.now (m.within c.floor.store)).progress
        (c.floor.signalsOf i ++ (task.deeds c.floor.tick.settings c.floor.tick.now i
          (m.within c.floor.store)).filterMap Deed.signal?)) :
    OnCourse deliveries (c.after m) := by
  unfold Clocked.after
  rw [Floor.step_of_isEntry_eq_false hentry]
  exact h.act m c.began (fun _ _ => rfl) hself

theorem OnCourse.after_request (h : OnCourse deliveries c) {i : Nat} {r : Request}
    (hrequest : c.request? i = some r) {m : Tick.Move} (hentry : m.isEntry = false)
    (hconcerns : ∀ j, m.concerns j = (i == j))
    (hself : ∀ task : Task, task.pair.OnCourse c.floor.tick.settings c.floor.tick.now (deliveries i)
        (c.began i) c.clock task.progress (c.floor.signalsOf i) →
      task.progress.request? = some r →
        task.pair.OnCourse c.floor.tick.settings c.floor.tick.now (deliveries i) (c.began i) c.clock
          (task.moved c.floor.tick.settings c.floor.tick.now (m.within c.floor.store)).progress
          (c.floor.signalsOf i ++ (task.deeds c.floor.tick.settings c.floor.tick.now i
            (m.within c.floor.store)).filterMap Deed.signal?)) :
    OnCourse deliveries (c.after m) := by
  obtain ⟨progress, hprogress, hr⟩ := Option.bind_eq_some_iff.mp hrequest
  obtain ⟨task, htask, rfl⟩ := Option.map_eq_some_iff.mp hprogress
  apply h.after hentry
  intro j other hother hj
  rw [hconcerns] at hj
  obtain rfl := beq_iff_eq.mp hj
  rw [htask] at hother
  injection hother with hother
  subst hother
  exact hself task (h i task htask) hr

theorem OnCourse.step (h : OnCourse deliveries c) (hstep : Step deliveries c later) :
    OnCourse deliveries later := by
  cases hstep with
  | enter i hwaiting hpermit =>
    obtain ⟨task, htask, hwaiting⟩ := Option.map_eq_some_iff.mp hwaiting
    unfold Clocked.grant
    rw [Floor.step_of_hasPermit hpermit]
    apply h.act
    . intro j hj
      apply Function.update_of_ne
      rintro rfl
      exact Bool.false_ne_true (hj.symm.trans (beq_self_eq_true j))
    . intro j other hother hj
      obtain rfl := beq_iff_eq.mp hj
      rw [htask] at hother
      injection hother with hother
      subst hother
      rw [Function.update_self]
      exact task.onCourse_enter (h i task htask) hwaiting i
  | arrive i hrequest hreply hdue =>
    apply h.after_request hrequest rfl fun _ => rfl
    intro task hcourse hr
    exact task.onCourse_arrive hcourse hr hreply hdue (fun _ => rfl) i
  | breakDown i hrequest hreply hdue =>
    apply h.after_request hrequest rfl fun _ => rfl
    intro task hcourse hr
    exact task.onCourse_breakDown hcourse hr hreply hdue i
  | expire i hrequest hdue hlate =>
    apply h.after_request hrequest rfl fun _ => rfl
    intro task hcourse hr
    exact task.onCourse_expire hcourse hr hdue hlate i
  | submit i hrequest =>
    apply h.after_request hrequest rfl fun _ => rfl
    intro task hcourse hr
    exact task.onCourse_submit hcourse hr (fun _ => rfl) i
  | count i =>
    apply h.after rfl
    intro j task htask _
    exact task.onCourse_count (h j task htask) j
  | pass k hdue hdeadline =>
    intro i task htask
    apply (h i task htask).pass
    intro hworking
    unfold Progress.isWorking at hworking
    split at hworking
    . next p hp =>
      apply hdue i p
      unfold Tick.progress?
      rw [htask, ← hp]
      rfl
    . cases hworking
  | deadline hdeadline =>
    apply h.after rfl
    intro i task htask _
    exact task.onCourse_deadline (h i task htask) i

theorem OnCourse.reaches (h : OnCourse deliveries c) (hreaches : Reaches deliveries c later) :
    OnCourse deliveries later := by
  induction hreaches with
  | refl => exact h
  | tail _ hstep ih => exact ih.step hstep

theorem exists_moves (hreaches : Reaches deliveries c later) :
    ∃ moves, later.floor = c.floor.run moves := by
  induction hreaches with
  | refl => exact ⟨[], rfl⟩
  | @tail middle later _ hstep ih =>
    obtain ⟨moves, hmoves⟩ := ih
    have hrun (m : Tick.Move) : (middle.after m).floor = c.floor.run (moves ++ [m]) := by
      unfold Clocked.after Floor.run
      rw [List.foldl_append, hmoves]
      rfl
    cases hstep with
    | enter i _ _ => exact ⟨_, hrun (.enter i)⟩
    | arrive i _ _ _ => exact ⟨_, hrun _⟩
    | breakDown i _ _ _ => exact ⟨_, hrun _⟩
    | expire i _ _ _ => exact ⟨_, hrun _⟩
    | submit i _ => exact ⟨_, hrun _⟩
    | count i => exact ⟨_, hrun _⟩
    | pass k _ _ => exact ⟨moves, hmoves⟩
    | deadline _ => exact ⟨_, hrun _⟩

theorem settings_after (c : Clocked) (m : Tick.Move) :
    (c.after m).floor.tick.settings = c.floor.tick.settings := by
  unfold after Floor.step
  split
  . rfl
  . rfl

theorem clock_le (hreaches : Reaches deliveries c later)
    (h : c.clock ≤ c.floor.tick.settings.tickDeadline) :
    later.clock ≤ later.floor.tick.settings.tickDeadline := by
  induction hreaches with
  | refl => exact h
  | @tail middle _ _ hstep ih =>
    cases hstep with
    | enter i _ _ =>
      show middle.clock ≤ (middle.after (.enter i)).floor.tick.settings.tickDeadline
      rw [settings_after]
      exact ih
    | arrive i _ _ _ => exact ih
    | breakDown i _ _ _ => exact ih
    | expire i _ _ _ => exact ih
    | submit i _ => exact ih
    | count i => exact ih
    | pass k _ hdeadline => exact hdeadline
    | deadline _ => exact ih

end Clocked
end Live
end StrategyDesk
