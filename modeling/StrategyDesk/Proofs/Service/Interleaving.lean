import StrategyDesk.Proofs.Service.Conduct
import StrategyDesk.Service.Store
import Mathlib.Data.List.Basic
import Mathlib.Data.List.Induction
import Mathlib.Logic.Function.Basic

/-!
This module contains many services at work on one store. Each client carries out a service of his
own; at each turn one of them makes the next request of his service and gets the reply, and nothing
is said about whose turn it is. What was stored can be told from the turns alone.
-/

namespace StrategyDesk

open Exchange

inductive Call where
  | create (id ownerId : String) (cfg : Config Float)
  | get (id : String)
  | list (status : Status)
  | activate (id : String)
  | pause (id : String)
  | stop (id : String)
  | updateConfiguration (id : String) (cfg : Config Float)
  | backtest (id : String) (r : BacktestRequest Float)

def Call.service : Call → Service (List Strategy)
  | .create id ownerId cfg => (fun s => [s]) <$> Service.create id ownerId cfg
  | .get id => (fun s => [s]) <$> Service.load id
  | .list status => Service.withStatus status
  | .activate id => (fun s => [s]) <$> Service.activate id
  | .pause id => (fun s => [s]) <$> Service.pause id
  | .stop id => (fun s => [s]) <$> Service.stop id
  | .updateConfiguration id cfg => (fun s => [s]) <$> Service.updateConfiguration id cfg
  | .backtest id r => (fun s => [s]) <$> Service.backtest id r

def Store.answer (store : Store) (outside : Host Id) : (r : Request) → r.Reply × Store
  | .find id => (.ok (store.find? id), store)
  | .list status => (.ok (store.withStatus status), store)
  | .save s =>
    match store.save s with
    | .ok (store, version) => (.ok version, store)
    | .error f => (.error f, store)
  | r => (outside r, store)

theorem Store.save_eq_ok {store later : Store} {s : Strategy} {version : Nat} :
    store.save s = .ok (later, version) ↔
      s.version = store.version s.id ∧ version = s.version + 1 ∧
        later = store.put (s.saved version).published := by
  unfold save
  dsimp
  split
  . next h =>
    rw [← h]
    constructor
    . intro hsave
      injection hsave with hsave
      injection hsave with hlater hversion
      subst hlater hversion
      exact ⟨rfl, rfl, rfl⟩
    . rintro ⟨_, rfl, rfl⟩
      rfl
  . next h => simp [h]

theorem Store.find?_of_save {store later : Store} {s : Strategy} {version : Nat}
    (h : store.save s = .ok (later, version)) (id : String) :
    later.find? id = if s.id = id then some (s.saved version).published else store.find? id := by
  obtain ⟨_, _, rfl⟩ := save_eq_ok.mp h
  split
  . next hid =>
    rw [← hid]
    exact find?_put_self store (s.saved version).published
  . next hid => exact find?_put_of_ne hid

theorem Store.answer_fits (store : Store) (outside : Host Id) (r : Request) :
    r.Fits (store.answer outside r).1 := by
  cases r with
  | find id =>
    show (Request.find id).Fits (.ok (store.find? id))
    cases h : store.find? id with
    | none => trivial
    | some s =>
      have := List.find?_some h
      simpa [Request.Fits] using this
  | save s => trivial
  | list status => trivial
  | publish e => trivial
  | fetch q => trivial
  | submit signal => trivial
  | now => trivial
  | giveWay => trivial

theorem Store.answer_cases (store : Store) (outside : Host Id) (r : Request) :
    (∃ s version, store.save s = .ok ((store.answer outside r).2, version) ∧
      Exchange.mk r (store.answer outside r).1 = ⟨.save s, .ok version⟩) ∨
    ((store.answer outside r).2 = store ∧
      (Exchange.mk r (store.answer outside r).1).committed? = none) := by
  cases r with
  | save s =>
    unfold answer
    dsimp
    cases hsave : store.save s with
    | ok result => exact .inl ⟨s, result.2, hsave, rfl⟩
    | error f => exact .inr ⟨rfl, rfl⟩
  | find id => exact .inr ⟨rfl, rfl⟩
  | list status => exact .inr ⟨rfl, rfl⟩
  | publish e => exact .inr ⟨rfl, rfl⟩
  | fetch q => exact .inr ⟨rfl, rfl⟩
  | submit signal => exact .inr ⟨rfl, rfl⟩
  | now => exact .inr ⟨rfl, rfl⟩
  | giveWay => exact .inr ⟨rfl, rfl⟩

theorem perm_flatMap_filter {β : Type} (key : β → Nat) {n : Nat} {l : List β}
    (h : ∀ b ∈ l, key b < n) :
    ((List.range n).flatMap fun i => l.filter fun b => key b == i).Perm l := by
  induction n generalizing l with
  | zero =>
    cases l with
    | nil => exact .refl _
    | cons b l => exact absurd (h b List.mem_cons_self) (Nat.not_lt_zero _)
  | succ n ih =>
    have hbelow : ∀ b ∈ l.filter fun b => !(key b == n), key b < n := by
      intro b hb
      obtain ⟨hmem, hne⟩ := List.mem_filter.mp hb
      have := h b hmem
      simp only [Bool.not_eq_true', beq_eq_false_iff_ne] at hne
      omega
    have hparts : ((List.range n).flatMap fun i => l.filter fun b => key b == i) =
        (List.range n).flatMap fun i =>
          (l.filter fun b => !(key b == n)).filter fun b => key b == i := by
      apply List.flatMap_congr
      intro i hi
      have := List.mem_range.mp hi
      rw [List.filter_filter]
      apply List.filter_congr
      intro b _
      by_cases hkey : key b = i
      . simp [hkey, Nat.ne_of_lt this]
      . simp [hkey]
    rw [List.range_succ, List.flatMap_append, List.flatMap_singleton, hparts]
    exact ((ih hbelow).append_right _).trans
      (List.perm_append_comm.trans (List.filter_append_perm (fun b => key b == n) l))

structure Turn extends Exchange where
  client : Nat

abbrev Trace := List Turn

namespace Trace

def past (trace : Trace) (client : Nat) : List Exchange :=
  (trace.filter fun t => t.client == client).map Turn.toExchange

def log (trace : Trace) (id : String) : List (Nat × Strategy) :=
  trace.filterMap fun t =>
    (t.committed?.filter fun s => s.id == id).map fun s => (t.client, s)

def history (trace : Trace) (id : String) : List Strategy :=
  (trace.log id).map Prod.snd

variable {trace later : Trace} {id : String} {client : Nat}

@[simp]
theorem past_append : (trace ++ later).past client = trace.past client ++ past later client := by
  simp [past]

theorem past_concat (t : Turn) :
    past (trace ++ [t]) client =
      if t.client = client then trace.past client ++ [t.toExchange] else trace.past client := by
  rw [past_append]
  unfold past
  split
  . next h => simp [h]
  . next h => simp [h]

theorem exists_turn_of_mem_past {e : Exchange} (h : e ∈ trace.past client) :
    ∃ before t after, trace = before ++ t :: after ∧ t.client = client ∧ t.toExchange = e := by
  obtain ⟨t, ht, rfl⟩ := List.mem_map.mp h
  obtain ⟨hmem, hclient⟩ := List.mem_filter.mp ht
  obtain ⟨before, after, htrace⟩ := List.append_of_mem hmem
  exact ⟨before, t, after, htrace, by simpa using hclient, rfl⟩

@[simp]
theorem log_append : (trace ++ later).log id = trace.log id ++ log later id := by
  simp [log]

@[simp]
theorem history_append : (trace ++ later).history id = trace.history id ++ history later id := by
  simp [history]

theorem log_of_none {t : Turn} (h : t.committed? = none) : log [t] id = [] := by
  simp [log, h]

theorem log_of_some {t : Turn} {s : Strategy} (h : t.committed? = some s) :
    log [t] id = if s.id = id then [(t.client, s)] else [] := by
  unfold log
  rw [List.filterMap_cons, List.filterMap_nil, h]
  by_cases hid : s.id = id
  . simp [Option.filter, hid]
  . simp [Option.filter, hid]

theorem mem_log {s : Strategy} :
    (client, s) ∈ trace.log id ↔ s ∈ commits (trace.past client) ∧ s.id = id := by
  unfold log commits past
  simp only [List.mem_filterMap, List.mem_map, List.mem_filter, Option.map_eq_some_iff,
    Option.filter_eq_some_iff, beq_iff_eq]
  constructor
  . rintro ⟨t, ht, s', ⟨hs, hid⟩, heq⟩
    injection heq with hclient heq
    subst hclient heq
    exact ⟨⟨t.toExchange, ⟨t, ⟨ht, rfl⟩, rfl⟩, hs⟩, hid⟩
  . rintro ⟨⟨e, ⟨t, ⟨ht, rfl⟩, rfl⟩, hs⟩, hid⟩
    exact ⟨t, ht, s, ⟨hs, hid⟩, rfl⟩

theorem mem_history_of_mem_log (h : (client, s) ∈ trace.log id) : s ∈ trace.history id :=
  List.mem_map_of_mem h

theorem id_of_mem_history (h : s ∈ trace.history id) : s.id = id := by
  obtain ⟨⟨client, s⟩, hlog, rfl⟩ := List.mem_map.mp h
  exact (mem_log.mp hlog).2

theorem dealings_cons {t : Turn} : dealings (past (t :: trace) client) =
    if t.client = client ∧ t.isDealing = true then t.toExchange :: dealings (trace.past client)
    else dealings (trace.past client) := by
  unfold dealings past
  by_cases hclient : t.client = client
  . by_cases hdealing : t.isDealing = true
    . simp [hclient, hdealing]
    . simp [hclient, hdealing]
  . simp [hclient]

theorem exists_turn_of_dealings (ds : List Exchange) {es : List Exchange} {e : Exchange}
    (h : dealings (trace.past client) = ds ++ e :: es) :
    ∃ before t after, trace = before ++ t :: after ∧ t.client = client ∧ t.toExchange = e ∧
      dealings (past before client) = ds ∧ dealings (past after client) = es := by
  induction trace generalizing ds with
  | nil => cases List.append_ne_nil_of_right_ne_nil ds (List.cons_ne_nil e es) h.symm
  | cons t trace ih =>
    rw [dealings_cons] at h
    split at h
    . next ht =>
      cases ds with
      | nil =>
        injection h with he hes
        exact ⟨[], t, trace, rfl, ht.1, he, rfl, hes⟩
      | cons d ds =>
        injection h with hd hds
        obtain ⟨before, u, after, rfl, hclient, he, hbefore, hafter⟩ := ih ds hds
        refine ⟨t :: before, u, after, rfl, hclient, he, ?_, hafter⟩
        rw [dealings_cons, if_pos ht, hd, hbefore]
    . next ht =>
      obtain ⟨before, u, after, rfl, hclient, he, hbefore, hafter⟩ := ih ds h
      refine ⟨t :: before, u, after, rfl, hclient, he, ?_, hafter⟩
      rw [dealings_cons, if_neg ht, hbefore]

theorem dealings_singleton {t : Turn} {e : Exchange} (hclient : t.client = client)
    (ht : t.toExchange = e) (he : e.isDealing = true) : dealings (past [t] client) = [e] := by
  subst ht
  rw [dealings_cons, if_pos ⟨hclient, he⟩]
  rfl

end Trace

structure World where
  store : Store
  clients : Nat → Program (Except Failure (List Strategy))
  trace : Trace

/-- Whose turn it is, and what is replied to him if he does not ask the store. -/
structure Move where
  client : Nat
  outside : Host Id

namespace World

def start (calls : Nat → Call) : World where
  store := .empty
  clients client := (calls client).service.run
  trace := []

def turn (w : World) (m : Move) (r : Request)
    (next : r.Reply → Program (Except Failure (List Strategy))) : World :=
  let answer := w.store.answer m.outside r
  { store := answer.2
    clients := Function.update w.clients m.client (next answer.1)
    trace := w.trace ++ [⟨⟨r, answer.1⟩, m.client⟩] }

def step (w : World) (m : Move) : World :=
  match w.clients m.client with
  | .ask r next => w.turn m r next
  | _ => w

def run (calls : Nat → Call) (moves : List Move) : World :=
  moves.foldl step (start calls)

def hasReturned (w : World) (client : Nat) : Bool :=
  match w.clients client with
  | .done _ => true
  | _ => false

variable {calls : Nat → Call}

theorem run_concat (moves : List Move) (m : Move) :
    run calls (moves ++ [m]) = (run calls moves).step m := by
  simp [run]

theorem run_induction {P : World → Prop} (start : P (start calls))
    (turn : ∀ moves m r next, P (run calls moves) →
      (run calls moves).clients m.client = .ask r next → P ((run calls moves).turn m r next))
    (moves : List Move) : P (run calls moves) := by
  induction moves using List.reverseRecOn with
  | nil => exact start
  | append_singleton moves m ih =>
    rw [run_concat]
    unfold step
    split
    . next r next h => exact turn moves m r next ih h
    . exact ih

theorem turn_cases (w : World) (m : Move) (r : Request)
    (next : r.Reply → Program (Except Failure (List Strategy))) :
    (∃ s version, r = .save s ∧ w.store.save s = .ok ((w.turn m r next).store, version) ∧
      (w.turn m r next).trace = w.trace ++ [⟨⟨.save s, .ok version⟩, m.client⟩]) ∨
    ((w.turn m r next).store = w.store ∧
      ∀ id, (w.turn m r next).trace.log id = w.trace.log id) := by
  rcases w.store.answer_cases m.outside r with ⟨s, version, hsave, hexchange⟩ | ⟨hstore, hnone⟩
  . left
    refine ⟨s, version, congrArg Exchange.request hexchange, hsave, ?_⟩
    unfold turn
    dsimp only
    rw [hexchange]
  . right
    refine ⟨hstore, ?_⟩
    intro id
    unfold turn
    dsimp only
    rw [Trace.log_append, Trace.log_of_none hnone, List.append_nil]

theorem obeys_run {conduct : Call → Conduct}
    {ending : Call → List Exchange → Except Failure (List Strategy) → Prop}
    (h : ∀ call : Call, call.service.run.Obeys (conduct call) (ending call) [])
    (moves : List Move) (client : Nat) :
    ((run calls moves).clients client).Obeys (conduct (calls client)) (ending (calls client))
      ((run calls moves).trace.past client) := by
  revert client
  refine run_induction (P := fun w => ∀ client, (w.clients client).Obeys (conduct (calls client))
    (ending (calls client)) (w.trace.past client)) ?_ ?_ moves
  . intro client
    exact h (calls client)
  . intro moves m r next ih hask client
    unfold turn
    dsimp
    rw [Trace.past_concat]
    dsimp
    split
    . next hclient =>
      -- the client whose turn it was has got a reply that fits his request
      subst hclient
      rw [Function.update_self]
      have hobeys := ih m.client
      rw [hask] at hobeys
      exact hobeys.2 _ (Store.answer_fits _ m.outside r)
    . next hclient =>
      rw [Function.update_of_ne (Ne.symm hclient)]
      exact ih client

theorem find?_run (moves : List Move) (id : String) :
    (run calls moves).store.find? id = ((run calls moves).trace.history id).getLast? := by
  refine run_induction (P := fun w => w.store.find? id = (w.trace.history id).getLast?) ?_ ?_ moves
  . rfl
  . intro moves m r next ih hask
    rcases (run calls moves).turn_cases m r next with
      ⟨s, version, _, hsave, htrace⟩ | ⟨hstore, hlog⟩
    . rw [Store.find?_of_save hsave, htrace, Trace.history_append]
      unfold Trace.history at ih ⊢
      rw [Trace.log_of_some (s := (s.saved version).published) rfl]
      by_cases hid : s.id = id
      . simp [hid, Strategy.published, Strategy.saved]
      . simpa [hid, Strategy.published, Strategy.saved] using ih
    . rw [hstore, ih]
      unfold Trace.history
      rw [hlog]

theorem exists_world_of_turn {moves : List Move} {before after : Trace} {t : Turn}
    (h : (run calls moves).trace = before ++ t :: after) :
    ∃ earlier next outside, (run calls earlier).trace = before ∧
      (run calls earlier).clients t.client = .ask t.request next ∧
      t.reply = ((run calls earlier).store.answer outside t.request).1 := by
  induction moves using List.reverseRecOn generalizing after with
  | nil => simp [run, start] at h
  | append_singleton moves m ih =>
    rw [run_concat] at h
    unfold step at h
    split at h
    . next r next hask =>
      -- either `t` is the last turn, or it was taken before this move
      rcases List.eq_nil_or_concat after with rfl | ⟨after, last, rfl⟩
      . obtain ⟨hbefore, hturn⟩ := List.append_inj' h rfl
        injection hturn with hturn
        subst hturn
        exact ⟨moves, next, m.outside, hbefore, hask, rfl⟩
      . rw [List.concat_eq_append, ← List.cons_append, ← List.append_assoc] at h
        exact ih (List.append_inj' h rfl).1
    . exact ih h

end World
end StrategyDesk
