import StrategyDesk.Proofs.Service.Judgement

/-!
This module contains which events get published. What a client publishes is what the operations have
left on the states that he could store: nothing is published of a state that the store has refused,
and nothing is published twice. Whether events arrive makes no difference to anybody.
-/

namespace StrategyDesk

open Exchange

namespace Exchange

def announced : Exchange → List Event
  | ⟨.publish e, _⟩ => [e]
  | _ => []

def published : Exchange → List Event
  | ⟨.publish e, .ok ()⟩ => [e]
  | _ => []

def queued : Exchange → List Event
  | accepted s _ => s.pending
  | _ => []

def Settled (past : List Exchange) : Prop :=
  past.flatMap announced = past.flatMap queued

theorem settled_append {past : List Exchange} {e : Exchange} (h : Settled past)
    (hannounced : e.announced = []) (hqueued : e.queued = []) : Settled (past ++ [e]) := by
  unfold Settled at h ⊢
  simp only [List.flatMap_append, List.flatMap_cons, List.flatMap_nil, hannounced, hqueued,
    List.append_nil]
  exact h

end Exchange

def Request.isPublish : Request → Bool
  | .publish _ => true
  | _ => false

def Request.isSilent : Request → Bool
  | .publish _ | .save _ => false
  | _ => true

theorem Request.announced_of_isSilent {r : Request} (h : r.isSilent = true) (reply : r.Reply) :
    Exchange.announced ⟨r, reply⟩ = [] := by
  cases r <;> first | rfl | cases h

theorem Request.queued_of_isSilent {r : Request} (h : r.isSilent = true) (reply : r.Reply) :
    Exchange.queued ⟨r, reply⟩ = [] := by
  cases r <;> first | rfl | cases h

def Conduct.prompt : Conduct
  | past, .publish e => past.flatMap announced ++ [e] <+: past.flatMap queued
  | past, _ => Settled past

theorem Conduct.prompt_of_settled {past : List Exchange} {r : Request} (h : Settled past)
    (hr : r.isPublish = false) : Conduct.prompt past r := by
  cases r with
  | publish e => cases hr
  | _ => exact h

namespace Program

variable {α β : Type}

/-- Whether a program goes on in the same way whether its events arrive or not. -/
def IsDeaf : Program α → Prop
  | .done _ => True
  | .ask r next =>
    (r.isPublish = true → ∀ reply reply', next reply = next reply') ∧
      ∀ reply, (next reply).IsDeaf
  | .crash _ => True

structure Discreet (p : Program α) : Prop where
  prompt : ∀ ⦃past⦄, Settled past → p.Obeys .prompt (fun later _ => Settled later) past
  deaf : p.IsDeaf

theorem IsDeaf.bind {p : Program α} {f : α → Program β} (hp : p.IsDeaf)
    (hf : ∀ a, (f a).IsDeaf) : (p.bind f).IsDeaf := by
  induction p with
  | done a => exact hf a
  | ask r next ih =>
    obtain ⟨hsame, hnext⟩ := hp
    constructor
    . intro hr reply reply'
      exact congrArg (fun q => q.bind f) (hsame hr reply reply')
    . intro reply
      exact ih reply (hnext reply)
  | crash fault => trivial

theorem discreet_done (a : α) : (done a).Discreet :=
  ⟨fun _ h => h, trivial⟩

theorem discreet_crash (fault : Fault) : (crash fault : Program α).Discreet :=
  ⟨fun _ _ => trivial, trivial⟩

theorem discreet_ask {r : Request} {next : r.Reply → Program α} (hr : r.isSilent = true)
    (hnext : ∀ reply, (next reply).Discreet) : (ask r next).Discreet := by
  have hpublish : r.isPublish = false := by
    cases r <;> first | rfl | cases hr
  constructor
  . intro past hpast
    refine ⟨Conduct.prompt_of_settled hpast hpublish, ?_⟩
    intro reply _
    apply (hnext reply).prompt
    exact settled_append hpast (r.announced_of_isSilent hr reply) (r.queued_of_isSilent hr reply)
  . constructor
    . intro h
      rw [hpublish] at h
      cases h
    . intro reply
      exact (hnext reply).deaf

theorem Discreet.bind {p : Program α} {f : α → Program β} (hp : p.Discreet)
    (hf : ∀ a, (f a).Discreet) : (p.bind f).Discreet := by
  constructor
  . intro past hpast
    rw [obeys_bind]
    exact (hp.prompt hpast).imp fun later a hlater => (hf a).prompt hlater
  . exact hp.deaf.bind fun a => (hf a).deaf

end Program

namespace Service

variable {α β : Type}

abbrev Discreet (x : Service α) : Prop :=
  Program.Discreet x.run

theorem discreet_ofExcept (x : Except Failure α) : Discreet (ofExcept x) :=
  Program.discreet_done x

theorem discreet_counted (x : Except Fault α) : Discreet (counted x) := by
  cases x with
  | ok a => exact Program.discreet_done _
  | error fault => exact Program.discreet_crash fault

theorem discreet_pure (a : α) : Discreet (pure a : Service α) :=
  Program.discreet_done _

theorem discreet_throw (f : Failure) : Discreet (throw f : Service α) :=
  Program.discreet_done _

theorem Discreet.bind {x : Service α} {f : α → Service β} (hx : Discreet x)
    (hf : ∀ a, Discreet (f a)) : Discreet (x >>= f) := by
  apply Program.Discreet.bind hx
  intro r
  cases r with
  | ok a => exact hf a
  | error f => exact Program.discreet_done _

theorem Discreet.map {x : Service α} {f : α → β} (hx : Discreet x) : Discreet (f <$> x) := by
  apply Program.Discreet.bind hx
  intro r
  cases r with
  | ok a => exact Program.discreet_done _
  | error f => exact Program.discreet_done _

theorem Discreet.attempt {x : Service α} (hx : Discreet x) : Discreet (attempt x) :=
  Program.Discreet.bind hx fun _ => Program.discreet_done _

theorem discreet_stored? (id : String) : Discreet (stored? id) :=
  Program.discreet_ask rfl fun _ => Program.discreet_done _

theorem discreet_withStatus (status : Status) : Discreet (withStatus status) :=
  Program.discreet_ask rfl fun _ => Program.discreet_done _

theorem discreet_candles (q : CandleRequest) : Discreet (candles q) :=
  Program.discreet_ask rfl fun _ => Program.discreet_done _

theorem discreet_currentTime : Discreet currentTime :=
  Program.discreet_ask rfl fun _ => Program.discreet_done _

theorem discreet_giveWay : Discreet giveWay :=
  Program.discreet_ask rfl fun _ => Program.discreet_done _

theorem discreet_load (id : String) : Discreet (load id) := by
  unfold load
  apply (discreet_stored? id).bind
  intro found
  cases found with
  | none => exact discreet_throw _
  | some s => exact discreet_pure s

theorem prompt_announceAll (es : List Event) {past : List Exchange}
    (h : past.flatMap announced ++ es = past.flatMap queued) :
    (announceAll es).run.Obeys .prompt (fun later _ => Settled later) past := by
  induction es generalizing past with
  | nil =>
    rw [List.append_nil] at h
    exact h
  | cons e es ih =>
    refine ⟨⟨es, by simpa using h⟩, ?_⟩
    intro reply _
    apply ih
    rw [List.flatMap_append, List.flatMap_append, ← h]
    simp [announced, queued]

theorem deaf_announceAll (es : List Event) : (announceAll es).run.IsDeaf := by
  induction es with
  | nil => trivial
  | cons e es ih => exact ⟨fun _ _ _ => rfl, fun _ => ih⟩

theorem discreet_persist (s : Strategy) : Discreet (persist s) := by
  constructor
  . intro past hpast
    refine ⟨hpast, ?_⟩
    intro reply _
    cases reply with
    | error f => exact settled_append hpast rfl rfl
    | ok version =>
      -- what was stored has left its events, which are announced right away
      show Program.Obeys _ _ _ ((announceAll s.pending).run.bind _)
      rw [Program.obeys_bind]
      have howed : (past ++ [accepted s version]).flatMap announced ++ s.pending =
          (past ++ [accepted s version]).flatMap queued := by
        rw [List.flatMap_append, List.flatMap_append, hpast]
        simp [announced, queued]
      refine (prompt_announceAll s.pending howed).imp ?_
      intro later r hlater
      cases r with
      | ok _ => exact hlater
      | error f => exact hlater
  . refine ⟨nofun, ?_⟩
    intro reply
    cases reply with
    | error f => trivial
    | ok version =>
      apply (deaf_announceAll s.pending).bind
      intro r
      cases r with
      | ok _ => trivial
      | error f => trivial

theorem discreet_create (id ownerId : String) (cfg : Config Float) :
    Discreet (create id ownerId cfg) := by
  unfold create
  apply discreet_currentTime.bind
  intro now
  apply (discreet_ofExcept _).bind
  intro s
  exact discreet_persist s

theorem discreet_transition (id : String) (command : Command) :
    Discreet (transition id command) := by
  unfold transition
  apply (discreet_load id).bind
  intro known
  apply discreet_currentTime.bind
  intro now
  apply (discreet_ofExcept _).bind
  intro s
  exact discreet_persist s

theorem discreet_gather (cfg : Config Float) (window : Window) (symbols : List String) :
    Discreet (gather cfg window symbols) := by
  induction symbols with
  | nil => exact discreet_pure _
  | cons symbol symbols ih =>
    unfold gather
    apply (discreet_candles _).bind
    intro cs
    apply (discreet_counted _).map.bind
    intro _
    apply ih.bind
    intro found
    exact discreet_pure _

theorem discreet_simulate (cfg : Config Float) (r : BacktestRequest Float) :
    Discreet (simulate cfg r) := by
  unfold simulate
  apply (discreet_gather _ _ _).bind
  intro found
  apply discreet_giveWay.bind
  intro _
  exact discreet_ofExcept _

theorem discreet_closeStranded (id : String) (cause : Failure) (capital : Float) :
    Discreet (closeStranded id cause capital) := by
  unfold closeStranded
  apply (discreet_load id).bind
  intro waiting
  split
  . apply discreet_currentTime.bind
    intro now
    apply (discreet_ofExcept _).bind
    intro s
    exact (discreet_persist s).map
  . exact discreet_pure _

theorem discreet_judge (id : String) (r : BacktestRequest Float) (s : Strategy)
    (outcome : Except Failure (BacktestResult Float)) : Discreet (judge id r s outcome) := by
  unfold judge
  apply discreet_currentTime.bind
  intro now
  apply (discreet_ofExcept _).bind
  intro t
  apply (discreet_persist t).attempt.bind
  intro saved
  cases saved with
  | ok t => exact discreet_pure t
  | error cause =>
    apply (discreet_closeStranded id cause r.capital).attempt.map.bind
    intro _
    exact discreet_throw cause

theorem discreet_backtest (id : String) (r : BacktestRequest Float) :
    Discreet (backtest id r) := by
  rw [backtest_eq]
  apply (discreet_ofExcept _).bind
  intro _
  apply (discreet_transition id _).bind
  intro s
  apply (discreet_simulate s.config r).attempt.bind
  intro outcome
  exact discreet_judge id r s outcome

end Service

theorem Call.discreet_service (call : Call) : Service.Discreet call.service := by
  cases call with
  | create id ownerId cfg => exact (Service.discreet_create id ownerId cfg).map
  | get id => exact (Service.discreet_load id).map
  | list status => exact Service.discreet_withStatus status
  | activate id => exact (Service.discreet_transition id _).map
  | pause id => exact (Service.discreet_transition id _).map
  | stop id => exact (Service.discreet_transition id _).map
  | updateConfiguration id cfg => exact (Service.discreet_transition id _).map
  | backtest id r => exact (Service.discreet_backtest id r).map

theorem Trace.pending_of_mem_history {trace : Trace} {id : String} {s : Strategy}
    (h : s ∈ trace.history id) : s.pending = [] := by
  obtain ⟨⟨client, s⟩, hlog, rfl⟩ := List.mem_map.mp h
  obtain ⟨e, _, he⟩ := List.mem_filterMap.mp (mem_log.mp hlog).1
  unfold committed? at he
  split at he
  . injection he with he
    rw [← he]
    rfl
  . cases he

theorem Trace.exists_client_lt (trace : Trace) : ∃ n, ∀ t ∈ trace, t.client < n := by
  induction trace with
  | nil => exact ⟨0, fun _ ht => absurd ht List.not_mem_nil⟩
  | cons t trace ih =>
    obtain ⟨n, hn⟩ := ih
    refine ⟨max (t.client + 1) n, ?_⟩
    intro u hu
    rcases List.mem_cons.mp hu with rfl | hu
    . exact Nat.le_max_left _ _
    . exact Nat.lt_of_lt_of_le (hn u hu) (Nat.le_max_right _ _)

theorem Trace.perm_of_forall_past {γ : Type} {f g : Exchange → List γ} (trace : Trace)
    (h : ∀ client, (trace.past client).flatMap f = (trace.past client).flatMap g) :
    (trace.flatMap fun t => f t.toExchange).Perm (trace.flatMap fun t => g t.toExchange) := by
  obtain ⟨n, hn⟩ := trace.exists_client_lt
  have hparts := perm_flatMap_filter Turn.client hn
  refine (hparts.symm.flatMap_right _).trans (.trans (.of_eq ?_) (hparts.flatMap_right _))
  rw [List.flatMap_assoc, List.flatMap_assoc]
  apply List.flatMap_congr
  intro client _
  have hclient := h client
  unfold past at hclient
  rwa [List.flatMap_map, List.flatMap_map] at hclient

namespace Move

def Delivers (m : Move) : Prop :=
  ∀ e, m.outside (.publish e) = .ok ()

def delivering (m : Move) : Move where
  client := m.client
  outside
    | .publish _ => .ok ()
    | r => m.outside r

theorem answer_delivering {m : Move} {r : Request} (h : r.isPublish = false) (store : Store) :
    store.answer m.delivering.outside r = store.answer m.outside r := by
  cases r <;> first | rfl | cases h

end Move

namespace World

variable {calls : Nat → Call} {moves : List Move} {w v : World}

theorem settled_run (calls : Nat → Call) (moves : List Move) {client : Nat}
    (h : (run calls moves).hasReturned client = true ∨ (run calls moves).trace.past client = []) :
    Settled ((run calls moves).trace.past client) := by
  rcases h with h | h
  . have hprompt (call : Call) : call.service.run.Obeys .prompt (fun later _ => Settled later) [] :=
      call.discreet_service.prompt rfl
    have hobeys : ((run calls moves).clients client).Obeys .prompt (fun later _ => Settled later)
        ((run calls moves).trace.past client) := obeys_run hprompt moves client
    unfold hasReturned at h
    split at h
    . next hdone =>
      rw [hdone] at hobeys
      exact hobeys
    . cases h
  . rw [h]
    rfl

theorem deaf_run (moves : List Move) (client : Nat) :
    ((run calls moves).clients client).IsDeaf := by
  revert client
  refine run_induction (P := fun w => ∀ client, (w.clients client).IsDeaf) ?_ ?_ moves
  . intro client
    exact (calls client).discreet_service.deaf
  . intro moves m r next ih hask client
    unfold turn
    dsimp only
    rw [Function.update_apply]
    split
    . have hdeaf := ih m.client
      rw [hask] at hdeaf
      exact hdeaf.2 _
    . exact ih client

theorem published_of_delivers (h : ∀ m ∈ moves, m.Delivers) :
    ∀ t ∈ (run calls moves).trace, published t.toExchange = announced t.toExchange := by
  induction moves using List.reverseRecOn with
  | nil =>
    intro t ht
    cases ht
  | append_singleton moves m ih =>
    have hearlier := ih fun m hm => h m (List.mem_append_left _ hm)
    rw [run_concat]
    unfold step
    split
    . next r next hask =>
      intro t ht
      rcases List.mem_append.mp ht with ht | ht
      . exact hearlier t ht
      . rw [List.mem_singleton.mp ht]
        cases r with
        | publish e =>
          show published ⟨.publish e, m.outside (.publish e)⟩ = [e]
          rw [h m (List.mem_append_right _ (List.mem_singleton_self m)) e]
          rfl
        | _ => rfl
    . exact hearlier

theorem flatMap_published (h : ∀ m ∈ moves, m.Delivers) (client : Nat) :
    ((run calls moves).trace.past client).flatMap published =
      ((run calls moves).trace.past client).flatMap announced := by
  unfold Trace.past
  rw [List.flatMap_map, List.flatMap_map]
  rw [List.flatMap_def, List.flatMap_def]
  congr 1
  apply List.map_congr_left
  intro t ht
  exact published_of_delivers h t (List.mem_filter.mp ht).1

structure Alike (w v : World) : Prop where
  store : w.store = v.store
  clients : w.clients = v.clients
  log : ∀ id, w.trace.log id = v.trace.log id

theorem Alike.step (h : w.Alike v) (hdeaf : ∀ client, (w.clients client).IsDeaf) (m : Move) :
    (w.step m).Alike (v.step m.delivering) := by
  have hclient : v.clients m.delivering.client = w.clients m.client := by
    rw [h.clients]
    rfl
  cases hask : w.clients m.client with
  | done a =>
    rw [hask] at hclient
    simp only [World.step, hask, hclient]
    exact h
  | crash fault =>
    rw [hask] at hclient
    simp only [World.step, hask, hclient]
    exact h
  | ask r next =>
    rw [hask] at hclient
    simp only [World.step, hask, hclient]
    by_cases hr : r.isPublish = true
    . -- the client goes on in the same way whatever the publisher says
      have hsame := hdeaf m.client
      rw [hask] at hsame
      cases r with
      | publish e =>
        constructor
        . exact h.store
        . show Function.update w.clients m.client _ = Function.update v.clients m.client _
          rw [h.clients, hsame.1 rfl (w.store.answer m.outside (.publish e)).1]
        . intro id
          show Trace.log (w.trace ++ [_]) id = Trace.log (v.trace ++ [_]) id
          rw [Trace.log_append, Trace.log_append, Trace.log_of_none rfl, Trace.log_of_none rfl,
            h.log id]
      | _ => cases hr
    . have hanswer := Move.answer_delivering (m := m) (by simpa using hr) v.store
      unfold turn
      rw [hanswer, ← h.store]
      constructor
      . rfl
      . dsimp only
        rw [h.clients]
        rfl
      . intro id
        dsimp only
        rw [Trace.log_append, Trace.log_append, h.log id]
        rfl

theorem alike_run (calls : Nat → Call) (moves : List Move) :
    (run calls moves).Alike (run calls (moves.map Move.delivering)) := by
  induction moves using List.reverseRecOn with
  | nil => exact ⟨rfl, rfl, fun _ => rfl⟩
  | append_singleton moves m ih =>
    rw [List.map_append, List.map_singleton, run_concat, run_concat]
    exact ih.step (deaf_run moves) m

theorem origin_of_accepted {before after : Trace} {t : Turn} {s : Strategy} {version : Nat}
    (h : (run calls moves).trace = before ++ t :: after) (ht : t.toExchange = accepted s version) :
    (∃ e, s.pending = [e]) ∧
      ((∃ ownerId cfg now, Strategy.create s.id ownerId cfg now = .ok s) ∨
        ∃ known ∈ before.history s.id, ∃ command now, known.perform command now = .ok s) := by
  have horigin := (prepares_of_turn h (by rw [ht])).origin
  obtain ⟨earlier, _, _, rfl, _⟩ := exists_world_of_turn h
  rw [seen_dealings] at horigin
  rcases horigin with ⟨id, ownerId, cfg, now, hcreate⟩ | ⟨known, hknown, command, now, hperform⟩
  . obtain ⟨_, _, hs⟩ := Strategy.create_eq_ok_iff.mp hcreate
    have hid : s.id = id := by rw [hs]
    subst hid
    exact ⟨⟨_, congrArg Strategy.pending hs⟩, .inl ⟨ownerId, cfg, now, hcreate⟩⟩
  . have hstored := mem_history_of_seen hknown
    have hnone := Trace.pending_of_mem_history hstored
    rw [← Strategy.id_of_perform hperform] at hstored
    refine ⟨?_, .inr ⟨known, hstored, command, now, hperform⟩⟩
    rw [Strategy.pending_of_perform hperform, hnone]
    exact ⟨_, rfl⟩

/--
Events tell just what was stored. When nobody is in the middle of a call and the publisher has not
failed, the events that have arrived are those that the operations had left on the states that were
stored, each of them once and for each client in the order of his operations; a state that the store
has refused is not told of. A publisher that fails changes neither what is stored nor what is
answered.
-/
theorem published_exactly_stored (calls : Nat → Call) (moves : List Move) :
    let w := run calls moves
    ((∀ m ∈ moves, m.Delivers) →
      (∀ client, w.hasReturned client = true ∨ w.trace.past client = []) →
        (w.trace.flatMap fun t => published t.toExchange).Perm
          (w.trace.flatMap fun t => queued t.toExchange) ∧
        ∀ client, (w.trace.past client).flatMap published =
          (w.trace.past client).flatMap queued) ∧
    (∀ (before after : Trace) t s version, w.trace = before ++ t :: after →
      t.toExchange = accepted s version → (∃ e, s.pending = [e]) ∧
        ((∃ ownerId cfg now, Strategy.create s.id ownerId cfg now = .ok s) ∨
          ∃ known ∈ before.history s.id, ∃ command now, known.perform command now = .ok s)) ∧
    let v := run calls (moves.map Move.delivering)
    w.store = v.store ∧ w.clients = v.clients ∧ ∀ id, w.trace.history id = v.trace.history id := by
  intro w
  refine ⟨?_, ?_, ?_⟩
  . intro hdelivers hreturned
    have hpublished (client : Nat) :
        (w.trace.past client).flatMap published = (w.trace.past client).flatMap queued := by
      rw [← settled_run calls moves (hreturned client)]
      exact flatMap_published hdelivers client
    exact ⟨Trace.perm_of_forall_past w.trace hpublished, hpublished⟩
  . intro before after t s version h ht
    exact origin_of_accepted h ht
  . intro v
    have halike : w.Alike v := alike_run calls moves
    refine ⟨halike.store, halike.clients, ?_⟩
    intro id
    unfold Trace.history
    rw [halike.log id]

def raceMoves : List Move :=
  [0, 0, 0, 1, 1, 1, 1, 1, 2, 2, 2, 2, 1, 1, 1, 1, 1, 1, 1].map fun client =>
    { client, outside := withCandles }

theorem race_returned (client : Nat) : (run trialCalls raceMoves).hasReturned client = true ∨
    (run trialCalls raceMoves).trace.past client = [] := by
  match client with
  | 0 | 1 | 2 =>
    left
    decide +kernel
  | client + 3 =>
    right
    have hclients : ((run trialCalls raceMoves).trace.all fun t => t.client < 3) = true := by
      decide +kernel
    unfold Trace.past
    rw [List.map_eq_nil_iff, List.filter_eq_nil_iff]
    intro t ht
    have := List.all_eq_true.mp hclients t ht
    simp only [decide_eq_true_eq] at this
    simp only [beq_iff_eq]
    omega

theorem race_published :
    let w := run trialCalls raceMoves
    (w.trace.flatMap fun t => (published t.toExchange).map fun e => e.change.name) =
      ["created", "backtest_started", "configuration_updated", "backtest_failed"] ∧
    (w.trace.past 1).flatMap published = (w.trace.past 1).flatMap queued := by
  have hdelivers : ∀ m ∈ raceMoves, m.Delivers := by
    intro m hm e
    obtain ⟨client, _, rfl⟩ := List.mem_map.mp hm
    rfl
  refine ⟨by decide +kernel, ?_⟩
  exact ((published_exactly_stored trialCalls raceMoves).1 hdelivers race_returned).2 1

end World
end StrategyDesk
