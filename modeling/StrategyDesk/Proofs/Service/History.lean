import StrategyDesk.Proofs.Service.Discipline

/-!
This module contains what becomes of a strategy in a store that many services share: it is stored in
one state after another, each of which comes from the one before by a single operation. No operation
is lost, and none is performed on a state that is not stored any more.
-/

namespace StrategyDesk

open Exchange

/-- States in which a strategy is stored one after another, by one operation each. -/
inductive Lineage (id : String) : List Strategy → Prop
  | nil : Lineage id []
  | created {ownerId cfg now s} :
    Strategy.create id ownerId cfg now = .ok s → Lineage id [(s.saved 1).published]
  | performed {earlier last command now s} :
    Lineage id (earlier ++ [last]) → last.perform command now = .ok s →
      Lineage id (earlier ++ [last] ++ [(s.saved (last.version + 1)).published])

namespace Lineage

variable {id : String} {states : List Strategy} {i : Nat} {s t : Strategy}

theorem version_eq (h : Lineage id states) (hs : states[i]? = some s) : s.version = i + 1 := by
  induction h generalizing i s with
  | nil => simp at hs
  | created hcreate =>
    rw [List.getElem?_singleton] at hs
    split at hs
    . next hi =>
      injection hs with hs
      subst hi hs
      rfl
    . cases hs
  | @performed earlier last _ _ _ _ hperform ih =>
    have hlast : last.version = earlier.length + 1 := ih List.getElem?_concat_length
    rw [List.getElem?_append] at hs
    split at hs
    . exact ih hs
    . next hi =>
      -- the state that was added has the version after that of `last`
      rw [List.getElem?_singleton] at hs
      split at hs
      . next hzero =>
        injection hs with hs
        subst hs
        rw [List.length_append, List.length_singleton] at hi hzero
        show last.version + 1 = i + 1
        omega
      . cases hs

theorem version_of_getLast? (h : Lineage id states) :
    (states.getLast?.map Strategy.version).getD 0 = states.length := by
  rcases List.eq_nil_or_concat states with rfl | ⟨earlier, last, rfl⟩
  . rfl
  . rw [List.concat_eq_append] at h ⊢
    have := h.version_eq List.getElem?_concat_length
    simpa using this

theorem eq_of_version_eq (h : Lineage id states) (hs : s ∈ states) (ht : t ∈ states)
    (hversion : s.version = t.version) : s = t := by
  obtain ⟨i, hi⟩ := List.mem_iff_getElem?.mp hs
  obtain ⟨j, hj⟩ := List.mem_iff_getElem?.mp ht
  have hi' := h.version_eq hi
  have hj' := h.version_eq hj
  have hij : i = j := by omega
  subst hij
  rw [hi] at hj
  injection hj

theorem version_le (h : Lineage id states) (hs : s ∈ states) : s.version ≤ states.length := by
  obtain ⟨i, hi⟩ := List.mem_iff_getElem?.mp hs
  have := h.version_eq hi
  have := (List.getElem?_eq_some_iff.mp hi).1
  omega

theorem head_created (h : Lineage id states) (hs : states.head? = some s) :
    ∃ ownerId cfg now created, Strategy.create id ownerId cfg now = .ok created ∧
      s = (created.saved 1).published := by
  induction h generalizing s with
  | nil => simp at hs
  | created hcreate =>
    injection hs with hs
    exact ⟨_, _, _, _, hcreate, hs.symm⟩
  | performed _ _ ih =>
    apply ih
    rw [← hs]
    simp [List.head?_append]

theorem performed_next (h : Lineage id states) (hs : states[i]? = some s)
    (ht : states[i + 1]? = some t) :
    ∃ command now u, s.perform command now = .ok u ∧ t = (u.saved (i + 2)).published := by
  induction h generalizing i s t with
  | nil => simp at hs
  | created hcreate => simp at ht
  | @performed earlier last command now u hearlier hperform ih =>
    rw [List.getElem?_append] at hs ht
    split at ht
    . next hi =>
      rw [if_pos (by omega)] at hs
      exact ih hs ht
    . next hi =>
      -- `t` is the state that was added, so `s` is the last one before it
      rw [List.getElem?_singleton] at ht
      split at ht
      . next hzero =>
        have hlength : (earlier ++ [last]).length = i + 1 := by omega
        rw [if_pos (by omega)] at hs
        have hi : i = earlier.length := by simpa using hlength.symm
        subst hi
        rw [List.getElem?_concat_length] at hs
        injection hs with hs
        injection ht with ht
        subst hs ht
        refine ⟨command, now, u, hperform, ?_⟩
        rw [hearlier.version_eq List.getElem?_concat_length]
      . cases ht

theorem validate_config (h : Lineage id states) (hs : s ∈ states) : s.config.validate = .ok () := by
  induction h generalizing s with
  | nil => cases hs
  | created hcreate =>
    obtain ⟨_, hvalid, rfl⟩ := Strategy.create_eq_ok_iff.mp hcreate
    rw [List.mem_singleton.mp hs]
    exact hvalid
  | @performed earlier last command now u _ hperform ih =>
    rcases List.mem_append.mp hs with hs | hs
    . exact ih hs
    . rw [List.mem_singleton.mp hs]
      have hlast := ih (List.mem_append_right earlier List.mem_cons_self)
      obtain ⟨_, hvalid, rfl⟩ := Strategy.perform_eq_ok_iff.mp hperform
      cases command with
      | updateConfiguration cfg => exact hvalid
      | _ => exact hlast

theorem save {store later : Store} {version : Nat} (h : Lineage s.id states)
    (hfind : store.find? s.id = states.getLast?)
    (hsave : store.save s = .ok (later, version))
    (horigin : (∃ id ownerId cfg now, Strategy.create id ownerId cfg now = .ok s) ∨
      ∃ known ∈ states, ∃ command now, known.perform command now = .ok s) :
    Lineage s.id (states ++ [(s.saved version).published]) := by
  obtain ⟨hversion, rfl, _⟩ := Store.save_eq_ok.mp hsave
  have hlength : s.version = states.length := by
    rw [hversion, Store.version, hfind]
    exact h.version_of_getLast?
  rcases horigin with ⟨id, ownerId, cfg, now, hcreate⟩ | ⟨known, hknown, command, now, hperform⟩
  . obtain ⟨_, _, hs⟩ := Strategy.create_eq_ok_iff.mp hcreate
    have hzero : s.version = 0 := by rw [hs]
    have hid : s.id = id := by rw [hs]
    have hnil : states = [] := List.eq_nil_of_length_eq_zero (by omega)
    subst hnil
    rw [hzero, hid]
    exact .created hcreate
  . have hsame := Strategy.version_of_perform hperform
    rcases List.eq_nil_or_concat states with rfl | ⟨earlier, last, rfl⟩
    . cases hknown
    . rw [List.concat_eq_append] at h hknown hlength ⊢
      have hlast : last.version = earlier.length + 1 := h.version_eq List.getElem?_concat_length
      -- the store takes only the version after the last one, so `known` is not outdated
      have heq : known = last := by
        apply h.eq_of_version_eq hknown (by simp)
        rw [← hsame, hlength, hlast]
        simp
      subst heq
      rw [hsame]
      exact .performed h hperform

end Lineage

theorem Call.Prepares.origin {call : Call} {ds : List Exchange} {s : Strategy}
    (h : call.Prepares ds s) :
    (∃ id ownerId cfg now, Strategy.create id ownerId cfg now = .ok s) ∨
      ∃ known ∈ seen ds, ∃ command now, known.perform command now = .ok s := by
  cases h with
  | creation hcreate => exact .inl ⟨_, _, _, _, hcreate⟩
  | operation _ _ hperform => exact .inr ⟨_, by simp [seen, found?], _, _, hperform⟩
  | start _ hperform => exact .inr ⟨_, by simp [seen, found?], _, _, hperform⟩
  | verdict _ hperform => exact .inr ⟨_, by simp [seen, commits, committed?], _, _, hperform⟩
  | closing _ _ _ hperform => exact .inr ⟨_, by simp [seen, found?], _, _, hperform⟩

namespace Trace

variable {id : String} {t : Turn}

theorem history_of_accepted {s : Strategy} {version : Nat}
    (ht : t.toExchange = accepted s version) :
    history [t] id = if s.id = id then [(s.saved version).published] else [] := by
  unfold history
  rw [log_of_some (s := (s.saved version).published) (by rw [ht]; rfl)]
  show List.map Prod.snd (if s.id = id then _ else _) = _
  split <;> rfl

theorem history_of_lookedUp {found : Option Strategy} {name : String}
    (ht : t.toExchange = lookedUp name found) : history [t] id = [] := by
  unfold history
  rw [log_of_none (by rw [ht]; rfl)]
  rfl

end Trace

namespace World

variable {calls : Nat → Call} {moves : List Move} {before after : Trace} {t : Turn}

theorem obeys_call_run (calls : Nat → Call) (moves : List Move) (client : Nat) :
    ((run calls moves).clients client).Obeys (.onSaves (calls client).Prepares)
      (fun past => (calls client).Ends (dealings past)) ((run calls moves).trace.past client) :=
  obeys_run Call.obeys_service moves client

theorem prepares_of_ask {s : Strategy} {client : Nat}
    {next : (Request.save s).Reply → Program (Except Failure (List Strategy))}
    (h : (run calls moves).clients client = .ask (.save s) next) :
    (calls client).Prepares (dealings ((run calls moves).trace.past client)) s := by
  have hobeys := obeys_call_run calls moves client
  rw [h] at hobeys
  exact hobeys.1

theorem found_of_turn {id : String} {found : Option Strategy}
    (h : (run calls moves).trace = before ++ t :: after)
    (ht : t.toExchange = lookedUp id found) : found = (before.history id).getLast? := by
  obtain ⟨earlier, next, outside, rfl, _, hreply⟩ := exists_world_of_turn h
  rcases t with ⟨⟨r, reply⟩, client⟩
  cases ht
  rw [← find?_run]
  injection hreply

theorem prepares_of_turn {s : Strategy} (h : (run calls moves).trace = before ++ t :: after)
    (ht : t.request = .save s) :
    (calls t.client).Prepares (dealings (before.past t.client)) s := by
  obtain ⟨earlier, next, outside, rfl, hask, _⟩ := exists_world_of_turn h
  rcases t with ⟨⟨r, reply⟩, client⟩
  subst ht
  exact prepares_of_ask hask

theorem mem_history_of_seen {client : Nat} {s : Strategy}
    (h : s ∈ seen ((run calls moves).trace.past client)) :
    s ∈ (run calls moves).trace.history s.id := by
  rcases List.mem_append.mp h with hfound | hcommitted
  . obtain ⟨e, he, hs⟩ := List.mem_filterMap.mp hfound
    obtain ⟨before, t, after, htrace, _, rfl⟩ := Trace.exists_turn_of_mem_past he
    unfold found? at hs
    split at hs
    . next id known ht =>
      injection hs with hs
      subst hs
      have hlast := found_of_turn htrace ht
      have hknown := List.mem_of_getLast? hlast.symm
      rw [htrace, Trace.history_append, Trace.id_of_mem_history hknown]
      exact List.mem_append_left _ hknown
    . cases hs
  . exact List.mem_map.mpr ⟨(client, s), Trace.mem_log.mpr ⟨hcommitted, rfl⟩, rfl⟩

theorem lineage_turn {m : Move} {r : Request}
    {next : r.Reply → Program (Except Failure (List Strategy))}
    (hlineage : ∀ id, Lineage id ((run calls moves).trace.history id))
    (hask : (run calls moves).clients m.client = .ask r next) (id : String) :
    Lineage id (((run calls moves).turn m r next).trace.history id) := by
  rcases (run calls moves).turn_cases m r next with ⟨s, version, hr, hsave, htrace⟩ | ⟨_, hlog⟩
  . rw [htrace, Trace.history_append, Trace.history_of_accepted rfl]
    split
    . next hid =>
      subst hid hr
      have horigin := (prepares_of_ask hask).origin
      rw [seen_dealings] at horigin
      apply (hlineage s.id).save (find?_run moves s.id) hsave
      refine horigin.imp_right ?_
      rintro ⟨known, hknown, command, now, hperform⟩
      -- whatever the client started from was in the store at some time
      have hstored := mem_history_of_seen hknown
      rw [← Strategy.id_of_perform hperform] at hstored
      exact ⟨known, hstored, command, now, hperform⟩
    . rw [List.append_nil]
      exact hlineage id
  . unfold Trace.history at hlineage ⊢
    rw [hlog]
    exact hlineage id

theorem lineage_run (moves : List Move) (id : String) :
    Lineage id ((run calls moves).trace.history id) := by
  revert id
  refine run_induction (P := fun w => ∀ id, Lineage id (w.trace.history id)) ?_ ?_ moves
  . intro id
    exact .nil
  . intro moves m r next hlineage hask
    exact lineage_turn hlineage hask

theorem version_le_length {id : String} {s : Strategy}
    (h : s ∈ (run calls moves).trace.history id) :
    s.version ≤ ((run calls moves).trace.history id).length :=
  (lineage_run moves id).version_le h

theorem version_run (calls : Nat → Call) (moves : List Move) (id : String) :
    (run calls moves).store.version id = ((run calls moves).trace.history id).length := by
  unfold Store.version
  rw [find?_run]
  exact (lineage_run moves id).version_of_getLast?

theorem log_cases (calls : Nat → Call) (moves : List Move) (m : Move) (r : Request)
    (next : r.Reply → Program (Except Failure (List Strategy))) :
    (∃ s, r = .save s ∧ s.version = ((run calls moves).trace.history s.id).length ∧
      ∀ id, ((run calls moves).turn m r next).trace.log id =
        (run calls moves).trace.log id ++
          if s.id = id then [(m.client, (s.saved (s.version + 1)).published)] else []) ∨
    ∀ id, ((run calls moves).turn m r next).trace.log id = (run calls moves).trace.log id := by
  rcases (run calls moves).turn_cases m r next with ⟨s, version, hr, hsave, htrace⟩ | ⟨_, hlog⟩
  . left
    obtain ⟨hversion, rfl, _⟩ := Store.save_eq_ok.mp hsave
    refine ⟨s, hr, ?_, ?_⟩
    . rw [hversion, version_run]
    . intro id
      rw [htrace, Trace.log_append, Trace.log_of_some rfl]
      rfl
  . exact .inr hlog

theorem client_eq_of_version_eq {id : String} {p q : Nat} {a b : Strategy}
    (ha : (p, a) ∈ (run calls moves).trace.log id) (hb : (q, b) ∈ (run calls moves).trace.log id)
    (h : a.version = b.version) : p = q := by
  obtain ⟨i, hi⟩ := List.mem_iff_getElem?.mp ha
  obtain ⟨j, hj⟩ := List.mem_iff_getElem?.mp hb
  have version_at {k : Nat} {e : Nat × Strategy}
      (hk : ((run calls moves).trace.log id)[k]? = some e) : e.2.version = k + 1 := by
    apply (lineage_run moves id).version_eq
    unfold Trace.history
    rw [List.getElem?_map, hk]
    rfl
  have hi' := version_at hi
  have hj' := version_at hj
  dsimp at hi' hj'
  have hij : i = j := by omega
  rw [hij, hj] at hi
  injection hi with hi
  injection hi with hi
  exact hi.symm

theorem accepted_of_turn {s : Strategy} {version : Nat}
    (h : (run calls moves).trace = before ++ t :: after) (ht : t.toExchange = accepted s version) :
    s.version = (before.history s.id).length ∧ version = s.version + 1 := by
  obtain ⟨earlier, next, outside, rfl, _, hreply⟩ := exists_world_of_turn h
  rcases t with ⟨⟨r, reply⟩, client⟩
  cases ht
  rw [← version_run]
  simp only [Store.answer] at hreply
  split at hreply
  . next later version' hsave =>
    injection hreply with hreply
    subst hreply
    obtain ⟨hversion, hnext, _⟩ := Store.save_eq_ok.mp hsave
    exact ⟨hversion, hnext⟩
  . cases hreply

theorem refused_of_turn {s : Strategy} {f : Failure}
    (h : (run calls moves).trace = before ++ t :: after) (ht : t.toExchange = refused s f) :
    s.version ≠ (before.history s.id).length := by
  obtain ⟨earlier, next, outside, rfl, _, hreply⟩ := exists_world_of_turn h
  rcases t with ⟨⟨r, reply⟩, client⟩
  cases ht
  rw [← version_run]
  intro hversion
  simp only [Store.answer] at hreply
  have hsave := Store.save_eq_ok.mpr ⟨hversion, rfl, rfl⟩
  rw [hsave] at hreply
  cases hreply

theorem version_of_lookup {id : String} {s : Strategy}
    (h : (run calls moves).trace = before ++ t :: after)
    (ht : t.toExchange = lookedUp id (some s)) : s.version = (before.history id).length := by
  have hlast := found_of_turn h ht
  obtain ⟨earlier, _, _, rfl, _⟩ := exists_world_of_turn h
  rw [← version_run]
  unfold Store.version
  rw [find?_run, ← hlast]
  rfl

theorem step_of_refused {w : World} {m : Move} {s : Strategy} {f : Failure}
    {next : (Request.save s).Reply → Program (Except Failure (List Strategy))}
    (hask : w.clients m.client = .ask (.save s) next) (hsave : w.store.save s = .error f) :
    f = .conflict s.id s.version (w.store.version s.id) ∧ (w.step m).store = w.store ∧
      ∀ id, (w.step m).trace.history id = w.trace.history id := by
  have hanswer : w.store.answer m.outside (.save s) = (.error f, w.store) := by
    simp only [Store.answer, hsave]
  have hstep : w.step m = w.turn m (.save s) next := by
    simp only [step, hask]
  rw [hstep]
  refine ⟨?_, congrArg Prod.snd hanswer, ?_⟩
  . unfold Store.save at hsave
    dsimp at hsave
    split at hsave
    . cases hsave
    . injection hsave with hsave
      exact hsave.symm
  . intro id
    unfold turn
    dsimp only
    rw [hanswer, Trace.history_append]
    exact List.append_nil _

theorem not_mem_log_of_failed {client : Nat} {f : Failure} {id : String} {s : Strategy}
    (hcall : ∀ id r, calls client ≠ .backtest id r)
    (hfailed : (run calls moves).clients client = .done (.error f)) :
    (client, s) ∉ (run calls moves).trace.log id := by
  have hobeys := obeys_call_run calls moves client
  rw [hfailed] at hobeys
  have hends : (calls client).Ends (dealings ((run calls moves).trace.past client)) (.error f) :=
    hobeys
  have hnone : commits ((run calls moves).trace.past client) = [] := by
    rw [← commits_dealings]
    unfold Call.Ends at hends
    split at hends
    . next hbacktest => exact absurd hbacktest (hcall _ _)
    . exact hends f rfl
  rw [Trace.mem_log, hnone]
  rintro ⟨hs, _⟩
  cases hs

/--
Whatever many clients do to one store, and in whatever order, no operation is lost. A strategy is
stored under the versions 1, 2, 3 and so on. First it was created, and each time after that one
operation was performed on the very state that was stored before.
-/
theorem no_lost_update (calls : Nat → Call) (moves : List Move) :
    let w := run calls moves
    (∀ id, w.store.find? id = (w.trace.history id).getLast?) ∧
    (∀ id i s, (w.trace.history id)[i]? = some s → s.version = i + 1) ∧
    (∀ id s, (w.trace.history id)[0]? = some s →
      ∃ ownerId cfg now created, Strategy.create id ownerId cfg now = .ok created ∧
        s = (created.saved 1).published) ∧
    (∀ id i s t, (w.trace.history id)[i]? = some s → (w.trace.history id)[i + 1]? = some t →
      ∃ command now u, s.perform command now = .ok u ∧ t = (u.saved (i + 2)).published) ∧
    (∀ m s next f, w.clients m.client = .ask (.save s) next → w.store.save s = .error f →
      f = .conflict s.id s.version (w.store.version s.id) ∧ (w.step m).store = w.store ∧
        ∀ id, (w.step m).trace.history id = w.trace.history id) ∧
    (∀ client f, (∀ id r, calls client ≠ .backtest id r) → w.clients client = .done (.error f) →
      ∀ id s, (client, s) ∉ w.trace.log id) := by
  intro w
  refine ⟨?_, ?_, ?_, ?_, ?_, ?_⟩
  . exact find?_run moves
  . intro id i s hs
    exact (lineage_run moves id).version_eq hs
  . intro id s hs
    exact (lineage_run moves id).head_created (by rwa [List.head?_eq_getElem?])
  . intro id i s t hs ht
    exact (lineage_run moves id).performed_next hs ht
  . intro m s next f hask hsave
    exact step_of_refused hask hsave
  . intro client f hcall hfailed id s
    exact not_mem_log_of_failed hcall hfailed

def sampleConfig : Config Float where
  name := "Momentum"
  description := none
  kind := .momentum
  symbols := ["BTC"]
  timeframe := .day1
  indicators := [{ key := "sma", indicator := .sma 2 }]
  rules := { entry := [{ field := "sma", comparison := .greater, value := 0 }], exit := [] }
  risk := { positionSize := 10, maxDrawdown := 50, stopLoss := none, takeProfit := none }

def sampleRequest : BacktestRequest Float where
  start := { seconds := 0 }
  stop := { seconds := 86400 }
  capital := 1000

def sampleCalls : Nat → Call
  | 0 => .create "s" "owner" sampleConfig
  | 1 => .backtest "s" sampleRequest
  | _ => .updateConfiguration "s" sampleConfig

def withoutCandles : Host Id
  | .find _ | .list _ | .save _ | .fetch _ => .error (.candleData "no candles")
  | .publish _ | .submit _ => .ok ()
  | .now => { seconds := 0 }
  | .giveWay => ()

def sample (clients : List Nat) : World :=
  run sampleCalls (clients.map fun client => { client, outside := withoutCandles })

def sampleEdits : World :=
  sample [0, 0, 0, 2, 2, 3, 3, 2, 3]

theorem sample_second_edit_refused :
    ∃ s t, (sampleEdits.trace.history "s")[0]? = some s ∧
      (sampleEdits.trace.history "s")[1]? = some t ∧
      (sampleEdits.trace.history "s").length = 2 ∧
      ∃ command now u, s.perform command now = .ok u ∧ t = (u.saved 2).published := by
  have hlength : (sampleEdits.trace.history "s").length = 2 := by
    decide +kernel
  have hs := List.getElem?_eq_getElem (Nat.lt_of_lt_of_eq Nat.zero_lt_two hlength.symm)
  have ht := List.getElem?_eq_getElem (Nat.lt_of_lt_of_eq Nat.one_lt_two hlength.symm)
  refine ⟨_, _, hs, ht, hlength, ?_⟩
  obtain ⟨_, _, _, hnext, _⟩ := no_lost_update sampleCalls
    ([0, 0, 0, 2, 2, 3, 3, 2, 3].map fun client => { client, outside := withoutCandles })
  exact hnext "s" 0 _ _ hs ht

end World
end StrategyDesk
