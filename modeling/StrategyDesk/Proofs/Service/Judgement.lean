import StrategyDesk.Proofs.Backtest.Rounds
import StrategyDesk.Proofs.Service.Stranding

/-!
This module contains what a stored result is worth. It comes from a replay of the very configuration
that is stored with it, over the candles that the client had asked for, and nobody has stored the
strategy since the client had stored the start of the backtest.
-/

namespace StrategyDesk

open Exchange

def Config.candleRequests (cfg : Config Float) (r : BacktestRequest Float) : List CandleRequest :=
  cfg.symbols.map fun symbol =>
    { symbol, timeframe := cfg.timeframe, window := { first := r.start, last := r.stop } }

namespace Exchange

def fetched? : Exchange → Option (CandleRequest × List (Candle Float))
  | fetched q (.ok cs) => some (q, cs)
  | _ => none

def fetches (past : List Exchange) : List (CandleRequest × List (Candle Float)) :=
  past.filterMap fetched?

def candlesOf (past : List Exchange) (symbol : String) : List (Candle Float) :=
  (((fetches past).map fun (q, cs) => (q.symbol, cs)).lookup symbol).getD []

variable {past later : List Exchange}

@[simp]
theorem fetches_append : fetches (past ++ later) = fetches past ++ fetches later :=
  List.filterMap_append

theorem fetches_notices {notices : List Exchange} (h : ∀ e ∈ notices, e.isNotice = true) :
    fetches notices = [] := by
  apply filterMap_notices fetched? ?_ h
  rintro ⟨r, reply⟩ he
  cases r <;> first | rfl | cases he

theorem fetches_gathered (timeframe : Timeframe) (window : Window)
    (found : List (String × List (Candle Float))) :
    fetches (gathered timeframe window found) =
      found.map fun (symbol, cs) => ({ symbol, timeframe, window }, cs) := by
  unfold fetches gathered
  rw [List.filterMap_map, ← List.filterMap_eq_map]
  rfl

theorem candlesOf_congr (h : fetches later = fetches past) : candlesOf later = candlesOf past := by
  funext symbol
  unfold candlesOf
  rw [h]

theorem candlesOf_of_fetches {timeframe : Timeframe} {window : Window}
    {found : List (String × List (Candle Float))}
    (h : fetches past = found.map fun (symbol, cs) => ({ symbol, timeframe, window }, cs)) :
    candlesOf past = fun symbol => (found.lookup symbol).getD [] := by
  funext symbol
  unfold candlesOf
  rw [h, List.map_map]
  congr 2
  exact List.map_id found

end Exchange

/--
Whether what a backtest saves is in order: it has asked for no candles before it stored anything, and
a result comes from the configuration that is saved and from the candles that were got.
-/
structure Earned (r : BacktestRequest Float) (past : List Exchange) (s : Strategy) : Prop where
  unfetched : commits past = [] → fetches past = []
  replayed : ∀ ⦃known : Strategy⦄ ⦃result now⦄, known.perform (.completeBacktest result) now = .ok s →
    (fetches past).map Prod.fst = s.config.candleRequests r ∧
      runBacktest s.config (candlesOf past) r.capital = .ok result

theorem Earned.of_ne {r : BacktestRequest Float} {past : List Exchange} {known s : Strategy}
    {command : Command} {now : Instant} (hunfetched : commits past = [] → fetches past = [])
    (hperform : known.perform command now = .ok s)
    (hne : ∀ result, command ≠ .completeBacktest result) : Earned r past s where
  unfetched := hunfetched
  replayed _ result _ h := absurd (Strategy.command_of_complete hperform h) (hne result)

def Conduct.fair (call : Call) : Conduct
  | past, .save s => ∀ id r, call = .backtest id r → Earned r past s
  | _, _ => True

theorem Conduct.onlySaves_fair (call : Call) : (Conduct.fair call).OnlySaves := by
  intro past r hr
  cases r with
  | save s => cases hr
  | _ => trivial

theorem Conduct.fair_of_earned {id : String} {r : BacktestRequest Float} {past : List Exchange}
    {s : Strategy} (h : Earned r past s) : Conduct.fair (.backtest id r) past (.save s) := by
  rintro _ _ ⟨⟩
  exact h

namespace Service

variable {id : String} {r : BacktestRequest Float} {past : List Exchange}

theorem fair_closeStranded {cause : Failure} {capital : Float} (hstored : commits past ≠ []) :
    Obeys (.fair (.backtest id r)) (fun _ _ => True) (fun _ _ => True) past
      (closeStranded id cause capital) := by
  apply (Conduct.onlySaves_fair _).closeStranded trivial
  . intros
    trivial
  . intro waiting now reason s _ _ hs
    apply Conduct.fair_of_earned
    apply Earned.of_ne _ hs
    . rintro _ ⟨⟩
    . intro hnone
      exact absurd hnone (commits_append_ne_nil hstored _)
  . intros
    trivial
  . intros
    trivial

theorem fair_judge {s : Strategy} {outcome : Except Failure (BacktestResult Float)}
    (hstatus : s.status = .backtesting) (hstored : commits past ≠ [])
    (houtcome : ∀ result, outcome = .ok result →
      (fetches past).map Prod.fst = s.config.candleRequests r ∧
        runBacktest s.config (candlesOf past) r.capital = .ok result) :
    Obeys (.fair (.backtest id r)) (fun _ _ => True) (fun _ _ => True) past
      (judge id r s outcome) := by
  apply (Conduct.onlySaves_fair _).judge hstatus
  . intro now t ht
    apply Conduct.fair_of_earned
    refine ⟨fun hnone => absurd hnone (commits_append_ne_nil hstored _), ?_⟩
    intro known result later hknown
    have hverdict := Strategy.command_of_complete ht hknown
    have hfetches : fetches (past ++ [told now]) = fetches past := by
      rw [fetches_append]
      exact List.append_nil _
    cases outcome with
    | error f => cases hverdict
    | ok result' =>
      injection hverdict with hresult
      subst hresult
      rw [Strategy.config_of_complete ht, candlesOf_congr hfetches, hfetches]
      exact houtcome _ rfl
  . intros
    trivial
  . intro now t f
    exact fair_closeStranded (commits_append_ne_nil hstored _)

theorem fair_trial {s : Strategy} (hstatus : s.status = .backtesting)
    (hstored : commits past ≠ []) (hunfetched : fetches past = []) :
    Obeys (.fair (.backtest id r)) (fun _ _ => True) (fun _ _ => True) past (do
      let outcome ← attempt (simulate s.config r)
      judge id r s outcome) := by
  rw [obeys_bind, obeys_attempt]
  apply (Conduct.onlySaves_fair _).simulate
  . intro found result hfound hresult
    have hfetches : fetches (past ++ gathered s.config.timeframe
        { first := r.start, last := r.stop } found ++ [⟨.giveWay, ()⟩]) =
          found.map fun (symbol, cs) => ({
            symbol
            timeframe := s.config.timeframe
            window := { first := r.start, last := r.stop } }, cs) := by
      rw [fetches_append, fetches_append, hunfetched, fetches_gathered]
      exact List.append_nil _
    apply fair_judge hstatus
    . exact commits_append_ne_nil (commits_append_ne_nil hstored _) _
    . rintro _ ⟨⟩
      rw [candlesOf_of_fetches hfetches, hfetches, List.map_map, Config.candleRequests, ← hfound,
        List.map_map]
      exact ⟨rfl, hresult⟩
  . intro f later _
    apply fair_judge hstatus
    . exact commits_append_ne_nil hstored _
    . rintro _ ⟨⟩

theorem fair_backtest (id : String) (r : BacktestRequest Float) :
    Obeys (.fair (.backtest id r)) (fun _ _ => True) (fun _ _ => True) [] (backtest id r) := by
  rw [backtest_eq, obeys_bind, obeys_ofExcept]
  refine ⟨?_, fun _ _ => trivial⟩
  intro _ _
  rw [obeys_bind]
  apply (Conduct.onlySaves_fair _).transition
  . intro known now s _ hs
    apply Conduct.fair_of_earned
    exact Earned.of_ne (fun _ => rfl) hs nofun
  . intro known now started version notices _ hs hnotices
    have hstatus := Strategy.status_of_start hs
    have hwaiting : (started.saved version).published.status = .backtesting := hstatus
    apply fair_trial hwaiting
    . apply commits_append_ne_nil
      exact List.cons_ne_nil _ _
    . rw [fetches_append, fetches_notices hnotices]
      rfl
  . intros
    trivial

end Service

theorem Conduct.fair_of_ne {call : Call} (h : ∀ id r, call ≠ .backtest id r)
    (past : List Exchange) (request : Request) : Conduct.fair call past request := by
  cases request with
  | save s => exact fun id r hcall => absurd hcall (h id r)
  | _ => trivial

theorem Call.fair_service (call : Call) :
    call.service.run.Obeys (.fair call) (fun _ _ => True) [] := by
  cases call with
  | backtest id r =>
    have hmap : Service.Obeys (.fair (.backtest id r)) (fun _ _ => True) (fun _ _ => True) []
        ((fun s => [s]) <$> Service.backtest id r) :=
      Service.obeys_map.mpr (Service.fair_backtest id r)
    exact hmap.imp fun _ _ _ => trivial
  | _ =>
    apply Program.obeys_of_forall
    apply Conduct.fair_of_ne
    rintro _ _ ⟨⟩

theorem Call.Prepares.of_complete {call : Call} {ds : List Exchange} {known s : Strategy}
    {result : BacktestResult Float} {now : Instant} (h : call.Prepares ds s)
    (hs : known.perform (.completeBacktest result) now = .ok s) :
    ∃ id r found started version, call = .backtest id r ∧
      ds = [lookedUp id (some found), accepted started version] ∧
      s.id = id ∧ s.version = version ∧ s.config = started.config := by
  cases h with
  | creation hcreate =>
    have hstatus := Strategy.status_of_perform hs
    obtain ⟨_, _, rfl⟩ := Strategy.create_eq_ok_iff.mp hcreate
    simp only [Strategy.changedBy] at hstatus
    split at hstatus <;> cases hstatus
  | operation hsingle _ hperform =>
    rw [Strategy.command_of_complete hperform hs] at hsingle
    unfold single? at hsingle
    split at hsingle <;> cases hsingle
  | start _ hperform => cases Strategy.command_of_complete hperform hs
  | @verdict id r found started version outcome _ _ hid hperform =>
    have hverdict := Strategy.command_of_complete hperform hs
    refine ⟨id, r, found, started, version, rfl, rfl, ?_, ?_, ?_⟩
    . exact (Strategy.id_of_perform hperform).trans hid
    . exact Strategy.version_of_perform hperform
    . rw [hverdict] at hperform
      have hconfig := Strategy.config_of_complete hperform
      exact hconfig
  | closing _ _ _ hperform => cases Strategy.command_of_complete hperform hs

theorem Trace.fetches_of_accepted {t : Turn} {client : Nat} {s : Strategy} {version : Nat}
    (ht : t.toExchange = accepted s version) : fetches (past [t] client) = [] := by
  unfold fetches past
  rw [List.filterMap_eq_nil_iff]
  intro e he
  obtain ⟨u, hu, rfl⟩ := List.mem_map.mp he
  rw [List.mem_singleton.mp (List.mem_filter.mp hu).1, ht]
  rfl

theorem Trace.exists_turn_of_commits {trace : Trace} {client : Nat} {stored : Strategy}
    (h : stored ∈ commits (trace.past client)) :
    ∃ before t after s version, trace = before ++ t :: after ∧ t.client = client ∧
      t.toExchange = accepted s version ∧ stored = (s.saved version).published := by
  obtain ⟨e, he, hstored⟩ := List.mem_filterMap.mp h
  obtain ⟨before, t, after, htrace, hclient, rfl⟩ := exists_turn_of_mem_past he
  unfold committed? at hstored
  split at hstored
  . next s version hsave =>
    injection hstored with hstored
    exact ⟨before, t, after, s, version, htrace, hclient, hsave, hstored.symm⟩
  . cases hstored

namespace World

variable {calls : Nat → Call} {moves : List Move} {before after : Trace} {t : Turn}
  {id : String} {r : BacktestRequest Float} {s : Strategy}

theorem fair_run (calls : Nat → Call) (moves : List Move) (client : Nat) :
    ((run calls moves).clients client).Obeys (.fair (calls client)) (fun _ _ => True)
      ((run calls moves).trace.past client) :=
  obeys_run Call.fair_service moves client

theorem earned_of_turn (h : (run calls moves).trace = before ++ t :: after)
    (hcall : calls t.client = .backtest id r) (ht : t.request = .save s) :
    Earned r (before.past t.client) s := by
  obtain ⟨earlier, next, outside, rfl, hask, _⟩ := exists_world_of_turn h
  rcases t with ⟨⟨request, reply⟩, client⟩
  subst ht
  have hobeys := fair_run calls earlier client
  rw [hask] at hobeys
  exact hobeys.1 id r hcall

theorem history_of_consecutive {a b : Trace} {start : Turn} {started : Strategy} {version next : Nat}
    (h : (run calls moves).trace = a ++ start :: (b ++ t :: after))
    (hstart : start.toExchange = accepted started version) (ht : t.toExchange = accepted s next)
    (hstarted : started.id = id) (hid : s.id = id) (hversion : s.version = version) :
    b.history id = [] := by
  obtain ⟨hbegun, hnext⟩ := accepted_of_turn h hstart
  rw [List.append_cons] at h
  apply quiet_of_accepted h ht hid
  rw [Trace.history_append, Trace.history_of_accepted hstart, if_pos hstarted, List.length_append,
    List.length_singleton, hversion, hnext, hbegun, hstarted]

/--
A result that is stored is that of a replay of the configuration that is stored with it, from the
capital and over the candles of the backtest that stores it. Nobody has stored the strategy since the
backtest had begun, so no edit is overwritten, or judged by a result that it had no part in.
-/
theorem stored_result_replayed {known : Strategy} {result : BacktestResult Float} {now : Instant}
    {version : Nat} (h : (run calls moves).trace = before ++ t :: after)
    (ht : t.toExchange = accepted s version)
    (hs : known.perform (.completeBacktest result) now = .ok s) :
    ∃ id r started start, ∃ a b : Trace, calls t.client = .backtest id r ∧
      before = a ++ start :: b ∧ start.client = t.client ∧
      start.toExchange = accepted started s.version ∧
      let begun := (started.saved s.version).published
      let stored := (s.saved version).published
      begun.id = id ∧ stored.id = id ∧
      Trace.history b id = [] ∧ Trace.history (before ++ [t]) id = a.history id ++ [begun, stored] ∧
      stored.config = begun.config ∧ stored.result = some result ∧
      fetches (a.past t.client) = [] ∧
      (fetches (b.past t.client)).map Prod.fst = stored.config.candleRequests r ∧
      runBacktest stored.config (candlesOf (b.past t.client)) r.capital = .ok result := by
  have hsave : t.request = .save s := by rw [ht]
  obtain ⟨id, r, found, started, began, hcall, hds, hid, hversion, hconfig⟩ :=
    (prepares_of_turn h hsave).of_complete hs
  obtain ⟨hrequests, hreplayed⟩ := (earned_of_turn h hcall hsave).replayed hs
  -- the version that is expected is the one under which the start was stored
  obtain ⟨a, start, b, rfl, hclient, hstart, ha, hb⟩ :=
    Trace.exists_turn_of_dealings [lookedUp id (some found)] hds
  subst hversion
  rw [List.append_assoc, List.cons_append] at h
  have hstarted : started.id = id := id_of_turn (hclient ▸ hcall) h rfl (by rw [hstart])
  have hquiet := history_of_consecutive h hstart ht hstarted hid rfl
  -- all that was fetched was fetched since the start was stored
  have hunfetched : fetches (a.past t.client) = [] := by
    have hearned := earned_of_turn h (hclient ▸ hcall) (by rw [hstart])
    rw [hclient] at hearned
    apply hearned.unfetched
    rw [← commits_dealings, ha]
    rfl
  have hfetches : fetches (Trace.past (a ++ start :: b) t.client) =
      fetches (Trace.past b t.client) := by
    rw [List.append_cons, Trace.past_append, Trace.past_append, fetches_append, fetches_append,
      hunfetched, Trace.fetches_of_accepted hstart]
    rfl
  rw [hfetches] at hrequests
  rw [candlesOf_congr hfetches] at hreplayed
  refine ⟨id, r, started, start, a, b, hcall, rfl, hclient, hstart, hstarted, hid, hquiet, ?_, hconfig,
    ?_, hunfetched, hrequests, hreplayed⟩
  . have hbefore : Trace.history (a ++ start :: b) id =
        a.history id ++ [(started.saved s.version).published] := by
      rw [List.append_cons, Trace.history_append, hquiet, List.append_nil, Trace.history_append,
        Trace.history_of_accepted hstart, if_pos hstarted]
    rw [Trace.history_append, hbefore, Trace.history_of_accepted ht, if_pos hid, List.append_assoc]
    rfl
  . obtain ⟨_, _, rfl⟩ := Strategy.perform_eq_ok_iff.mp hs
    rfl

theorem exists_complete_of_passed {ds : List Exchange} (h : (Call.backtest id r).Prepares ds s)
    (hs : s.status = .backtestPassed) :
    ∃ known : Strategy, ∃ result now, known.perform (.completeBacktest result) now = .ok s := by
  cases h with
  | operation hsingle => cases hsingle
  | start _ hperform =>
    rw [Strategy.status_of_start hperform] at hs
    cases hs
  | @verdict _ _ _ _ _ outcome _ _ _ hperform =>
    cases outcome with
    | ok result => exact ⟨_, result, _, hperform⟩
    | error f =>
      rw [Strategy.status_of_perform hperform] at hs
      cases hs
  | closing _ _ _ hperform =>
    rw [Strategy.status_of_perform hperform] at hs
    cases hs

def withCandles : Host Id
  | .fetch _ => .ok (candlesOfCloses [100, 110, 130])
  | r => withoutCandles r

def trialCalls : Nat → Call
  | 0 => .create "s" "owner" (crossingConfig ["BTC"])
  | 1 => .backtest "s" sampleRequest
  | _ => .updateConfiguration "s" sampleConfig

def trial : World :=
  run trialCalls ([0, 0, 0, 1, 1, 1, 1, 2, 2, 1, 1, 1, 1, 2, 1].map fun client =>
    { client, outside := withCandles })

theorem trial_replayed :
    (trial.trace.history "s").map Strategy.status = [.draft, .backtesting, .backtestPassed] ∧
    ∃ before t after s version result now, ∃ known : Strategy,
      trial.trace = before ++ t :: after ∧ t.toExchange = accepted s version ∧
      known.perform (.completeBacktest result) now = .ok s ∧
      ∃ past, (fetches past).map Prod.fst = s.config.candleRequests sampleRequest ∧
        runBacktest s.config (candlesOf past) sampleRequest.capital = .ok result := by
  have hhistory : (trial.trace.history "s").map Strategy.status =
      [.draft, .backtesting, .backtestPassed] := by
    decide +kernel
  have hpassed : (commits (trial.trace.past 1)).getLast?.map Strategy.status =
      some .backtestPassed := by
    decide +kernel
  obtain ⟨stored, hlast, hstatus⟩ := Option.map_eq_some_iff.mp hpassed
  obtain ⟨before, t, after, s, version, htrace, hclient, ht, rfl⟩ :=
    Trace.exists_turn_of_commits (List.mem_of_getLast? hlast)
  have hprepares := prepares_of_turn htrace (by rw [ht])
  rw [hclient] at hprepares
  obtain ⟨known, result, now, hs⟩ := exists_complete_of_passed hprepares hstatus
  obtain ⟨id, r, _, _, _, b, hcall, _, _, _, _, _, _, _, _, _, _, hrequests, hreplayed⟩ :=
    stored_result_replayed htrace ht hs
  rw [hclient] at hcall
  cases hcall
  exact ⟨hhistory, before, t, after, s, version, result, now, known, htrace, ht, hs, _, hrequests,
    hreplayed⟩

end World
end StrategyDesk
