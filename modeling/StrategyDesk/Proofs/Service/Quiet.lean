import StrategyDesk.Proofs.Backtest.Lookahead
import StrategyDesk.Proofs.Indicator.Counting
import StrategyDesk.Proofs.Service.Publication

/-!
This module contains what a backtest amounts to that nobody interferes with. It is carried out alone
on a store, with a source of candles that may fail for any symbol.
-/

namespace StrategyDesk

open Exchange

structure Surroundings where
  candles : CandleRequest → Except Failure (List (Candle Float))
  others : List Exchange → Host Id

structure Scene where
  store : Store
  past : List Exchange

namespace Scene

def events (scene : Scene) : List Event :=
  scene.past.flatMap announced

end Scene

namespace Surroundings

variable (w : Surroundings)

def outside (past : List Exchange) : Host Id
  | .fetch q => w.candles q
  | r => w.others past r

def host : Host (StateM Scene) := fun r scene =>
  let answer := scene.store.answer (w.outside scene.past) r
  (answer.1, { store := answer.2, past := scene.past ++ [⟨r, answer.1⟩] })

end Surroundings

theorem Store.save_of_find? {store : Store} {s known : Strategy}
    (hfind : store.find? s.id = some known) (hversion : s.version = known.version) :
    store.save s = .ok (store.put (s.saved (s.version + 1)).published, s.version + 1) := by
  rw [save_eq_ok]
  refine ⟨?_, rfl, rfl⟩
  rw [version, hfind, hversion]
  rfl

theorem Store.id_of_find? {store : Store} {s : Strategy} {id : String}
    (h : store.find? id = some s) : s.id = id := by
  simpa using List.find?_some h

theorem Program.run_bind {α β : Type} (w : Surroundings) (p : Program α) (f : α → Program β)
    (before : Scene) :
    (p.bind f).run w.host before =
      match p.run w.host before with
      | (.ok a, mid) => (f a).run w.host mid
      | (.error fault, mid) => (.error fault, mid) := by
  induction p generalizing before with
  | done a => rfl
  | ask r next ih => exact ih _ _
  | crash fault => rfl

namespace Service

variable {α β : Type} {w : Surroundings} {before mid : Scene}

def alone (w : Surroundings) (x : Service α) (before : Scene) :
    Except Fault (Except Failure α) × Scene :=
  x.run.run w.host before

theorem alone_bind (x : Service α) (f : α → Service β) :
    (x >>= f).alone w before =
      match x.alone w before with
      | (.ok (.ok a), mid) => (f a).alone w mid
      | (.ok (.error e), mid) => (.ok (.error e), mid)
      | (.error fault, mid) => (.error fault, mid) := by
  show (x.run.bind (ExceptT.bindCont f)).run w.host before = _
  rw [Program.run_bind]
  unfold alone
  cases hx : x.run.run w.host before with
  | mk reply mid =>
    rcases reply with fault | (e | a)
    . rfl
    . rfl
    . rfl

def Does (w : Surroundings) (x : Service α) (before : Scene) (answer : Except Failure α)
    (store : Store) (events : List Event) : Prop :=
  ∃ after, x.alone w before = (.ok answer, after) ∧ after.store = store ∧
    after.events = before.events ++ events

section Parts

variable {x : Service α} {f : α → Service β} {a : α} {answer : Except Failure β} {store later : Store}
  {events events' : List Event}

theorem Does.bind (hx : Does w x before (.ok a) store events)
    (hf : ∀ mid : Scene, mid.store = store → Does w (f a) mid answer later events') :
    Does w (x >>= f) before answer later (events ++ events') := by
  obtain ⟨mid, hmid, hstore, hevents⟩ := hx
  obtain ⟨after, hafter, hlater, hmore⟩ := hf mid hstore
  refine ⟨after, ?_, hlater, ?_⟩
  . rw [alone_bind, hmid]
    exact hafter
  . rw [hmore, hevents, List.append_assoc]

theorem Does.bind_silent (hx : Does w x before (.ok a) store events)
    (hf : ∀ mid : Scene, mid.store = store → Does w (f a) mid answer later []) :
    Does w (x >>= f) before answer later events := by
  have := hx.bind hf
  rwa [List.append_nil] at this

theorem Does.bind_error {e : Failure} (hx : Does w x before (.error e) store events) :
    Does w (x >>= f) before (.error e) store events := by
  obtain ⟨mid, hmid, hstore, hevents⟩ := hx
  refine ⟨mid, ?_, hstore, hevents⟩
  rw [alone_bind, hmid]

theorem Does.map {g : α → β} (hx : Does w x before (.ok a) store events) :
    Does w (g <$> x) before (.ok (g a)) store events := by
  obtain ⟨after, hafter, hstore, hevents⟩ := hx
  refine ⟨after, ?_, hstore, hevents⟩
  show (x.run.bind _).run w.host before = _
  rw [Program.run_bind]
  unfold alone at hafter
  rw [hafter]
  rfl

theorem Does.attempt {answer : Except Failure α} (hx : Does w x before answer store events) :
    Does w (attempt x) before (.ok answer) store events := by
  obtain ⟨after, hafter, hstore, hevents⟩ := hx
  refine ⟨after, ?_, hstore, hevents⟩
  show (x.run.bind fun r => .done (Except.ok r)).run w.host before = _
  rw [Program.run_bind]
  unfold alone at hafter
  rw [hafter]
  rfl

/-! ## Requests -/

theorem does_pure (a : α) : Does w (pure a) before (.ok a) before.store [] :=
  ⟨before, rfl, rfl, (List.append_nil _).symm⟩

theorem does_ofExcept (answer : Except Failure α) :
    Does w (ofExcept answer) before answer before.store [] :=
  ⟨before, rfl, rfl, (List.append_nil _).symm⟩

theorem does_counted {x : Except Fault α} {a : α} (h : x = .ok a) :
    Does w (counted x) before (.ok a) before.store [] := by
  rw [h]
  exact does_pure a

theorem does_stored? (id : String) :
    Does w (stored? id) before (.ok (before.store.find? id)) before.store [] := by
  refine ⟨_, rfl, rfl, ?_⟩
  simp [Scene.events, announced]

theorem does_commit {s : Strategy} {version : Nat}
    (h : before.store.save s = .ok (later, version)) :
    Does w (commit s) before (.ok version) later [] := by
  have hanswer : before.store.answer (w.outside before.past) (.save s) = (.ok version, later) := by
    unfold Store.answer
    dsimp only
    rw [h]
  refine ⟨⟨later, before.past ++ [accepted s version]⟩, ?_, rfl, ?_⟩
  . show (Except.ok (before.store.answer (w.outside before.past) (.save s)).1, Scene.mk _ _) = _
    rw [hanswer]
  . simp [Scene.events, announced]

theorem does_announce (e : Event) : Does w (announce e) before (.ok ()) before.store [e] := by
  refine ⟨_, rfl, rfl, ?_⟩
  simp [Scene.events, announced]

theorem does_candles (w : Surroundings) (before : Scene) (q : CandleRequest) :
    Does w (candles q) before (w.candles q) before.store [] := by
  refine ⟨_, rfl, rfl, ?_⟩
  simp [Scene.events, announced]

theorem exists_alone_perform (w : Surroundings) (before : Scene) (known : Strategy)
    (command : Command) :
    ∃ now mid, mid.store = before.store ∧ mid.events = before.events ∧
      ∀ f : Strategy → Service β,
        (do f (← ofExcept (known.perform command (← currentTime)))).alone w before =
          (ofExcept (known.perform command now) >>= f).alone w mid := by
  let now : Instant := w.others before.past .now
  refine ⟨now, { before with past := before.past ++ [told now] }, rfl, ?_, fun f => rfl⟩
  simp [Scene.events, announced]

theorem does_giveWay : Does w giveWay before (.ok ()) before.store [] := by
  refine ⟨_, rfl, rfl, ?_⟩
  simp [Scene.events, announced]

/-! ## Parts of services -/

theorem does_announceAll (es : List Event) :
    Does w (announceAll es) before (.ok ()) before.store es := by
  induction es generalizing before with
  | nil => exact does_pure ()
  | cons e es ih =>
    apply (does_announce e).bind
    intro mid hmid
    rw [← hmid]
    exact ih

theorem does_persist {s : Strategy} {version : Nat}
    (h : before.store.save s = .ok (later, version)) :
    Does w (persist s) before (.ok (s.saved version).published) later s.pending := by
  apply (does_commit h).bind
  intro mid hmid
  rw [← hmid]
  apply (does_announceAll s.pending).bind_silent
  intro after hafter
  rw [← hafter]
  exact does_pure _

theorem does_load {id : String} {known : Strategy} (h : before.store.find? id = some known) :
    Does w (load id) before (.ok known) before.store [] := by
  apply (does_stored? id).bind
  intro mid hmid
  rw [h, ← hmid]
  exact does_pure known

theorem does_load_of_none {id : String} (h : before.store.find? id = none) :
    Does w (load id) before (.error (.notFound id)) before.store [] := by
  apply (does_stored? id).bind
  intro mid hmid
  rw [h, ← hmid]
  exact does_ofExcept _

theorem does_persist_of_perform {known s : Strategy} {command : Command} {now : Instant} {id : String}
    (hfind : before.store.find? id = some known) (hs : known.perform command now = .ok s) :
    Does w (persist s) before (.ok (s.saved (s.version + 1)).published)
      (before.store.put (s.saved (s.version + 1)).published) s.pending := by
  apply does_persist
  apply Store.save_of_find?
  . rw [Strategy.id_of_perform hs, Store.id_of_find? hfind]
    exact hfind
  . exact Strategy.version_of_perform hs

theorem exists_does_transition {id : String} {command : Command} {known : Strategy}
    (hfind : before.store.find? id = some known)
    (hallowed : command.operation.isAllowed known.status = true) (hvalid : command.isValid) :
    ∃ now s, known.perform command now = .ok s ∧
      Does w (transition id command) before (.ok (s.saved (s.version + 1)).published)
        (before.store.put (s.saved (s.version + 1)).published) s.pending := by
  obtain ⟨mid, hload, hmid, hevents⟩ := does_load (w := w) hfind
  obtain ⟨now, later, hlater, hsame, hperform⟩ :=
    exists_alone_perform w mid known command
  have hs : known.perform command now = .ok _ :=
    Strategy.perform_eq_ok_iff.mpr ⟨hallowed, hvalid, rfl⟩
  rw [← hmid, ← hlater] at hfind
  obtain ⟨after, hafter, hstore, hmore⟩ := does_persist_of_perform (w := w) hfind hs
  refine ⟨now, _, hs, after, ?_, ?_, ?_⟩
  . unfold transition
    rw [alone_bind, hload]
    rw [hs] at hperform
    exact (hperform persist).trans hafter
  . rw [hstore, hlater, hmid]
  . rw [hmore, hsame, hevents, List.append_nil]

theorem does_transition_of_not_allowed {id : String} {command : Command} {known : Strategy}
    (hfind : before.store.find? id = some known)
    (hallowed : command.operation.isAllowed known.status = false) :
    Does w (transition id command) before (.error (.badTransition known.status command.operation))
      before.store [] := by
  apply (does_load hfind).bind
  intro mid hmid
  obtain ⟨now, later, hlater, hsame, hperform⟩ :=
    exists_alone_perform w mid known command
  rw [Strategy.perform_of_not_isAllowed hallowed] at hperform
  refine ⟨later, hperform persist, ?_, ?_⟩
  . rw [hlater, hmid]
  . rw [hsame, List.append_nil]

end Parts

end Service

/-! ## Verdicts -/

namespace Surroundings

variable (w : Surroundings)

def failure? (q : CandleRequest) : Option Failure :=
  match w.candles q with
  | .error f => some f
  | .ok _ => none

def found (q : CandleRequest) : List (Candle Float) :=
  match w.candles q with
  | .error _ => []
  | .ok cs => cs

/--
What a backtest comes to: the first failure to get candles, in the order of the symbols, or else
what the replay over all candles comes to.
-/
def outcome (cfg : Config Float) (r : BacktestRequest Float) :
    Except Failure (BacktestResult Float) :=
  let request (symbol : String) : CandleRequest :=
    { symbol, timeframe := cfg.timeframe, window := { first := r.start, last := r.stop } }
  match cfg.symbols.findSome? fun symbol => w.failure? (request symbol) with
  | some f => .error f
  | none => runBacktest cfg (fun symbol => w.found (request symbol)) r.capital

end Surroundings

theorem runBacktest_congr {cfg : Config Float} {candlesOf candlesOf' : String → List (Candle Float)}
    {capital : Float} (h : ∀ symbol ∈ cfg.symbols, candlesOf symbol = candlesOf' symbol) :
    runBacktest cfg candlesOf capital = runBacktest cfg candlesOf' capital := by
  have hvalid : (cfg.symbols.forM fun symbol => Simulation.validateCandles symbol (candlesOf symbol)) =
      cfg.symbols.forM fun symbol => Simulation.validateCandles symbol (candlesOf' symbol) := by
    apply forM_congr
    intro symbol hsymbol
    rw [h symbol hsymbol]
  unfold runBacktest Simulation.check
  rw [hvalid, Simulation.runSymbols_congr h]

namespace Service

variable {w : Surroundings} {before : Scene}

theorem does_gather (w : Surroundings) (before : Scene) {cfg : Config Float} {n : Nat}
    (hrequired : Counted.requiredCandles cfg = .ok n) (window : Window) (symbols : List String) :
    Does w (gather cfg window symbols) before
      (match symbols.findSome? fun symbol =>
        w.failure? { symbol, timeframe := cfg.timeframe, window } with
      | some f => .error f
      | none => .ok (symbols.map fun symbol =>
        (symbol, w.found { symbol, timeframe := cfg.timeframe, window })))
      before.store [] := by
  induction symbols generalizing before with
  | nil => exact does_pure []
  | cons symbol symbols ih =>
    have hcandles := does_candles w before { symbol, timeframe := cfg.timeframe, window }
    unfold gather
    rw [List.findSome?_cons, List.map_cons, Surroundings.failure?, Surroundings.found]
    cases hreply : w.candles { symbol, timeframe := cfg.timeframe, window } with
    | error f =>
      rw [hreply] at hcandles
      exact hcandles.bind_error
    | ok cs =>
      rw [hreply] at hcandles
      apply hcandles.bind
      intro counting hcounting
      apply (does_counted hrequired).map.bind
      intro mid hmid
      have hrest := ih mid
      rw [← hcounting, ← hmid]
      dsimp only
      split
      . next f hf =>
        rw [hf] at hrest
        exact hrest.bind_error
      . next hnone =>
        rw [hnone] at hrest
        apply hrest.bind
        intro later hlater
        rw [← hlater]
        exact does_pure _

theorem does_simulate (w : Surroundings) (before : Scene) {cfg : Config Float} {n : Nat}
    (hrequired : Counted.requiredCandles cfg = .ok n) (r : BacktestRequest Float) :
    Does w (simulate cfg r) before (w.outcome cfg r) before.store [] := by
  have hgather := does_gather w before hrequired { first := r.start, last := r.stop } cfg.symbols
  unfold simulate Surroundings.outcome
  dsimp only
  split
  . next f hf =>
    rw [hf] at hgather
    exact hgather.bind_error
  . next hnone =>
    rw [hnone] at hgather
    apply hgather.bind
    intro mid hmid
    apply does_giveWay.bind
    intro later hlater
    have hcandles : ∀ symbol ∈ cfg.symbols,
        ((cfg.symbols.map fun symbol => (symbol, w.found {
          symbol
          timeframe := cfg.timeframe
          window := { first := r.start, last := r.stop } })).lookup symbol).getD [] =
        w.found {
          symbol
          timeframe := cfg.timeframe
          window := { first := r.start, last := r.stop } } := by
      intro symbol hsymbol
      rw [List.lookup_graph _ hsymbol, Option.getD_some]
    rw [← hmid, ← hlater, ← runBacktest_congr hcandles]
    exact does_ofExcept _

theorem exists_does_judge {id : String} {s : Strategy} (r : BacktestRequest Float)
    (outcome : Except Failure (BacktestResult Float))
    (hfind : before.store.find? id = some s) (hstatus : s.status = .backtesting) :
    ∃ now t, s.perform (verdict r.capital outcome) now = .ok t ∧
      Does w (judge id r s outcome) before (.ok (t.saved (t.version + 1)).published)
        (before.store.put (t.saved (t.version + 1)).published) t.pending := by
  obtain ⟨now, mid, hmid, hsame, hperform⟩ :=
    exists_alone_perform w before s (verdict r.capital outcome)
  obtain ⟨t, ht⟩ := exists_perform_verdict hstatus r.capital outcome now
  rw [← hmid] at hfind
  obtain ⟨after, hafter, hstore, hevents⟩ := (does_persist_of_perform (w := w) hfind ht).attempt
  refine ⟨now, t, ht, after, ?_, ?_, ?_⟩
  . rw [ht] at hperform
    refine (hperform _).trans ?_
    show (attempt (persist t) >>= _).alone w mid = _
    rw [alone_bind, hafter]
    rfl
  . rw [hstore, hmid]
  . rw [hevents, hsame]

end Service

/-! ## Runs -/

inductive Store.Filled : Store → Prop where
  | empty : Filled .empty
  | save {store later : Store} {s : Strategy} {version : Nat} (h : store.Filled)
    (hvalid : s.config.validate = .ok ()) (hsave : store.save s = .ok (later, version)) :
    Filled later

theorem Store.Filled.of_find? {store : Store} {s : Strategy} {id : String} (h : store.Filled)
    (hfind : store.find? id = some s) : s.pending = [] ∧ s.config.validate = .ok () := by
  induction h with
  | empty => cases hfind
  | save _ hvalid hsave ih =>
    rw [Store.find?_of_save hsave] at hfind
    split at hfind
    . cases hfind
      exact ⟨rfl, hvalid⟩
    . exact ih hfind

structure Judged (known : Strategy) (r : BacktestRequest Float)
    (outcome : Except Failure (BacktestResult Float)) (s : Strategy) (events : List Event) : Prop where
  id : s.id = known.id
  config : s.config = known.config
  version : s.version = known.version + 2
  passed_iff : s.status = .backtestPassed ↔
    ∃ result, outcome = .ok result ∧ result.passes known.config.risk.maxDrawdown = true
  failed : s.status ≠ .backtestPassed → s.status = .backtestFailed
  result_of_ok : ∀ result, outcome = .ok result → s.result = some result
  result_of_error : ∀ f, outcome = .error f → s.result = some (.failed r.capital f.message)
  changes : events.map Event.change = [.backtestStarted,
    match outcome with
    | .ok result => .backtestCompleted (result.passes known.config.risk.maxDrawdown)
        result.totalTrades result.profitability
    | .error f => .backtestFailed f.message]
  concerned : ∀ e ∈ events, e.strategyId = known.id

namespace Service

variable {w : Surroundings} {before : Scene} {id : String} {r : BacktestRequest Float}

theorem judged_of_perform {known started judged : Strategy} {now later : Instant}
    {outcome : Except Failure (BacktestResult Float)} (hpending : known.pending = [])
    (hstarted : known.perform .startBacktest now = .ok started)
    (hjudged : (started.saved (started.version + 1)).published.perform
      (verdict r.capital outcome) later = .ok judged) :
    Judged known r outcome (judged.saved (judged.version + 1)).published
      (started.pending ++ judged.pending) := by
  have hfirst := Strategy.pending_of_perform hstarted
  have hsecond := Strategy.pending_of_perform hjudged
  rw [hpending, List.nil_append] at hfirst
  have hconcerned : ∀ e ∈ started.pending ++ judged.pending, e.strategyId = known.id := by
    have hid := Strategy.id_of_perform hstarted
    rw [hfirst, hsecond]
    simp [Strategy.published, Strategy.saved, hid]
  rw [hfirst, hsecond] at hconcerned ⊢
  obtain ⟨_, _, rfl⟩ := Strategy.perform_eq_ok_iff.mp hstarted
  obtain ⟨_, _, rfl⟩ := Strategy.perform_eq_ok_iff.mp hjudged
  cases outcome with
  | ok result =>
    have hpassed : ∀ passes : Bool,
        (if passes then Status.backtestPassed else .backtestFailed) = .backtestPassed ↔
          passes = true := by
      decide
    have hfailed : ∀ passes : Bool,
        (if passes then Status.backtestPassed else .backtestFailed) ≠ .backtestPassed →
          (if passes then Status.backtestPassed else .backtestFailed) = .backtestFailed := by
      decide
    constructor
    case id => rfl
    case config => rfl
    case version => rfl
    case passed_iff =>
      refine (hpassed (result.passes known.config.risk.maxDrawdown)).trans ?_
      simp
    case failed => exact hfailed (result.passes known.config.risk.maxDrawdown)
    case result_of_ok =>
      intro result' h
      injection h with h
      exact congrArg some h
    case result_of_error => simp
    case changes => rfl
    case concerned => exact hconcerned
  | error f =>
    constructor
    case id => rfl
    case config => rfl
    case version => rfl
    case passed_iff =>
      show Status.backtestFailed = .backtestPassed ↔ _
      simp
    case failed =>
      intro _
      rfl
    case result_of_ok => simp
    case result_of_error =>
      intro f' h
      injection h with h
      exact congrArg (fun f => some (BacktestResult.failed r.capital f.message)) h
    case changes => rfl
    case concerned => exact hconcerned

theorem exists_alone_backtest {known : Strategy} (hfind : before.store.find? id = some known)
    (hpending : known.pending = [])
    (hstatus : known.status = .draft ∨ known.status = .backtestFailed)
    (hrequest : r.validate = .ok ()) {n : Nat}
    (hrequired : Counted.requiredCandles known.config = .ok n) :
    ∃ s events after, (backtest id r).alone w before = (.ok (.ok s), after) ∧
      after.store.find? id = some s ∧
      (∀ other, other ≠ id → after.store.find? other = before.store.find? other) ∧
      after.events = before.events ++ events ∧
      Judged known r (w.outcome known.config r) s events := by
  have hallowed : Command.startBacktest.operation.isAllowed known.status = true := by
    rcases hstatus with hstatus | hstatus <;> rw [hstatus] <;> rfl
  have hid := Store.id_of_find? hfind
  obtain ⟨now, started, hstarted, mid, htransition, hmid, hmidEvents⟩ :=
    exists_does_transition (w := w) hfind hallowed trivial
  have hstartedId := (Strategy.id_of_perform hstarted).trans hid
  have hconfig : (started.saved (started.version + 1)).published.config = known.config := by
    obtain ⟨_, _, rfl⟩ := Strategy.perform_eq_ok_iff.mp hstarted
    rfl
  have hwaiting : (started.saved (started.version + 1)).published.status = .backtesting := by
    show started.status = .backtesting
    exact Strategy.status_of_start hstarted
  obtain ⟨later, hsimulate, hlater, hlaterEvents⟩ :=
    (does_simulate w mid hrequired r).attempt
  have hstored : later.store.find? id = some (started.saved (started.version + 1)).published := by
    rw [hlater, hmid, ← hstartedId]
    exact Store.find?_put_self _ (started.saved (started.version + 1)).published
  obtain ⟨instant, judged, hjudged, after, hjudge, hafter, hafterEvents⟩ :=
    exists_does_judge (w := w) r (w.outcome known.config r) hstored hwaiting
  have hjudgement := judged_of_perform hpending hstarted hjudged
  have hjudgedId := hjudgement.id.trans hid
  refine ⟨_, _, after, ?_, ?_, ?_, ?_, hjudgement⟩
  . rw [backtest_eq, hrequest]
    show (transition id .startBacktest >>= _).alone w before = _
    rw [alone_bind, htransition]
    dsimp only
    rw [hconfig, alone_bind, hsimulate]
    exact hjudge
  . rw [hafter, ← hjudgedId]
    exact Store.find?_put_self _ _
  . intro other hother
    rw [hafter, hlater, hmid, Store.find?_put_of_ne, Store.find?_put_of_ne]
    . exact fun h => hother (h.symm.trans hstartedId)
    . exact fun h => hother (h.symm.trans hjudgedId)
  . rw [hafterEvents, hlaterEvents, hmidEvents, List.append_nil, List.append_assoc]

theorem exists_alone_backtest_of_refused
    (h : r.validate ≠ .ok () ∨ before.store.find? id = none ∨
      ∃ known, before.store.find? id = some known ∧ known.status ≠ .draft ∧
        known.status ≠ .backtestFailed) :
    ∃ f, Does w (backtest id r) before (.error f) before.store [] := by
  rw [backtest_eq]
  cases hrequest : r.validate with
  | error f => exact ⟨f, (does_ofExcept _).bind_error⟩
  | ok _ =>
    have hstart : ∃ f, Does w (transition id .startBacktest) before (.error f) before.store [] := by
      rcases h with h | hnone | ⟨known, hfind, hdraft, hfailed⟩
      . exact absurd hrequest h
      . exact ⟨_, (does_load_of_none hnone).bind_error⟩
      . refine ⟨_, does_transition_of_not_allowed hfind ?_⟩
        simp [Command.operation, Operation.isAllowed, hdraft, hfailed]
    obtain ⟨f, after, hafter, hstore, hevents⟩ := hstart
    refine ⟨f, after, ?_, hstore, hevents⟩
    show (transition id .startBacktest >>= _).alone w before = _
    rw [alone_bind, hafter]

/--
A backtest that nobody interferes with ends in the right verdict, whatever candles there are and
whichever of them cannot be got, and its verdict is stored. A request or a status that does not
allow a backtest is refused, and nothing is stored or published.
-/
theorem backtest_alone (w : Surroundings) (before : Scene) (hstore : before.store.Filled)
    (id : String) (r : BacktestRequest Float) :
    (∀ known n, before.store.find? id = some known →
      known.status = .draft ∨ known.status = .backtestFailed → r.validate = .ok () →
      Counted.requiredCandles known.config = .ok n →
        ∃ s events after, (backtest id r).alone w before = (.ok (.ok s), after) ∧
          after.store.find? id = some s ∧
          (∀ other, other ≠ id → after.store.find? other = before.store.find? other) ∧
          after.events = before.events ++ events ∧
          Judged known r (w.outcome known.config r) s events ∧
          ∀ cs : List (Candle Float), cs.length ≤ maxCount →
            Counted.computeAll known.config.indicators cs =
              .ok (.compute known.config.indicators cs)) ∧
    (r.validate ≠ .ok () ∨ before.store.find? id = none ∨
      (∃ known, before.store.find? id = some known ∧ known.status ≠ .draft ∧
        known.status ≠ .backtestFailed) →
        ∃ f after, (backtest id r).alone w before = (.ok (.error f), after) ∧
          after.store = before.store ∧ after.events = before.events) := by
  constructor
  . intro known n hfind hstatus hrequest hrequired
    obtain ⟨hpending, hvalid⟩ := hstore.of_find? hfind
    obtain ⟨s, events, after, halone, hstored, hothers, hevents, hjudged⟩ :=
      exists_alone_backtest (w := w) hfind hpending hstatus hrequest hrequired
    refine ⟨s, events, after, halone, hstored, hothers, hevents, hjudged, ?_⟩
    intro cs hmax
    obtain ⟨hfits, _⟩ := Counted.requiredCandles_eq_ok_iff.mp hrequired
    exact Counted.computeAll_of_le hvalid hfits hmax
  . intro hrefused
    obtain ⟨f, after, halone, hstored, hevents⟩ := exists_alone_backtest_of_refused (w := w) hrefused
    rw [List.append_nil] at hevents
    exact ⟨f, after, halone, hstored, hevents⟩

def barren : Surroundings where
  candles _ := .error (.candleData "no candles")
  others _ := World.withoutCandles

def sampleDraft : Strategy where
  id := "s"
  ownerId := "owner"
  config := World.sampleConfig
  status := .draft
  result := none
  testedAt := none
  reconfiguredAt := none
  activatedAt := none
  stoppedAt := none
  createdAt := { seconds := 0 }
  updatedAt := { seconds := 0 }
  version := 1
  pending := []

theorem backtest_alone_barren :
    (∃ s after, (backtest "s" World.sampleRequest).alone barren ⟨Store.empty.put sampleDraft, []⟩ =
        (.ok (.ok s), after) ∧
      after.store.find? "s" = some s ∧ s.status = .backtestFailed ∧ s.version = 3) ∧
    ∃ f after, (backtest "t" World.sampleRequest).alone barren ⟨Store.empty.put sampleDraft, []⟩ =
        (.ok (.error f), after) ∧
      after.store = Store.empty.put sampleDraft := by
  have hsave : Store.empty.save { sampleDraft with version := 0 } =
      .ok (Store.empty.put sampleDraft, 1) := by
    rfl
  have hstore : (Store.empty.put sampleDraft).Filled := .save .empty rfl hsave
  constructor
  . obtain ⟨s, _, after, halone, hstored, _, _, hjudged, _⟩ :=
      (backtest_alone barren ⟨_, []⟩ hstore "s" World.sampleRequest).1 sampleDraft 2 rfl (.inl rfl)
        rfl rfl
    refine ⟨s, after, halone, hstored, ?_, hjudged.version⟩
    apply hjudged.failed
    rw [ne_eq, hjudged.passed_iff]
    rintro ⟨_, ⟨⟩, _⟩
  . obtain ⟨f, after, halone, hsame, _⟩ :=
      (backtest_alone barren ⟨_, []⟩ hstore "t" World.sampleRequest).2 (.inr (.inl rfl))
    exact ⟨f, after, halone, hsame⟩

end Service
end StrategyDesk
