import StrategyDesk.Proofs.Service.Conduct
import StrategyDesk.Proofs.Strategy.Operations

/-!
This module contains what the parts that services are made of exchange with their surroundings, one
request after another, for conducts that restrict nothing but what is saved.
-/

namespace StrategyDesk

open Exchange

namespace Exchange

@[match_pattern]
abbrev lookedUp (id : String) (found : Option Strategy) : Exchange :=
  ⟨.find id, .ok found⟩

@[match_pattern]
abbrev accepted (s : Strategy) (version : Nat) : Exchange :=
  ⟨.save s, .ok version⟩

@[match_pattern]
abbrev refused (s : Strategy) (f : Failure) : Exchange :=
  ⟨.save s, .error f⟩

@[match_pattern]
abbrev told (now : Instant) : Exchange :=
  ⟨.now, now⟩

@[match_pattern]
abbrev fetched (q : CandleRequest) (reply : Except Failure (List (Candle Float))) : Exchange :=
  ⟨.fetch q, reply⟩

def isNotice : Exchange → Bool
  | ⟨.publish _, _⟩ => true
  | _ => false

def gathered (timeframe : Timeframe) (window : Window)
    (found : List (String × List (Candle Float))) : List Exchange :=
  found.map fun (symbol, cs) => fetched { symbol, timeframe, window } (.ok cs)

theorem filterMap_notices {γ : Type} (f : Exchange → Option γ)
    (hf : ∀ e, e.isNotice = true → f e = none) {notices : List Exchange}
    (h : ∀ e ∈ notices, e.isNotice = true) : notices.filterMap f = [] := by
  rw [List.filterMap_eq_nil_iff]
  exact fun e he => hf e (h e he)

theorem dealings_notices {notices : List Exchange} (h : ∀ e ∈ notices, e.isNotice = true) :
    dealings notices = [] := by
  unfold dealings
  rw [List.filter_eq_nil_iff]
  intro e he
  rcases e with ⟨r, reply⟩
  cases r <;> first | exact Bool.false_ne_true | cases h _ he

@[simp]
theorem dealings_gathered (timeframe : Timeframe) (window : Window)
    (found : List (String × List (Candle Float))) : dealings (gathered timeframe window found) = [] := by
  unfold dealings gathered
  rw [List.filter_eq_nil_iff]
  intro e he
  obtain ⟨_, _, rfl⟩ := List.mem_map.mp he
  exact Bool.false_ne_true

end Exchange

def Request.isSave : Request → Bool
  | .save _ => true
  | _ => false

def Conduct.OnlySaves (conduct : Conduct) : Prop :=
  ∀ past r, r.isSave = false → conduct past r

theorem Conduct.onlySaves_onSaves (may : List Exchange → Strategy → Prop) :
    (Conduct.onSaves may).OnlySaves := by
  intro past r hr
  cases r with
  | save s => cases hr
  | _ => trivial

namespace Service

def judge (id : String) (r : BacktestRequest Float) (s : Strategy)
    (outcome : Except Failure (BacktestResult Float)) : Service Strategy := do
  let s ← ofExcept (s.perform (verdict r.capital outcome) (← currentTime))
  match ← attempt (persist s) with
  | .ok s => return s
  | .error cause =>
    discard (attempt (closeStranded id cause r.capital))
    throw cause

theorem backtest_eq (id : String) (r : BacktestRequest Float) :
    backtest id r = (do
      ofExcept r.validate
      let s ← transition id .startBacktest
      let outcome ← attempt (simulate s.config r)
      judge id r s outcome) :=
  rfl

theorem exists_perform_verdict {s : Strategy} (h : s.status = .backtesting) (capital : Float)
    (outcome : Except Failure (BacktestResult Float)) (now : Instant) :
    ∃ t, s.perform (verdict capital outcome) now = .ok t := by
  refine ⟨_, Strategy.perform_eq_ok_iff.mpr ⟨?_, ?_, rfl⟩⟩
  . rw [h]
    cases outcome <;> rfl
  . cases outcome <;> trivial

theorem exists_perform_fail {s : Strategy} (h : s.status = .backtesting) (reason : String)
    (capital : Float) (now : Instant) :
    ∃ t, s.perform (.failBacktest reason capital) now = .ok t := by
  refine ⟨_, Strategy.perform_eq_ok_iff.mpr ⟨?_, trivial, rfl⟩⟩
  rw [h]
  rfl

end Service

namespace Conduct.OnlySaves

open Service

variable {conduct : Conduct} {past : List Exchange} {bad : List Exchange → Failure → Prop}

theorem load (h : conduct.OnlySaves) {good : List Exchange → Strategy → Prop} {id : String}
    (hnone : bad (past ++ [lookedUp id none]) (.notFound id))
    (hsome : ∀ s, s.id = id → good (past ++ [lookedUp id (some s)]) s) :
    Obeys conduct good bad past (load id) := by
  unfold Service.load
  simp only [obeys_bind, obeys_stored?]
  exact ⟨h _ _ rfl, hnone, hsome⟩

theorem announceAll (h : conduct.OnlySaves) {good : List Exchange → Unit → Prop} (es : List Event)
    (hgood : ∀ notices, (∀ e ∈ notices, e.isNotice = true) → good (past ++ notices) ()) :
    Obeys conduct good bad past (announceAll es) := by
  induction es generalizing past with
  | nil =>
    have := hgood [] (by simp)
    rwa [List.append_nil] at this
  | cons e es ih =>
    unfold Service.announceAll
    simp only [obeys_bind, obeys_announce]
    refine ⟨h _ _ rfl, ?_⟩
    intro reply
    apply ih
    intro notices hnotices
    rw [List.append_assoc]
    apply hgood
    intro e he
    rcases List.mem_cons.mp he with rfl | he
    . rfl
    . exact hnotices e he

theorem persist (h : conduct.OnlySaves) {good : List Exchange → Strategy → Prop} {s : Strategy}
    (hmay : conduct past (.save s))
    (hgood : ∀ version notices, (∀ e ∈ notices, e.isNotice = true) →
      good (past ++ [accepted s version] ++ notices) (s.saved version).published)
    (hbad : ∀ f, bad (past ++ [refused s f]) f) :
    Obeys conduct good bad past (persist s) := by
  unfold Service.persist
  simp only [obeys_bind, obeys_commit]
  refine ⟨hmay, ?_, hbad⟩
  intro version
  exact h.announceAll s.pending fun notices hnotices => hgood version notices hnotices

theorem transition (h : conduct.OnlySaves) {good : List Exchange → Strategy → Prop} {id : String}
    {command : Command}
    (hmay : ∀ known now s, known.id = id → known.perform command now = .ok s →
      conduct (past ++ [lookedUp id (some known), told now]) (.save s))
    (hgood : ∀ known now s version notices, known.id = id → known.perform command now = .ok s →
      (∀ e ∈ notices, e.isNotice = true) →
        good (past ++ [lookedUp id (some known), told now, accepted s version] ++ notices)
          (s.saved version).published)
    (hbad : ∀ f later, commits later = [] → bad (past ++ later) f) :
    Obeys conduct good bad past (transition id command) := by
  unfold Service.transition
  rw [obeys_bind]
  apply h.load
  . exact hbad _ _ rfl
  . intro known hid
    simp only [obeys_bind, obeys_currentTime, obeys_ofExcept]
    refine ⟨h _ _ rfl, ?_⟩
    intro now
    rw [List.append_assoc]
    constructor
    . intro s hs
      apply h.persist
      . exact hmay known now s hid hs
      . intro version notices hnotices
        rw [List.append_assoc past]
        exact hgood known now s version notices hid hs hnotices
      . intro f
        rw [List.append_assoc]
        exact hbad f _ rfl
    . intro f _
      exact hbad f _ rfl

theorem gather (h : conduct.OnlySaves)
    {good : List Exchange → List (String × List (Candle Float)) → Prop}
    (cfg : Config Float) (window : Window) (symbols : List String)
    (hgood : ∀ found, found.map Prod.fst = symbols →
      good (past ++ gathered cfg.timeframe window found) found)
    (hbad : ∀ f later, dealings later = [] → bad (past ++ later) f) :
    Obeys conduct good bad past (gather cfg window symbols) := by
  induction symbols generalizing past good with
  | nil =>
    have := hgood [] rfl
    rwa [gathered, List.map_nil, List.append_nil] at this
  | cons symbol symbols ih =>
    unfold Service.gather
    simp only [obeys_bind, obeys_candles, obeys_discard, obeys_counted]
    refine ⟨h _ _ rfl, ?_, ?_⟩
    . intro cs _ _
      apply ih
      . intro found hfound
        rw [List.append_assoc]
        apply hgood ((symbol, cs) :: found)
        rw [List.map_cons, hfound]
      . intro f later hlater
        rw [List.append_assoc]
        exact hbad f _ hlater
    . intro f
      exact hbad f _ rfl

theorem simulate (h : conduct.OnlySaves) {good : List Exchange → BacktestResult Float → Prop}
    (cfg : Config Float) (r : BacktestRequest Float)
    (hgood : ∀ found result, found.map Prod.fst = cfg.symbols →
      runBacktest cfg (fun symbol => (found.lookup symbol).getD []) r.capital = .ok result →
        good (past ++ gathered cfg.timeframe { first := r.start, last := r.stop } found ++
          [⟨.giveWay, ()⟩]) result)
    (hbad : ∀ f later, dealings later = [] → bad (past ++ later) f) :
    Obeys conduct good bad past (simulate cfg r) := by
  unfold Service.simulate
  rw [obeys_bind]
  apply h.gather
  . intro found hfound
    simp only [obeys_bind, obeys_giveWay, obeys_ofExcept]
    refine ⟨h _ _ rfl, ?_, ?_⟩
    . intro result hresult
      exact hgood found result hfound hresult
    . intro f _
      rw [List.append_assoc]
      apply hbad
      rw [dealings_append, dealings_gathered]
      rfl
  . exact hbad

theorem closeStranded (h : conduct.OnlySaves) {good : List Exchange → Unit → Prop} {id : String}
    {cause : Failure} {capital : Float}
    (hnone : bad (past ++ [lookedUp id none]) (.notFound id))
    (hleft : ∀ waiting, waiting.status ≠ .backtesting →
      good (past ++ [lookedUp id (some waiting)]) ())
    (hmay : ∀ waiting now reason s, waiting.id = id → waiting.status = .backtesting →
      waiting.perform (.failBacktest reason capital) now = .ok s →
        conduct (past ++ [lookedUp id (some waiting), told now]) (.save s))
    (hgood : ∀ waiting now s version notices, (∀ e ∈ notices, e.isNotice = true) →
      good (past ++ [lookedUp id (some waiting), told now, accepted s version] ++ notices) ())
    (hbad : ∀ waiting now s f,
      bad (past ++ [lookedUp id (some waiting), told now, refused s f]) f) :
    Obeys conduct good bad past (closeStranded id cause capital) := by
  unfold Service.closeStranded
  rw [obeys_bind]
  apply h.load hnone
  intro waiting hid
  split
  . next hstatus =>
    have hstatus : waiting.status = .backtesting := by simpa using hstatus
    simp only [obeys_bind, obeys_currentTime, obeys_ofExcept, obeys_discard]
    refine ⟨h _ _ rfl, ?_⟩
    intro now
    rw [List.append_assoc]
    constructor
    . intro s hs
      apply h.persist
      . exact hmay waiting now _ s hid hstatus hs
      . intro version notices hnotices
        rw [List.append_assoc past]
        exact hgood waiting now s version notices hnotices
      . intro f
        rw [List.append_assoc]
        exact hbad waiting now s f
    . -- a strategy that waits for a verdict may always fail
      intro f hf
      obtain ⟨t, ht⟩ := exists_perform_fail hstatus _ capital now
      rw [ht] at hf
      cases hf
  . next hstatus => exact hleft waiting (by simpa using hstatus)

theorem judge (h : conduct.OnlySaves) {good : List Exchange → Strategy → Prop} {id : String}
    {r : BacktestRequest Float} {s : Strategy} {outcome : Except Failure (BacktestResult Float)}
    (hstatus : s.status = .backtesting)
    (hmay : ∀ now t, s.perform (verdict r.capital outcome) now = .ok t →
      conduct (past ++ [told now]) (.save t))
    (hgood : ∀ now t version notices, (∀ e ∈ notices, e.isNotice = true) →
      good (past ++ [told now, accepted t version] ++ notices) (t.saved version).published)
    (hclose : ∀ now t f, Obeys conduct (fun later _ => bad later f) (fun later _ => bad later f)
      (past ++ [told now, refused t f]) (Service.closeStranded id f r.capital)) :
    Obeys conduct good bad past (judge id r s outcome) := by
  unfold Service.judge
  simp only [obeys_bind, obeys_currentTime, obeys_ofExcept, obeys_attempt]
  refine ⟨h _ _ rfl, ?_⟩
  intro now
  constructor
  . intro t ht
    apply h.persist
    . exact hmay now t ht
    . intro version notices hnotices
      rw [obeys_pure, List.append_assoc past]
      exact hgood now t version notices hnotices
    . intro f
      simp only [obeys_discard, obeys_attempt, obeys_throw]
      rw [List.append_assoc]
      exact hclose now t f
  . intro f hf
    obtain ⟨t, ht⟩ := exists_perform_verdict hstatus r.capital outcome now
    rw [ht] at hf
    cases hf

end Conduct.OnlySaves
end StrategyDesk
