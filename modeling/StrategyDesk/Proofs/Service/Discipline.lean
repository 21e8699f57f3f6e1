import StrategyDesk.Proofs.Service.Interleaving
import StrategyDesk.Proofs.Service.Parts
import StrategyDesk.Proofs.Strategy.Operations

/-!
This module contains what each service deals with the store: in view of which earlier dealings it
saves a strategy, where that strategy comes from, and which dealings it can end with.
-/

namespace StrategyDesk

open Exchange

def Call.single? : Call → Option (String × Command)
  | .activate id => some (id, .activate)
  | .pause id => some (id, .pause)
  | .stop id => some (id, .stop)
  | .updateConfiguration id cfg => some (id, .updateConfiguration cfg)
  | _ => none

/--
The ways in which a call comes to save a strategy, given its dealings before. A backtest may save
three times: when it starts, when it has a verdict, and, if the verdict was refused, when it lets a
strategy fail that still waits for one.
-/
inductive Call.Prepares : Call → List Exchange → Strategy → Prop
  | creation {id ownerId cfg now s} :
    Strategy.create id ownerId cfg now = .ok s → Prepares (.create id ownerId cfg) [] s
  | operation {call id command known now s} :
    call.single? = some (id, command) → known.id = id → known.perform command now = .ok s →
      Prepares call [lookedUp id (some known)] s
  | start {id r known now s} :
    known.id = id → known.perform .startBacktest now = .ok s →
      Prepares (.backtest id r) [lookedUp id (some known)] s
  | verdict {id r known started version outcome now s} :
    started.id = id →
      (started.saved version).published.perform (Service.verdict r.capital outcome) now = .ok s →
        Prepares (.backtest id r) [lookedUp id (some known), accepted started version] s
  | closing {id r known started version judged cause waiting reason now s} :
    started.id = id → waiting.id = id → waiting.status = .backtesting →
      waiting.perform (.failBacktest reason r.capital) now = .ok s →
        Prepares (.backtest id r) [lookedUp id (some known), accepted started version,
          refused judged cause, lookedUp id (some waiting)] s

inductive Service.BacktestDealings (id : String) : List Exchange → Prop
  | unstarted {ds} : commits ds = [] → BacktestDealings id ds
  | judged {known started version s later} :
    BacktestDealings id [lookedUp id (some known), accepted started version, accepted s later]
  | overtaken {known started version s cause found} :
    (∀ t, found = some t → t.status ≠ .backtesting) →
      BacktestDealings id [lookedUp id (some known), accepted started version, refused s cause,
        lookedUp id found]
  | closed {known started version s cause waiting t reply} :
    BacktestDealings id [lookedUp id (some known), accepted started version, refused s cause,
      lookedUp id (some waiting), ⟨.save t, reply⟩]

def Call.Ends (call : Call) (ds : List Exchange) (answer : Except Failure (List Strategy)) : Prop :=
  match call with
  | .backtest id _ => Service.BacktestDealings id ds
  | _ => ∀ f, answer = .error f → commits ds = []

namespace Service

section Parts

variable {α : Type} {may : List Exchange → Strategy → Prop} {past : List Exchange}
  {bad : List Exchange → Failure → Prop}

theorem obeys_load {good : List Exchange → Strategy → Prop} {id : String}
    (hnone : bad (past ++ [lookedUp id none]) (.notFound id))
    (hsome : ∀ s, s.id = id → good (past ++ [lookedUp id (some s)]) s) :
    Obeys (.onSaves may) good bad past (load id) :=
  (Conduct.onlySaves_onSaves may).load hnone hsome

theorem obeys_persist {good : List Exchange → Strategy → Prop} {s : Strategy}
    (hmay : may (dealings past) s)
    (hgood : ∀ version later, dealings later = dealings past ++ [accepted s version] →
      good later (s.saved version).published)
    (hbad : ∀ f later, dealings later = dealings past ++ [refused s f] → bad later f) :
    Obeys (.onSaves may) good bad past (persist s) := by
  apply (Conduct.onlySaves_onSaves may).persist hmay
  . intro version notices hnotices
    apply hgood
    rw [dealings_append, dealings_append, dealings_notices hnotices, List.append_nil]
    rfl
  . intro f
    apply hbad
    rw [dealings_append]
    rfl

theorem obeys_transition {good : List Exchange → Strategy → Prop} {id : String} {command : Command}
    (hmay : ∀ known now s, known.id = id → known.perform command now = .ok s →
      may (dealings past ++ [lookedUp id (some known)]) s)
    (hgood : ∀ known now s version later, known.id = id → known.perform command now = .ok s →
      dealings later = dealings past ++ [lookedUp id (some known), accepted s version] →
        good later (s.saved version).published)
    (hbad : ∀ f later ds, dealings later = dealings past ++ ds → commits ds = [] → bad later f) :
    Obeys (.onSaves may) good bad past (transition id command) := by
  apply (Conduct.onlySaves_onSaves may).transition
  . intro known now s hid hs
    show may (dealings (past ++ _)) s
    rw [dealings_append]
    exact hmay known now s hid hs
  . intro known now s version notices hid hs hnotices
    apply hgood known now s version _ hid hs
    rw [dealings_append, dealings_append, dealings_notices hnotices, List.append_nil]
    rfl
  . intro f later hlater
    apply hbad f _ (dealings later) (dealings_append past later)
    rw [commits_dealings]
    exact hlater

theorem obeys_simulate {good : List Exchange → BacktestResult Float → Prop} (cfg : Config Float)
    (r : BacktestRequest Float)
    (hgood : ∀ result later, dealings later = dealings past → good later result)
    (hbad : ∀ f later, dealings later = dealings past → bad later f) :
    Obeys (.onSaves may) good bad past (simulate cfg r) := by
  apply (Conduct.onlySaves_onSaves may).simulate
  . intro found result _ _
    apply hgood
    rw [dealings_append, dealings_append, dealings_gathered, List.append_nil]
    exact List.append_nil _
  . intro f later hlater
    apply hbad
    rw [dealings_append, hlater, List.append_nil]

end Parts

theorem obeys_create (id ownerId : String) (cfg : Config Float) :
    Obeys (.onSaves (Call.create id ownerId cfg).Prepares) (fun _ _ => True)
      (fun past _ => commits (dealings past) = []) [] (create id ownerId cfg) := by
  unfold create
  simp only [obeys_bind, obeys_currentTime, obeys_ofExcept]
  refine ⟨trivial, ?_⟩
  intro now
  constructor
  . intro s hs
    apply obeys_persist
    . exact .creation hs
    . intros
      trivial
    . intro f later hlater
      rw [hlater]
      rfl
  . intro f _
    rfl

theorem obeys_single {call : Call} {id : String} {command : Command}
    (h : call.single? = some (id, command)) :
    Obeys (.onSaves call.Prepares) (fun _ _ => True)
      (fun past _ => commits (dealings past) = []) [] (transition id command) := by
  apply obeys_transition
  . intro known now s hid hs
    exact .operation h hid hs
  . intros
    trivial
  . intro f later ds hlater hnone
    rw [hlater]
    exact hnone

theorem obeys_closeStranded {id : String} {r : BacktestRequest Float} {cause : Failure}
    {past : List Exchange} {known started judged : Strategy} {version : Nat} {f : Failure}
    {good : List Exchange → Unit → Prop} {bad : List Exchange → Failure → Prop}
    (hpast : dealings past =
      [lookedUp id (some known), accepted started version, refused judged f])
    (hid : started.id = id)
    (hgood : ∀ later, BacktestDealings id (dealings later) → good later ())
    (hbad : ∀ f later, BacktestDealings id (dealings later) → bad later f) :
    Obeys (.onSaves (Call.backtest id r).Prepares) good bad past
      (closeStranded id cause r.capital) := by
  apply (Conduct.onlySaves_onSaves _).closeStranded
  . apply hbad
    rw [dealings_append, hpast]
    exact .overtaken (by simp)
  . intro waiting hstatus
    apply hgood
    rw [dealings_append, hpast]
    apply BacktestDealings.overtaken
    rintro _ ⟨⟩
    exact hstatus
  . intro waiting now reason s hwaiting hstatus hs
    show (Call.backtest id r).Prepares (dealings (past ++ _)) s
    rw [dealings_append, hpast]
    exact .closing hid hwaiting hstatus hs
  . intro waiting now s version notices hnotices
    apply hgood
    rw [dealings_append, dealings_append, dealings_notices hnotices, List.append_nil, hpast]
    exact .closed
  . intro waiting now s f
    apply hbad
    rw [dealings_append, hpast]
    exact .closed

theorem obeys_judge {id : String} {r : BacktestRequest Float}
    {outcome : Except Failure (BacktestResult Float)} {past : List Exchange}
    {known started : Strategy} {version : Nat}
    (hpast : dealings past = [lookedUp id (some known), accepted started version])
    (hid : started.id = id) (hstatus : started.status = .backtesting) :
    Obeys (.onSaves (Call.backtest id r).Prepares)
      (fun past _ => BacktestDealings id (dealings past))
      (fun past _ => BacktestDealings id (dealings past)) past
      (judge id r (started.saved version).published outcome) := by
  have hwaiting : (started.saved version).published.status = .backtesting := hstatus
  apply (Conduct.onlySaves_onSaves _).judge hwaiting
  . intro now t ht
    show (Call.backtest id r).Prepares (dealings (past ++ _)) t
    rw [dealings_append, hpast]
    exact .verdict hid ht
  . intro now t later notices hnotices
    rw [dealings_append, dealings_append, dealings_notices hnotices, List.append_nil, hpast]
    exact .judged
  . intro now t f
    have hrefused : dealings (past ++ [told now, refused t f]) =
        [lookedUp id (some known), accepted started version, refused t f] := by
      rw [dealings_append, hpast]
      rfl
    apply obeys_closeStranded hrefused hid
    . intro _ h
      exact h
    . intro _ _ h
      exact h

theorem obeys_backtest (id : String) (r : BacktestRequest Float) :
    Obeys (.onSaves (Call.backtest id r).Prepares)
      (fun past _ => BacktestDealings id (dealings past))
      (fun past _ => BacktestDealings id (dealings past)) [] (backtest id r) := by
  rw [backtest_eq, obeys_bind, obeys_ofExcept]
  refine ⟨?_, fun f _ => .unstarted rfl⟩
  intro _ _
  rw [obeys_bind]
  apply obeys_transition
  . intro known now s hid hs
    exact .start hid hs
  . intro known now started version later hid hstarted hlater
    -- from here on nothing but a verdict can be saved, whatever the candles are
    have hstatus := Strategy.status_of_start hstarted
    rw [← Strategy.id_of_perform hstarted] at hid
    rw [obeys_bind, obeys_attempt]
    apply obeys_simulate
    . intro result past hpast
      exact obeys_judge (hpast.trans hlater) hid hstatus
    . intro f past hpast
      exact obeys_judge (hpast.trans hlater) hid hstatus
  . intro f later ds hlater hnone
    rw [hlater]
    exact .unstarted hnone

end Service

theorem Call.obeys_service (call : Call) :
    call.service.run.Obeys (.onSaves call.Prepares) (fun past => call.Ends (dealings past)) [] := by
  have hquiet {α : Type} {x : Service α} {f : α → List Strategy}
      (h : Service.Obeys (.onSaves call.Prepares) (fun _ _ => True)
        (fun past _ => commits (dealings past) = []) [] x) :
      (f <$> x : Service (List Strategy)).run.Obeys (.onSaves call.Prepares)
        (fun past answer => ∀ f, answer = .error f → commits (dealings past) = []) [] := by
    have hmap : Service.Obeys (.onSaves call.Prepares) (fun _ _ => True)
        (fun past _ => commits (dealings past) = []) [] (f <$> x) := Service.obeys_map.mpr h
    refine Program.Obeys.imp ?_ hmap
    intro past answer hanswer f hf
    subst hf
    exact hanswer
  cases call with
  | create id ownerId cfg => exact hquiet (Service.obeys_create id ownerId cfg)
  | get id => exact hquiet (Service.obeys_load rfl fun _ _ => trivial)
  | list status =>
    refine ⟨trivial, ?_⟩
    intro reply _ f _
    rfl
  | activate id => exact hquiet (Service.obeys_single rfl)
  | pause id => exact hquiet (Service.obeys_single rfl)
  | stop id => exact hquiet (Service.obeys_single rfl)
  | updateConfiguration id cfg => exact hquiet (Service.obeys_single rfl)
  | backtest id r =>
    have hmap : Service.Obeys (.onSaves (Call.backtest id r).Prepares)
        (fun past _ => Service.BacktestDealings id (dealings past))
        (fun past _ => Service.BacktestDealings id (dealings past)) []
        ((fun s => [s]) <$> Service.backtest id r) :=
      Service.obeys_map.mpr (Service.obeys_backtest id r)
    refine Program.Obeys.imp ?_ hmap
    intro past answer h
    cases answer with
    | ok found => exact h
    | error f => exact h

end StrategyDesk
