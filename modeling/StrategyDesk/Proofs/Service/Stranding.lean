import StrategyDesk.Proofs.Service.History

/-!
This module contains what becomes of a strategy once a backtest of it has begun. Nobody but the
client who began the backtest can give the verdict. He tries to save it twice, and the strategy is
left without a verdict just when somebody else has overtaken him both times.
-/

namespace StrategyDesk

open Exchange

def Status.isVerdict : Status → Bool
  | .backtestPassed | .backtestFailed => true
  | _ => false

theorem Call.status_of_single {call : Call} {id : String} {command : Command} {s t : Strategy}
    {now : Instant} (h : call.single? = some (id, command)) (hs : s.status = .backtesting)
    (hperform : s.perform command now = .ok t) : t.status = .backtesting := by
  obtain ⟨hallowed, _, rfl⟩ := Strategy.perform_eq_ok_iff.mp hperform
  rw [hs] at hallowed
  unfold single? at h
  split at h <;> cases h
  . cases hallowed
  . cases hallowed
  . cases hallowed
  . exact hs

theorem Call.Prepares.id_eq {id : String} {r : BacktestRequest Float} {ds : List Exchange}
    {s : Strategy} (h : (Call.backtest id r).Prepares ds s) : s.id = id := by
  cases h with
  | operation hsingle => cases hsingle
  | start hid hperform => exact (Strategy.id_of_perform hperform).trans hid
  | verdict hid hperform => exact (Strategy.id_of_perform hperform).trans hid
  | closing _ hid _ hperform => exact (Strategy.id_of_perform hperform).trans hid

theorem Call.Prepares.isVerdict {id : String} {r : BacktestRequest Float} {ds : List Exchange}
    {s : Strategy} (h : (Call.backtest id r).Prepares ds s) (hds : commits ds ≠ []) :
    s.status.isVerdict = true := by
  cases h with
  | operation _ _ _ => simp [commits, committed?] at hds
  | start _ _ => simp [commits, committed?] at hds
  | @verdict _ _ _ _ _ outcome _ _ _ hperform =>
    rw [Strategy.status_of_perform hperform]
    cases outcome with
    | ok result =>
      simp only [Service.verdict, Strategy.changedBy]
      split <;> rfl
    | error f => rfl
  | closing _ _ _ hperform =>
    rw [Strategy.status_of_perform hperform]
    rfl

namespace Turn

def saves (t : Turn) (client : Nat) : Prop :=
  t.client = client ∧ ∃ s, t.request = .save s

def looksUp (t : Turn) (client : Nat) (id : String) : Prop :=
  t.client = client ∧ t.request = .find id

theorem saves.isDealing {t : Turn} {client : Nat} (h : t.saves client) : t.isDealing = true := by
  rcases t with ⟨⟨r, reply⟩, _⟩
  obtain ⟨_, s, hr⟩ := h
  cases hr
  rfl

theorem looksUp.isDealing {t : Turn} {client : Nat} {id : String} (h : t.looksUp client id) :
    t.isDealing = true := by
  rcases t with ⟨⟨r, reply⟩, _⟩
  obtain ⟨_, hr⟩ := h
  cases hr
  rfl

end Turn

namespace Trace

def SoleCommit (trace : Trace) (id : String) (client : Nat) (s : Strategy) : Prop :=
  (client, s) ∈ trace.log id ∧ ∀ t, (client, t) ∈ trace.log id → t = s

structure Waits (trace : Trace) (id : String) (started : Strategy) : Prop where
  begun : ∃ known ∈ trace.history id, known.version + 1 = started.version ∧
    Operation.startBacktest.isAllowed known.status = true
  since : ∀ s ∈ trace.history id, started.version ≤ s.version → s.status = .backtesting

def AllWait (trace : Trace) (calls : Nat → Call) : Prop :=
  ∀ ⦃client id r started⦄, calls client = .backtest id r →
    trace.SoleCommit id client started → trace.Waits id started

def Released (trace : Trace) (id : String) (started : Strategy) : Prop :=
  ∃ s ∈ trace.history id, started.version < s.version ∧ s.status.isVerdict = true

def Overtakes (trace : Trace) (id : String) (client : Nat) : Prop :=
  ∃ other s, other ≠ client ∧ (other, s) ∈ trace.log id

/--
Whether a client has been overtaken twice: somebody else has stored the strategy after the client
had stored the start of a backtest and before he tried to save the verdict, and somebody else has
stored it after the client had looked it up again and before he tried once more.
-/
def OvertakenTwice (trace : Trace) (id : String) (client : Nat) : Prop :=
  ∃ a b c d e : Trace, ∃ start verdict look closing : Turn,
    trace = a ++ start :: (b ++ verdict :: (c ++ look :: (d ++ closing :: e))) ∧
    start.saves client ∧ b.Overtakes id client ∧ verdict.saves client ∧
    look.looksUp client id ∧ d.Overtakes id client ∧ closing.saves client

variable {trace : Trace} {id : String} {client : Nat} {s : Strategy}

theorem dealings_of_turns {a b c d e : Trace} {start verdict look last : Turn}
    (h₁ : start.saves client) (h₂ : verdict.saves client) (h₃ : look.looksUp client id)
    (h₄ : last.saves client) :
    dealings (past (a ++ start :: (b ++ verdict :: (c ++ look :: (d ++ last :: e)))) client) =
      dealings (past a client) ++ start.toExchange :: (dealings (past b client) ++
        verdict.toExchange :: (dealings (past c client) ++ look.toExchange ::
          (dealings (past d client) ++ last.toExchange :: dealings (past e client)))) := by
  simp only [past_append, dealings_append, dealings_cons]
  rw [if_pos ⟨h₁.1, h₁.isDealing⟩, if_pos ⟨h₂.1, h₂.isDealing⟩, if_pos ⟨h₃.1, h₃.isDealing⟩,
    if_pos ⟨h₄.1, h₄.isDealing⟩]

theorem soleCommit_of_commits (h : commits (trace.past client) = [s]) (hid : s.id = id) :
    trace.SoleCommit id client s := by
  constructor
  . rw [mem_log, h]
    exact ⟨List.mem_singleton_self s, hid⟩
  . intro t ht
    rw [mem_log, h] at ht
    exact List.mem_singleton.mp ht.1

theorem SoleCommit.congr {later : Trace} (h : trace.SoleCommit id client s)
    (hlog : later.log id = trace.log id) : later.SoleCommit id client s := by
  unfold SoleCommit
  rw [hlog]
  exact h

theorem Waits.congr {later : Trace} (h : trace.Waits id s) (hlog : later.log id = trace.log id) :
    later.Waits id s := by
  obtain ⟨hbegun, hsince⟩ := h
  unfold history at hbegun hsince
  rw [← hlog] at hbegun hsince
  exact ⟨hbegun, hsince⟩

theorem Waits.append {later : Trace} {t : Strategy} (h : trace.Waits id s)
    (hlater : later.history id = trace.history id ++ [t]) (ht : t.status = .backtesting) :
    later.Waits id s := by
  obtain ⟨⟨known, hknown, hbegun⟩, hsince⟩ := h
  constructor
  . refine ⟨known, ?_, hbegun⟩
    rw [hlater]
    exact List.mem_append_left _ hknown
  . intro u hu hle
    rw [hlater] at hu
    rcases List.mem_append.mp hu with hu | hu
    . exact hsince u hu hle
    . rw [List.mem_singleton.mp hu]
      exact ht

theorem Waits.not_released (h : trace.Waits id s) : ¬ trace.Released id s := by
  rintro ⟨t, ht, hversion, hverdict⟩
  rw [h.since t ht (by omega)] at hverdict
  cases hverdict

end Trace

namespace World

variable {calls : Nat → Call} {moves : List Move} {before after : Trace} {t : Turn}
  {id : String} {client : Nat} {r : BacktestRequest Float} {started : Strategy}

theorem client_eq_of_waits {p q : Nat} {a b : Strategy}
    (hp : (p, a) ∈ (run calls moves).trace.log id) (hq : (q, b) ∈ (run calls moves).trace.log id)
    (ha : (run calls moves).trace.Waits id a) (hb : (run calls moves).trace.Waits id b) :
    p = q := by
  -- the later of the two would have begun on a strategy that was being tested
  have not_lt {a b : Strategy} (ha : (run calls moves).trace.Waits id a)
      (hb : (run calls moves).trace.Waits id b) : ¬ a.version < b.version := by
    intro hlt
    obtain ⟨known, hknown, hversion, hallowed⟩ := hb.begun
    rw [ha.since known hknown (by omega)] at hallowed
    cases hallowed
  have hab := not_lt ha hb
  have hba := not_lt hb ha
  exact client_eq_of_version_eq hp hq (by omega)

theorem waits_of_start {m : Move} {s : Strategy}
    {next : (Request.save s).Reply → Program (Except Failure (List Strategy))}
    (hcall : calls m.client = .backtest s.id r)
    (hask : (run calls moves).clients m.client = .ask (.save s) next)
    (hversion : s.version = ((run calls moves).trace.history s.id).length)
    (hnone : ∀ t, (m.client, t) ∉ (run calls moves).trace.log s.id) {trace : Trace}
    (htrace : trace.history s.id =
      (run calls moves).trace.history s.id ++ [(s.saved (s.version + 1)).published]) :
    trace.Waits s.id (s.saved (s.version + 1)).published := by
  have hprepares := prepares_of_ask hask
  have hseen {known : Strategy} (h : known ∈ seen (dealings ((run calls moves).trace.past m.client))) :
      known ∈ (run calls moves).trace.history known.id := by
    rw [seen_dealings] at h
    exact mem_history_of_seen h
  -- the client has stored nothing yet, which leaves only the start of the backtest
  have hcommits {c : Strategy} (h : c ∈ commits (dealings ((run calls moves).trace.past m.client)))
      (hid : c.id = s.id) : False := by
    rw [commits_dealings] at h
    exact hnone c (Trace.mem_log.mpr ⟨h, hid⟩)
  rw [hcall] at hprepares
  generalize hds : dealings ((run calls moves).trace.past m.client) = ds at hprepares hseen hcommits
  cases hprepares with
  | operation hsingle => cases hsingle
  | @start _ _ known now _ hid hperform =>
    have hknown : known ∈ (run calls moves).trace.history known.id :=
      hseen (by simp [seen, found?])
    rw [hid] at hknown
    constructor
    . refine ⟨known, ?_, ?_, (Strategy.perform_eq_ok_iff.mp hperform).1⟩
      . rw [htrace]
        exact List.mem_append_left _ hknown
      . show known.version + 1 = s.version + 1
        rw [Strategy.version_of_perform hperform]
    . intro t ht hle
      rw [htrace] at ht
      rcases List.mem_append.mp ht with hold | hnew
      . have := version_le_length hold
        have hle : s.version + 1 ≤ t.version := hle
        omega
      . rw [List.mem_singleton.mp hnew]
        show s.status = .backtesting
        exact Strategy.status_of_start hperform
  | @verdict _ _ _ started version _ _ _ hid hperform =>
    refine (hcommits (c := (started.saved version).published) ?_ hid).elim
    simp [commits, committed?]
  | @closing _ _ _ started version _ _ _ _ _ _ hid _ _ hperform =>
    refine (hcommits (c := (started.saved version).published) ?_ hid).elim
    simp [commits, committed?]

theorem backtesting_of_save {m : Move} {s c : Strategy}
    {next : (Request.save s).Reply → Program (Except Failure (List Strategy))}
    (hwaits : (run calls moves).trace.AllWait calls) (hcall : calls client = .backtest s.id r)
    (hsole : (run calls moves).trace.SoleCommit s.id client c) (hne : m.client ≠ client)
    (hask : (run calls moves).clients m.client = .ask (.save s) next)
    (hversion : s.version = ((run calls moves).trace.history s.id).length) :
    s.status = .backtesting := by
  have hholds := hwaits hcall hsole
  have hle := version_le_length (Trace.mem_history_of_mem_log hsole.1)
  have hseen {known : Strategy}
      (h : known ∈ seen (dealings ((run calls moves).trace.past m.client)))
      (hid : known.id = s.id) (hknown : s.version = known.version) :
      known.status = .backtesting := by
    rw [seen_dealings] at h
    apply hholds.since
    . rw [← hid]
      exact mem_history_of_seen h
    . omega
  -- whoever else was to give a verdict would wait for it too, and so be the same client
  have hother {known started : Strategy} {version : Nat} {rest : List Exchange} {r}
      (hds : dealings ((run calls moves).trace.past m.client) =
        lookedUp s.id (some known) :: accepted started version :: rest)
      (hrest : commits rest = []) (hid : started.id = s.id)
      (hcall' : calls m.client = .backtest s.id r) : False := by
    apply hne
    have hsole' : (run calls moves).trace.SoleCommit s.id m.client
        (started.saved version).published := by
      refine Trace.soleCommit_of_commits ?_ hid
      rw [← commits_dealings, hds]
      show (started.saved version).published :: commits rest = _
      rw [hrest]
    exact client_eq_of_waits hsole'.1 hsole.1 (hwaits hcall' hsole') hholds
  have hprepares := prepares_of_ask hask
  generalize hds : dealings ((run calls moves).trace.past m.client) = ds at hprepares hseen hother
  generalize hcall' : calls m.client = call at hprepares hother
  cases hprepares with
  | creation hcreate =>
    obtain ⟨_, _, hs⟩ := Strategy.create_eq_ok_iff.mp hcreate
    have hzero : s.version = 0 := by rw [hs]
    have hnil := List.eq_nil_of_length_eq_zero (hversion.symm.trans hzero)
    have hmem := Trace.mem_history_of_mem_log hsole.1
    rw [hnil] at hmem
    cases hmem
  | operation hsingle hid hperform =>
    have hsame := Strategy.version_of_perform hperform
    rw [← Strategy.id_of_perform hperform] at hid
    have hknown := hseen (by simp [seen, found?]) (Strategy.id_of_perform hperform).symm hsame
    exact Call.status_of_single hsingle hknown hperform
  | start hid hperform =>
    exact Strategy.status_of_start hperform
  | verdict hid hperform =>
    have hsid := hid.symm.trans (Strategy.id_of_perform hperform).symm
    subst hsid
    exact (hother rfl rfl hid rfl).elim
  | closing hid hwaiting _ hperform =>
    have hsid := hwaiting.symm.trans (Strategy.id_of_perform hperform).symm
    subst hsid
    exact (hother rfl rfl hid rfl).elim

theorem waits_of_save {m : Move} {s : Strategy} {later : Trace}
    {next : (Request.save s).Reply → Program (Except Failure (List Strategy))}
    (hwaits : (run calls moves).trace.AllWait calls) (hcall : calls client = .backtest s.id r)
    (hask : (run calls moves).clients m.client = .ask (.save s) next)
    (hversion : s.version = ((run calls moves).trace.history s.id).length)
    (hlog : later.log s.id =
      (run calls moves).trace.log s.id ++ [(m.client, (s.saved (s.version + 1)).published)])
    (hsole : later.SoleCommit s.id client started) : later.Waits s.id started := by
  have hhistory : later.history s.id =
      (run calls moves).trace.history s.id ++ [(s.saved (s.version + 1)).published] := by
    unfold Trace.history
    rw [hlog, List.map_append]
    rfl
  -- the new state has a greater version than any other, so it is none of these
  have hnew {p : Nat} {u : Strategy} (hu : (p, u) ∈ (run calls moves).trace.log s.id) :
      u ≠ (s.saved (s.version + 1)).published := by
    rintro rfl
    have hle := version_le_length (Trace.mem_history_of_mem_log hu)
    rw [← hversion] at hle
    exact Nat.not_succ_le_self _ hle
  have hold {u : Strategy} (hu : (client, u) ∈ (run calls moves).trace.log s.id) :
      u = started := by
    apply hsole.2
    rw [hlog]
    exact List.mem_append_left _ hu
  have hmem := hsole.1
  rw [hlog] at hmem
  rcases List.mem_append.mp hmem with hmem | hmem
  . have hsole' : (run calls moves).trace.SoleCommit s.id client started :=
      ⟨hmem, fun _ => hold⟩
    have hne : m.client ≠ client := by
      rintro rfl
      apply hnew hmem
      rw [hsole.2 (s.saved (s.version + 1)).published (by simp [hlog])]
    apply (hwaits hcall hsole').append hhistory
    exact backtesting_of_save (s := s) hwaits hcall hsole' hne hask hversion
  . injection List.mem_singleton.mp hmem with hclient hstarted
    subst hclient hstarted
    refine waits_of_start hcall hask hversion ?_ hhistory
    intro u hu
    exact hnew hu (hold hu)

theorem allWait_turn {m : Move} {req : Request}
    {next : req.Reply → Program (Except Failure (List Strategy))}
    (hwaits : (run calls moves).trace.AllWait calls)
    (hask : (run calls moves).clients m.client = .ask req next) :
    ((run calls moves).turn m req next).trace.AllWait calls := by
  intro client id r started hcall hsole
  have hkept (hlog : ((run calls moves).turn m req next).trace.log id =
      (run calls moves).trace.log id) :
      ((run calls moves).turn m req next).trace.Waits id started :=
    (hwaits hcall (hsole.congr hlog.symm)).congr hlog
  rcases log_cases calls moves m req next with ⟨s, hr, hversion, hlog⟩ | hlog
  . by_cases hid : s.id = id
    . subst hid hr
      refine waits_of_save hwaits hcall hask hversion ?_ hsole
      rw [hlog, if_pos rfl]
    . apply hkept
      rw [hlog, if_neg hid, List.append_nil]
  . exact hkept (hlog id)

theorem allWait_run (calls : Nat → Call) (moves : List Move) :
    (run calls moves).trace.AllWait calls := by
  refine run_induction (P := fun w => w.trace.AllWait calls) ?_ ?_ moves
  . intro client id r started _ hsole
    cases hsole.1
  . intro moves m req next hwaits hask
    exact allWait_turn hwaits hask

theorem find?_of_soleCommit (hcall : calls client = .backtest id r)
    (hsole : (run calls moves).trace.SoleCommit id client started) :
    ∃ s, (run calls moves).store.find? id = some s ∧ s.status = .backtesting := by
  have hwaits := allWait_run calls moves hcall hsole
  have hmem := Trace.mem_history_of_mem_log hsole.1
  have hle := version_le_length hmem
  have hversion := version_run calls moves id
  unfold Store.version at hversion
  have hpos := List.length_pos_of_mem hmem
  cases hfind : (run calls moves).store.find? id with
  | none =>
    rw [hfind] at hversion
    simp only [Option.map_none, Option.getD_none] at hversion
    omega
  | some s =>
    rw [hfind] at hversion
    simp only [Option.map_some, Option.getD_some] at hversion
    refine ⟨s, rfl, hwaits.since s ?_ (by omega)⟩
    rw [find?_run] at hfind
    exact List.mem_of_getLast? hfind

theorem id_of_turn {s : Strategy} (hcall : calls client = .backtest id r)
    (h : (run calls moves).trace = before ++ t :: after) (hclient : t.client = client)
    (ht : t.request = .save s) : s.id = id := by
  have hprepares := prepares_of_turn h ht
  rw [hclient, hcall] at hprepares
  exact hprepares.id_eq

theorem released_of_turn {s : Strategy} {version : Nat} (hcall : calls client = .backtest id r)
    (h : (run calls moves).trace = before ++ t :: after) (hclient : t.client = client)
    (ht : t.toExchange = accepted s version)
    (hstarted : started ∈ commits (before.past client)) (hsid : started.id = id) :
    (run calls moves).trace.Released id started := by
  have hid : s.id = id := id_of_turn hcall h hclient (by rw [ht])
  obtain ⟨hversion, hnext⟩ := accepted_of_turn h ht
  have hmem : started ∈ before.history id :=
    Trace.mem_history_of_mem_log (Trace.mem_log.mpr ⟨hstarted, hsid⟩)
  have hle : started.version ≤ (before.history id).length := by
    obtain ⟨earlier, _, _, rfl, _⟩ := exists_world_of_turn h
    exact version_le_length hmem
  refine ⟨(s.saved version).published, ?_, ?_, ?_⟩
  . rw [h, List.append_cons, Trace.history_append, Trace.history_append]
    apply List.mem_append_left
    apply List.mem_append_right
    rw [Trace.history_of_accepted ht, if_pos hid]
    exact List.mem_singleton_self _
  . show started.version < version
    rw [hid] at hversion
    omega
  . have hprepares := prepares_of_turn h (s := s) (by rw [ht])
    rw [hclient, hcall] at hprepares
    apply hprepares.isVerdict
    rw [commits_dealings]
    exact List.ne_nil_of_mem hstarted

theorem released_of_dealings (ds : List Exchange) {s : Strategy} {version : Nat}
    (hcall : calls client = .backtest id r)
    (hds : dealings ((run calls moves).trace.past client) = ds ++ [accepted s version])
    (hstarted : started ∈ commits ds) (hid : started.id = id) :
    (run calls moves).trace.Released id started := by
  obtain ⟨before, t, after, htrace, hclient, ht, hbefore, _⟩ :=
    Trace.exists_turn_of_dealings ds hds
  refine released_of_turn hcall htrace hclient ht ?_ hid
  rw [← commits_dealings, hbefore]
  exact hstarted

theorem overtakes_of_refused {s : Strategy} {f : Failure} {between : Trace}
    (h : (run calls moves).trace = before ++ (between ++ t :: after))
    (ht : t.toExchange = refused s f) (hid : s.id = id)
    (hversion : s.version = (before.history id).length)
    (hquiet : commits (between.past client) = []) : between.Overtakes id client := by
  rw [← List.append_assoc] at h
  have hne := refused_of_turn h ht
  rw [hid, Trace.history_append, List.length_append] at hne
  -- the version looked up is not the last one any more, so something was stored since
  have hpos : between.history id ≠ [] := by
    intro hnil
    rw [hnil] at hne
    exact hne hversion
  obtain ⟨u, hu⟩ := List.exists_mem_of_ne_nil _ hpos
  obtain ⟨⟨other, u⟩, hlog, rfl⟩ := List.mem_map.mp hu
  refine ⟨other, u, ?_, hlog⟩
  rintro rfl
  rw [Trace.mem_log, hquiet] at hlog
  cases hlog.1

theorem quiet_of_accepted {s : Strategy} {version : Nat} {between : Trace}
    (h : (run calls moves).trace = before ++ (between ++ t :: after))
    (ht : t.toExchange = accepted s version) (hid : s.id = id)
    (hversion : s.version = (before.history id).length) : between.history id = [] := by
  rw [← List.append_assoc] at h
  have heq := (accepted_of_turn h ht).1
  rw [hid, Trace.history_append, List.length_append] at heq
  apply List.eq_nil_of_length_eq_zero
  omega

theorem not_overtakes_of_accepted {s : Strategy} {version : Nat} {between : Trace}
    (h : (run calls moves).trace = before ++ (between ++ t :: after))
    (ht : t.toExchange = accepted s version) (hid : s.id = id)
    (hversion : s.version = (before.history id).length) : ¬ between.Overtakes id client := by
  rintro ⟨other, u, _, hu⟩
  have hmem := Trace.mem_history_of_mem_log hu
  rw [quiet_of_accepted h ht hid hversion] at hmem
  cases hmem

theorem dealings_of_returned (hcall : calls client = .backtest id r)
    (hreturned : (run calls moves).hasReturned client = true) :
    Service.BacktestDealings id (dealings ((run calls moves).trace.past client)) := by
  have hobeys := obeys_call_run calls moves client
  unfold hasReturned at hreturned
  split at hreturned
  . next hdone =>
    rw [hdone] at hobeys
    have hends : (calls client).Ends (dealings ((run calls moves).trace.past client)) _ := hobeys
    rw [hcall] at hends
    exact hends
  . cases hreturned

section Endings

variable {known started judged closing waiting : Strategy} {version : Nat} {cause f : Failure}

theorem id_of_started {es : List Exchange} (hcall : calls client = .backtest id r)
    (hds : dealings ((run calls moves).trace.past client) =
      lookedUp id (some known) :: accepted started version :: es) : started.id = id := by
  obtain ⟨before, t, after, htrace, hclient, ht, _⟩ :=
    Trace.exists_turn_of_dealings [lookedUp id (some known)] hds
  exact id_of_turn hcall htrace hclient (by rw [ht])

theorem version_of_verdict (hcall : calls client = .backtest id r)
    (h : (run calls moves).trace = before ++ t :: after) (hclient : t.client = client)
    (ht : t.request = .save judged)
    (hds : dealings (before.past client) = [lookedUp id (some known), accepted started version]) :
    judged.version = version := by
  have hprepares := prepares_of_turn h ht
  rw [hclient, hcall, hds] at hprepares
  cases hprepares with
  | verdict _ hperform => exact Strategy.version_of_perform hperform

theorem version_of_closing {between : Trace} {look : Turn} (hcall : calls client = .backtest id r)
    (h : (run calls moves).trace = before ++ look :: (between ++ t :: after))
    (hlook : look.toExchange = lookedUp id (some waiting)) (hclient : t.client = client)
    (ht : t.request = .save closing)
    (hds : dealings (Trace.past (before ++ [look] ++ between) client) =
      [lookedUp id (some known), accepted started version, refused judged cause,
        lookedUp id (some waiting)]) :
    closing.id = id ∧ closing.version = (Trace.history (before ++ [look]) id).length := by
  have hwaiting := version_of_lookup h hlook
  rw [List.append_cons, ← List.append_assoc] at h
  have hprepares := prepares_of_turn h ht
  rw [hclient, hcall, hds] at hprepares
  constructor
  . exact id_of_turn hcall h hclient ht
  . rw [Trace.history_append, Trace.history_of_lookedUp hlook, List.append_nil, ← hwaiting]
    cases hprepares with
    | closing _ _ _ hperform => exact Strategy.version_of_perform hperform

theorem overtakenTwice_of_closed (hcall : calls client = .backtest id r)
    (hds : dealings ((run calls moves).trace.past client) =
      [lookedUp id (some known), accepted started version, refused judged cause,
        lookedUp id (some waiting), refused closing f]) :
    (run calls moves).trace.OvertakenTwice id client := by
  obtain ⟨a, start, rest, htrace, hc₁, ht₁, ha, hrest⟩ :=
    Trace.exists_turn_of_dealings [lookedUp id (some known)] hds
  obtain ⟨b, verdict, rest, rfl, hc₂, ht₂, hb, hrest⟩ := Trace.exists_turn_of_dealings [] hrest
  obtain ⟨c, look, rest, rfl, hc₃, ht₃, hc, hrest⟩ := Trace.exists_turn_of_dealings [] hrest
  obtain ⟨d, last, e, rfl, hc₄, ht₄, hd, _⟩ := Trace.exists_turn_of_dealings [] hrest
  refine ⟨a, b, c, d, e, start, verdict, look, last, htrace, ⟨hc₁, started, by rw [ht₁]⟩, ?_,
    ⟨hc₂, judged, by rw [ht₂]⟩, ⟨hc₃, by rw [ht₃]⟩, ?_, ⟨hc₄, closing, by rw [ht₄]⟩⟩
  . have hstarted := id_of_started hcall hds
    obtain ⟨hversion, hnext⟩ := accepted_of_turn htrace ht₁
    rw [List.append_cons] at htrace
    have hds : dealings (Trace.past (a ++ [start] ++ b) client) =
        [lookedUp id (some known), accepted started version] := by
      rw [Trace.past_append, Trace.past_append, dealings_append, dealings_append, ha, hb,
        Trace.dealings_singleton hc₁ ht₁ rfl]
      rfl
    have htrace₂ := htrace
    rw [← List.append_assoc _ b] at htrace₂
    have hid : judged.id = id := id_of_turn hcall htrace₂ hc₂ (by rw [ht₂])
    have hjudged := version_of_verdict hcall htrace₂ hc₂ (by rw [ht₂]) hds
    apply overtakes_of_refused htrace ht₂ hid
    . rw [Trace.history_append, List.length_append, Trace.history_of_accepted ht₁, if_pos hstarted,
        hjudged, hnext, hversion, hstarted]
      rfl
    . rw [← commits_dealings, hb]
      rfl
  . rw [List.append_cons, ← List.append_assoc, List.append_cons, ← List.append_assoc] at htrace
    have hds : dealings (Trace.past (a ++ [start] ++ b ++ [verdict] ++ c ++ [look] ++ d) client) =
        [lookedUp id (some known), accepted started version, refused judged cause,
          lookedUp id (some waiting)] := by
      simp only [Trace.past_append, dealings_append, ha, hb, hc, hd,
        Trace.dealings_singleton hc₁ ht₁ rfl, Trace.dealings_singleton hc₂ ht₂ rfl,
        Trace.dealings_singleton hc₃ ht₃ rfl]
      rfl
    obtain ⟨hid, hversion⟩ := version_of_closing hcall htrace ht₃ hc₄ (by rw [ht₄]) hds
    rw [List.append_cons] at htrace
    apply overtakes_of_refused htrace ht₄ hid hversion
    rw [← commits_dealings, hd]
    rfl

theorem not_overtakenTwice_of_judged {s : Strategy} {later : Nat} {trace : Trace}
    (hds : dealings (trace.past client) =
      [lookedUp id (some known), accepted started version, accepted s later]) :
    ¬ trace.OvertakenTwice id client := by
  rintro ⟨a, b, c, d, e, start, verdict, look, last, rfl, h₁, _, h₂, h₃, _, h₄⟩
  rw [Trace.dealings_of_turns h₁ h₂ h₃ h₄] at hds
  have hlength := congrArg List.length hds
  simp at hlength
  omega

theorem not_overtakenTwice_of_closed {later : Nat} (hcall : calls client = .backtest id r)
    (hds : dealings ((run calls moves).trace.past client) =
      [lookedUp id (some known), accepted started version, refused judged cause,
        lookedUp id (some waiting), accepted closing later]) :
    ¬ (run calls moves).trace.OvertakenTwice id client := by
  rintro ⟨a, b, c, d, e, start, verdict, look, last, htrace, h₁, _, h₂, h₃, hovertakes, h₄⟩
  rw [htrace, Trace.dealings_of_turns h₁ h₂ h₃ h₄] at hds
  -- the first dealing is a look-up, so the four turns are the four that come after it
  have ha : dealings (a.past client) ≠ [] := by
    intro ha
    rw [ha] at hds
    injection hds with hstart
    obtain ⟨_, s, hs⟩ := h₁
    rw [hstart] at hs
    cases hs
  have hpos := List.length_pos_iff.mpr ha
  have hlength := congrArg List.length hds
  simp only [List.length_append, List.length_cons, List.length_nil] at hlength
  have hone : (dealings (a.past client)).length = 1 := by omega
  obtain ⟨x, hx⟩ := List.length_eq_one_iff.mp hone
  have hb : dealings (b.past client) = [] := List.eq_nil_of_length_eq_zero (by omega)
  have hc : dealings (c.past client) = [] := List.eq_nil_of_length_eq_zero (by omega)
  have hd : dealings (d.past client) = [] := List.eq_nil_of_length_eq_zero (by omega)
  have he : dealings (e.past client) = [] := List.eq_nil_of_length_eq_zero (by omega)
  rw [hx, hb, hc, hd, he] at hds
  simp only [List.cons_append, List.nil_append, List.cons.injEq, and_true] at hds
  obtain ⟨hx', hstart, hverdict, hlook, hlast⟩ := hds
  rw [List.append_cons, ← List.append_assoc, List.append_cons, ← List.append_assoc] at htrace
  have hds : dealings (Trace.past (a ++ [start] ++ b ++ [verdict] ++ c ++ [look] ++ d) client) =
      [lookedUp id (some known), accepted started version, refused judged cause,
        lookedUp id (some waiting)] := by
    simp only [Trace.past_append, dealings_append, hx, hx', hb, hc, hd,
      Trace.dealings_singleton h₁.1 hstart rfl, Trace.dealings_singleton h₂.1 hverdict rfl,
      Trace.dealings_singleton h₃.1 hlook rfl]
    rfl
  obtain ⟨hid, hversion⟩ := version_of_closing hcall htrace hlook h₄.1 (by rw [hlast]) hds
  rw [List.append_cons] at htrace
  exact not_overtakes_of_accepted htrace hlast hid hversion hovertakes

theorem status_of_lookup {found : Option Strategy} (hcall : calls client = .backtest id r)
    (hds : dealings ((run calls moves).trace.past client) =
      [lookedUp id (some known), accepted started version, refused judged cause,
        lookedUp id found]) : ∃ s, found = some s ∧ s.status = .backtesting := by
  have hid := id_of_started hcall hds
  obtain ⟨before, t, after, htrace, hclient, ht, hbefore, _⟩ := Trace.exists_turn_of_dealings
    [lookedUp id (some known), accepted started version, refused judged cause] hds
  have hfound := found_of_turn htrace ht
  obtain ⟨earlier, _, _, rfl, _⟩ := exists_world_of_turn htrace
  rw [hfound, ← find?_run]
  apply find?_of_soleCommit hcall
  apply Trace.soleCommit_of_commits (s := (started.saved version).published) ?_ hid
  rw [← commits_dealings, hbefore]
  rfl

theorem released_or_overtakenTwice (hcall : calls client = .backtest id r)
    (hstarted : (commits ((run calls moves).trace.past client)).head? = some started)
    (hreturned : (run calls moves).hasReturned client = true) :
    (run calls moves).trace.Released id started ∧
        ¬ (run calls moves).trace.OvertakenTwice id client ∨
      (run calls moves).trace.SoleCommit id client started ∧
        (run calls moves).trace.OvertakenTwice id client := by
  have hends := dealings_of_returned hcall hreturned
  rw [← commits_dealings] at hstarted
  generalize hds : dealings ((run calls moves).trace.past client) = ds at hends hstarted
  cases hends with
  | unstarted hnone =>
    rw [hnone] at hstarted
    cases hstarted
  | @judged known began version s later =>
    injection hstarted with hstarted
    have hid := id_of_started hcall hds
    subst hstarted
    exact .inl ⟨released_of_dealings [_, _] hcall hds (List.mem_singleton_self _) hid,
      not_overtakenTwice_of_judged hds⟩
  | @overtaken known began version s cause found hfound =>
    obtain ⟨t, ht, hstatus⟩ := status_of_lookup hcall hds
    exact absurd hstatus (hfound t ht)
  | @closed known began version s cause waiting t reply =>
    injection hstarted with hstarted
    have hid := id_of_started hcall hds
    cases reply with
    | ok later =>
      subst hstarted
      exact .inl ⟨released_of_dealings [_, _, _, _] hcall hds (List.mem_singleton_self _) hid,
        not_overtakenTwice_of_closed hcall hds⟩
    | error f =>
      right
      refine ⟨?_, overtakenTwice_of_closed hcall hds⟩
      apply Trace.soleCommit_of_commits
      . rw [← commits_dealings, hds, ← hstarted]
        rfl
      . rw [← hstarted]
        exact hid

end Endings

/--
When a client has begun a backtest and returned, there has been a verdict since, unless others have
overtaken him twice: once before he saved the verdict, and once more while he was closing the
strategy. Then the strategy is still being tested, and nobody is left who could give the verdict.
-/
theorem released_iff_not_overtakenTwice (hcall : calls client = .backtest id r)
    (hstarted : (commits ((run calls moves).trace.past client)).head? = some started)
    (hreturned : (run calls moves).hasReturned client = true) :
    ((run calls moves).trace.Released id started ↔
      ¬ (run calls moves).trace.OvertakenTwice id client) ∧
    ((run calls moves).trace.OvertakenTwice id client →
      ∃ s, (run calls moves).store.find? id = some s ∧ s.status = .backtesting) := by
  rcases released_or_overtakenTwice hcall hstarted hreturned with ⟨hreleased, hnot⟩ | ⟨hsole, htwice⟩
  . exact ⟨⟨fun _ => hnot, fun _ => hreleased⟩, fun htwice => absurd htwice hnot⟩
  . have hwaits := allWait_run calls moves hcall hsole
    constructor
    . constructor
      . intro hreleased
        exact absurd hreleased hwaits.not_released
      . intro hnot
        exact absurd htwice hnot
    . intro _
      exact find?_of_soleCommit hcall hsole

def sampleBacktest : World :=
  sample [0, 0, 0, 1, 1, 1, 1, 1, 1, 2, 2, 2, 1, 1, 1, 1, 1]

theorem sample_released :
    ∃ started, sampleCalls 1 = .backtest "s" sampleRequest ∧
      (commits (sampleBacktest.trace.past 1)).head? = some started ∧
      sampleBacktest.hasReturned 1 = true ∧
      (sampleBacktest.trace.Released "s" started ↔
        ¬ sampleBacktest.trace.OvertakenTwice "s" 1) := by
  have hsome : (commits (sampleBacktest.trace.past 1)).head?.isSome = true := by decide +kernel
  have hreturned : sampleBacktest.hasReturned 1 = true := by decide +kernel
  obtain ⟨started, hstarted⟩ := Option.isSome_iff_exists.mp hsome
  exact ⟨started, rfl, hstarted, hreturned,
    (released_iff_not_overtakenTwice rfl hstarted hreturned).1⟩

/--
Two edits leave a strategy without a verdict. The backtest has stored its start and has returned,
the strategy is still being tested, and no verdict was ever stored.
-/
theorem sample_stranded :
    let w := sample [0, 0, 0, 1, 1, 1, 1, 1, 1, 2, 2, 2, 1, 1, 1, 3, 3, 3, 1]
    w.hasReturned 1 = true ∧
    (commits (w.trace.past 1)).map Strategy.status = [.backtesting] ∧
    (w.store.find? "s").map Strategy.status = some .backtesting ∧
    (w.trace.history "s").map Strategy.status =
      [.draft, .backtesting, .backtesting, .backtesting] := by
  decide +kernel

end World
end StrategyDesk
