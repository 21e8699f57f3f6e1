import StrategyDesk.Proofs.Live.Accounting
import StrategyDesk.Proofs.Service.Judgement
import StrategyDesk.Proofs.Strategy.Admission

/-!
This module contains a tick beside the services. A tick looks the active strategies up once and works
on what it has found, while the services go on to change what is stored. Signals are given for
strategies that were active when they were looked up, and this may have changed since.
-/

namespace StrategyDesk

theorem World.find?_of_mem {calls : Nat → Call} (moves : List Move) {s : Strategy}
    (h : s ∈ (run calls moves).store.strategies) :
    (run calls moves).store.find? s.id = some s := by
  revert s
  refine run_induction (P := fun w => ∀ {s : Strategy}, s ∈ w.store.strategies →
    w.store.find? s.id = some s) ?_ ?_ moves
  . intro s hs
    cases hs
  . intro moves m r next ih _ s hs
    rcases (run calls moves).turn_cases m r next with
      ⟨saved, version, _, hsave, _⟩ | ⟨hstore, _⟩
    . obtain ⟨_, _, hlater⟩ := Store.save_eq_ok.mp hsave
      rw [hlater] at hs ⊢
      rcases List.mem_cons.mp hs with rfl | hs
      . exact Store.find?_put_self _ _
      . obtain ⟨hmem, hne⟩ := List.mem_filter.mp hs
        rw [Store.find?_put_of_ne (Ne.symm (by simpa using hne))]
        exact ih hmem
    . rw [hstore] at hs ⊢
      exact ih hs

theorem World.nodup_ids (calls : Nat → Call) (moves : List Move) :
    ((run calls moves).store.strategies.map Strategy.id).Nodup := by
  refine run_induction (P := fun w => (w.store.strategies.map Strategy.id).Nodup) .nil ?_ moves
  intro moves m r next ih _
  rcases (run calls moves).turn_cases m r next with
    ⟨saved, version, _, hsave, _⟩ | ⟨hstore, _⟩
  . obtain ⟨_, _, hlater⟩ := Store.save_eq_ok.mp hsave
    rw [hlater]
    refine List.nodup_cons.mpr ⟨?_, ih.sublist (List.filter_sublist.map _)⟩
    intro hmem
    obtain ⟨t, ht, hid⟩ := List.mem_map.mp hmem
    exact absurd hid (by simpa using (List.mem_filter.mp ht).2)
  . rw [hstore]
    exact ih

theorem World.validate_of_mem {calls : Nat → Call} {moves : List Move} {s : Strategy}
    (h : s ∈ (run calls moves).store.strategies) : s.config.validate = .ok () := by
  have hlast := (find?_run moves s.id).symm.trans (find?_of_mem moves h)
  exact (lineage_run moves s.id).validate_config (List.mem_of_getLast? hlast)

namespace Live

def Pair.key (p : Pair) : String × String :=
  (p.strategy.id, p.symbol)

theorem Pair.nodup_ofStrategies {ss : List Strategy} (hids : (ss.map Strategy.id).Nodup)
    (hsymbols : ∀ s ∈ ss, s.config.symbols.Nodup) :
    ((Pair.ofStrategies ss).map Pair.key).Nodup := by
  induction ss with
  | nil => exact .nil
  | cons s ss ih =>
    rw [List.map_cons, List.nodup_cons] at hids
    rw [List.forall_mem_cons] at hsymbols
    have hcons : Pair.ofStrategies (s :: ss) =
        s.config.symbols.map (fun symbol => ⟨s, symbol⟩) ++ Pair.ofStrategies ss :=
      List.flatMap_cons
    rw [hcons, List.map_append, List.map_map]
    refine List.Nodup.append ?_ (ih hids.2 hsymbols.2) ?_
    . exact hsymbols.1.map fun _ _ heq => congrArg Prod.snd heq
    . -- the pairs of the others have other ids
      intro key hkey hother
      obtain ⟨symbol, _, rfl⟩ := List.mem_map.mp hkey
      obtain ⟨pair, hpair, heq⟩ := List.mem_map.mp hother
      obtain ⟨t, ht, hmem⟩ := List.mem_flatMap.mp hpair
      obtain ⟨_, _, rfl⟩ := List.mem_map.mp hmem
      have hid : t.id = s.id := congrArg Prod.fst heq
      exact hids.1 (hid ▸ List.mem_map_of_mem ht)

inductive Occurrence where
  | turn (t : Turn)
  | lookUp (found : List Strategy)
  | deed (d : Deed)

namespace Occurrence

def turn? : Occurrence → Option Turn
  | .turn t => some t
  | _ => none

def deed? : Occurrence → Option Deed
  | .deed d => some d
  | _ => none

end Occurrence

/-- The services at work on a store, and a tick beside them once it has begun. -/
structure Desk where
  world : World
  tick : Option Tick
  log : List Occurrence

def turnsOf (log : List Occurrence) : Trace :=
  log.filterMap Occurrence.turn?

def deedsOf (log : List Occurrence) : List Deed :=
  log.filterMap Occurrence.deed?

namespace Desk

inductive Move where
  | client (m : StrategyDesk.Move)
  | lookUp
  | pair (m : Tick.Move)

def start (calls : Nat → Call) : Desk where
  world := .start calls
  tick := none
  log := []

def floor (d : Desk) (tick : Tick) : Floor where
  store := d.world.store
  tick
  deeds := deedsOf d.log

def step (settings : LiveSettings) (now : Instant) (d : Desk) : Move → Desk
  | .client m =>
    let world := d.world.step m
    { d with world, log := d.log ++ (world.trace.drop d.world.trace.length).map .turn }
  | .lookUp =>
    match d.tick with
    | some _ => d
    | none =>
      let found := d.world.store.withStatus .active
      { d with
        tick := (Tick.start? settings now (Pair.ofStrategies found)).toOption
        log := d.log ++ [.lookUp found] }
  | .pair m =>
    match d.tick with
    | none => d
    | some tick =>
      let f := (d.floor tick).step m
      { world := { d.world with store := f.store }
        tick := some f.tick
        log := d.log ++ (f.deeds.drop (deedsOf d.log).length).map .deed }

def run (calls : Nat → Call) (settings : LiveSettings) (now : Instant) (moves : List Move) : Desk :=
  moves.foldl (step settings now) (start calls)

variable {calls : Nat → Call} {settings : LiveSettings} {now : Instant} {d : Desk}

@[simp]
theorem turnsOf_append (log later : List Occurrence) :
    turnsOf (log ++ later) = turnsOf log ++ turnsOf later :=
  List.filterMap_append

@[simp]
theorem deedsOf_append (log later : List Occurrence) :
    deedsOf (log ++ later) = deedsOf log ++ deedsOf later :=
  List.filterMap_append

theorem turnsOf_map_turn (trace : Trace) : turnsOf (trace.map .turn) = trace := by
  unfold turnsOf
  rw [List.filterMap_map]
  exact List.filterMap_some

theorem deedsOf_map_turn (trace : Trace) : deedsOf (trace.map .turn) = [] := by
  unfold deedsOf
  rw [List.filterMap_map]
  exact List.filterMap_eq_nil_iff.mpr fun _ _ => rfl

theorem turnsOf_map_deed (deeds : List Deed) : turnsOf (deeds.map .deed) = [] := by
  unfold turnsOf
  rw [List.filterMap_map]
  exact List.filterMap_eq_nil_iff.mpr fun _ _ => rfl

theorem deedsOf_map_deed (deeds : List Deed) : deedsOf (deeds.map .deed) = deeds := by
  unfold deedsOf
  rw [List.filterMap_map]
  exact List.filterMap_some

structure Known (trace : Trace) (found : List Strategy) : Prop where
  stored : ∀ s ∈ found, s.status = .active ∧ (trace.history s.id).getLast? = some s
  distinct : ((Pair.ofStrategies found).map Pair.key).Nodup

structure Began (settings : LiveSettings) (now : Instant) (d : Desk) (tick : Tick)
    (earlier : List Occurrence) (found : List Strategy) : Prop where
  isPrefix : earlier ++ [.lookUp found] <+: d.log
  deeds_eq : deedsOf earlier = []
  known : Known (turnsOf earlier) found
  overPairs : (d.floor tick).Over settings now (Pair.ofStrategies found)
  stand : (d.floor tick).Stand False

structure Kept (calls : Nat → Call) (settings : LiveSettings) (now : Instant) (d : Desk) : Prop where
  world : ∃ moves, d.world = World.run calls moves
  turns_eq : turnsOf d.log = d.world.trace
  deeds_eq : d.tick = none → deedsOf d.log = []
  began : ∀ tick, d.tick = some tick → ∃ earlier found, Began settings now d tick earlier found

theorem kept_start : Kept calls settings now (start calls) where
  world := ⟨[], rfl⟩
  turns_eq := rfl
  deeds_eq _ := rfl
  began := nofun

theorem Began.of_deeds_eq {later : Desk} {tick : Tick} {earlier : List Occurrence}
    {found : List Strategy} (h : Began settings now d tick earlier found)
    (hlog : d.log <+: later.log) (hdeeds : deedsOf later.log = deedsOf d.log) :
    Began settings now later tick earlier found := by
  have hfloor : later.floor tick = { d.floor tick with store := later.world.store } := by
    unfold floor
    rw [hdeeds]
  refine ⟨h.isPrefix.trans hlog, h.deeds_eq, h.known, ?_, ?_⟩
  . rw [hfloor]
    exact ⟨h.overPairs.settings_eq, h.overPairs.now_eq, h.overPairs.pairs_eq, h.overPairs.place_lt⟩
  . rw [hfloor]
    exact h.stand

theorem trace_step (w : World) (m : StrategyDesk.Move) : w.trace <+: (w.step m).trace := by
  unfold World.step
  split
  . exact List.prefix_append _ _
  . exact List.prefix_refl _

theorem Kept.client (h : Kept calls settings now d) (m : StrategyDesk.Move) :
    Kept calls settings now (d.step settings now (.client m)) := by
  obtain ⟨moves, hmoves⟩ := h.world
  have hdeeds : deedsOf (d.step settings now (.client m)).log = deedsOf d.log := by
    unfold step
    rw [deedsOf_append, deedsOf_map_turn, List.append_nil]
  refine ⟨⟨moves ++ [m], ?_⟩, ?_, ?_, ?_⟩
  . rw [World.run_concat, ← hmoves]
    rfl
  . unfold step
    rw [turnsOf_append, turnsOf_map_turn, h.turns_eq]
    obtain ⟨rest, hrest⟩ := trace_step d.world m
    rw [← hrest, List.drop_left]
  . intro htick
    rw [hdeeds]
    exact h.deeds_eq htick
  . intro tick htick
    obtain ⟨earlier, found, hbegan⟩ := h.began tick htick
    exact ⟨earlier, found, hbegan.of_deeds_eq (List.prefix_append _ _) hdeeds⟩

theorem Kept.known (h : Kept calls settings now d) :
    Known (turnsOf d.log) (d.world.store.withStatus .active) := by
  obtain ⟨moves, hmoves⟩ := h.world
  have hactive : ∀ s ∈ d.world.store.withStatus .active,
      s ∈ (World.run calls moves).store.strategies ∧ s.status = .active := by
    intro s hs
    obtain ⟨hmem, hstatus⟩ := List.mem_filter.mp ((List.mergeSort_perm _ _).mem_iff.mp hs)
    exact ⟨hmoves ▸ hmem, by simpa using hstatus⟩
  constructor
  . intro s hs
    obtain ⟨hmem, hstatus⟩ := hactive s hs
    refine ⟨hstatus, ?_⟩
    rw [h.turns_eq, hmoves, ← World.find?_run]
    exact World.find?_of_mem moves hmem
  . apply Pair.nodup_ofStrategies
    . refine ((List.mergeSort_perm _ _).map Strategy.id).nodup_iff.mpr ?_
      rw [hmoves]
      exact (World.nodup_ids calls moves).sublist (List.filter_sublist.map _)
    . intro s hs
      exact Config.nodup_symbols (World.validate_of_mem (hactive s hs).1)

theorem Kept.lookUp (h : Kept calls settings now d) :
    Kept calls settings now (d.step settings now .lookUp) := by
  unfold step
  dsimp only
  split
  . exact h
  . next hnone =>
    have hdeeds : deedsOf (d.log ++ [.lookUp (d.world.store.withStatus .active)]) = [] := by
      rw [deedsOf_append, h.deeds_eq hnone]
      rfl
    refine ⟨h.world, ?_, fun _ => hdeeds, ?_⟩
    . rw [turnsOf_append, h.turns_eq]
      exact List.append_nil _
    . intro tick htick
      obtain rfl := Tick.eq_start_of_start? htick
      refine ⟨d.log, _, List.prefix_refl _, h.deeds_eq hnone, h.known, ?_, ?_⟩
      . unfold floor
        rw [hdeeds]
        exact Floor.over_start
      . unfold floor
        rw [hdeeds]
        exact Floor.stand_start False

theorem deeds_step (f : Floor) (m : Tick.Move) : f.deeds <+: (f.step m).deeds := by
  unfold Floor.step
  split
  . exact List.prefix_refl _
  . exact List.prefix_append _ _

theorem Kept.pair (h : Kept calls settings now d) (m : Tick.Move) :
    Kept calls settings now (d.step settings now (.pair m)) := by
  unfold step
  dsimp only
  split
  . exact h
  . next tick htick =>
    obtain ⟨earlier, found, hbegan⟩ := h.began tick htick
    let f := (d.floor tick).step m
    have hstore : f.store = d.world.store := Floor.store_run hbegan.stand [m]
    have hdeeds : deedsOf (d.log ++ (f.deeds.drop (deedsOf d.log).length).map .deed) = f.deeds := by
      obtain ⟨rest, hrest⟩ := deeds_step (d.floor tick) m
      rw [deedsOf_append, deedsOf_map_deed, ← hrest]
      exact congrArg _ List.drop_left
    refine ⟨?_, ?_, nofun, ?_⟩
    -- the tick leaves the store alone, so that the clients do not notice it
    . rw [hstore]
      exact h.world
    . rw [turnsOf_append, turnsOf_map_deed, List.append_nil]
      exact h.turns_eq
    . rintro tick ⟨⟩
      refine ⟨earlier, found, hbegan.isPrefix.trans (List.prefix_append _ _), hbegan.deeds_eq,
        hbegan.known, ?_, ?_⟩
      . show Floor.Over settings now _ ⟨f.store, f.tick, deedsOf (d.log ++ _)⟩
        rw [hdeeds]
        exact hbegan.overPairs.run [m]
      . show Floor.Stand False ⟨f.store, f.tick, deedsOf (d.log ++ _)⟩
        rw [hdeeds]
        exact hbegan.stand.step False.elim

theorem kept_run (calls : Nat → Call) (settings : LiveSettings) (now : Instant)
    (moves : List Move) : Kept calls settings now (run calls settings now moves) := by
  unfold run
  induction moves using List.reverseRecOn with
  | nil => exact kept_start
  | append_singleton moves m ih =>
    rw [List.foldl_append]
    cases m with
    | client m => exact ih.client m
    | lookUp => exact ih.lookUp
    | pair m => exact ih.pair m

theorem Began.exists_offers {tick : Tick} {earlier : List Occurrence} {found : List Strategy} {i : Nat}
    {signal : Signal Float} (h : Began settings now d tick earlier found)
    (hdeed : .asked i (.submit signal) ∈ deedsOf d.log) :
    ∃ pair, (Pair.ofStrategies found)[i]? = some pair ∧ pair.Offers now signal := by
  obtain ⟨task, htask⟩ := h.overPairs.exists_task (h.overPairs.place_lt _ hdeed)
  refine ⟨task.pair, ?_, ?_⟩
  . rw [← h.overPairs.pairs_eq, List.getElem?_map]
    exact congrArg _ htask
  . have hsignal : signal ∈ (d.floor tick).signalsOf i :=
      List.mem_filterMap.mpr ⟨_, List.mem_filter.mpr ⟨hdeed, beq_self_eq_true i⟩, rfl⟩
    obtain ⟨_, hended⟩ := (h.stand i task htask).ended
    exact h.overPairs.now_eq ▸ hended.offered signal hsignal

theorem Began.of_signal {tick : Tick} {earlier : List Occurrence} {found : List Strategy} {i : Nat}
    {signal : Signal Float} (h : Began settings now d tick earlier found)
    (hdeed : .asked i (.submit signal) ∈ deedsOf d.log) :
    ∃ s ∈ found, s.status = .active ∧ signal.strategyId = s.id ∧
      signal.symbol ∈ s.config.symbols ∧
      (Pair.ofStrategies found)[i]? = some { strategy := s, symbol := signal.symbol } ∧
      ((turnsOf earlier).history s.id).getLast? = some s := by
  obtain ⟨pair, hpair, hoffers⟩ := h.exists_offers hdeed
  obtain ⟨hid, hsymbol⟩ := Pair.strategyId_of_offers hoffers
  obtain ⟨s, hs, hmem⟩ := List.mem_flatMap.mp (List.mem_of_getElem? hpair)
  obtain ⟨symbol, hsymbols, rfl⟩ := List.mem_map.mp hmem
  obtain ⟨hstatus, hlast⟩ := h.known.stored s hs
  rw [hsymbol]
  exact ⟨s, hs, hstatus, hid, hsymbols, hpair, hlast⟩

theorem Began.place_eq {tick : Tick} {earlier : List Occurrence} {found : List Strategy} {i j : Nat}
    {signal signal' : Signal Float} (h : Began settings now d tick earlier found)
    (hi : .asked i (.submit signal) ∈ deedsOf d.log)
    (hj : .asked j (.submit signal') ∈ deedsOf d.log)
    (hid : signal.strategyId = signal'.strategyId) (hsymbol : signal.symbol = signal'.symbol) :
    i = j := by
  have key_at {k : Nat} {signal : Signal Float}
      (hk : .asked k (.submit signal) ∈ deedsOf d.log) :
      ((Pair.ofStrategies found).map Pair.key)[k]? = some (signal.strategyId, signal.symbol) := by
    obtain ⟨pair, hpair, hoffers⟩ := h.exists_offers hk
    obtain ⟨hid, hsymbol⟩ := Pair.strategyId_of_offers hoffers
    rw [List.getElem?_map, hpair, hid, hsymbol]
    rfl
  have hkey := key_at hi
  rw [hid, hsymbol, ← key_at hj] at hkey
  exact (List.getElem?_inj (List.getElem?_eq_some_iff.mp (key_at hi)).1 h.known.distinct).mp hkey

theorem eq_asked_of_signal? {deed : Deed} {signal : Signal Float} (h : deed.signal? = some signal) :
    deed = .asked deed.place (.submit signal) := by
  cases deed with
  | asked i r =>
    cases r with
    | submit signal' =>
      cases h
      rfl
    | _ => cases h
  | counted i outcome => cases h

def signalsFor (log : List Occurrence) (id symbol : String) : List (Signal Float) :=
  ((deedsOf log).filterMap Deed.signal?).filter fun signal =>
    signal.strategyId == id && signal.symbol == symbol

theorem Began.length_signalsFor {tick : Tick} {earlier : List Occurrence} {found : List Strategy}
    (h : Began settings now d tick earlier found) (id symbol : String) :
    (signalsFor d.log id symbol).length ≤ 1 := by
  rcases List.eq_nil_or_concat (signalsFor d.log id symbol) with hnil | ⟨_, signal, hsome⟩
  . rw [hnil]
    exact Nat.zero_le 1
  . have hmem : signal ∈ signalsFor d.log id symbol := by
      rw [hsome]
      simp
    obtain ⟨hmem, hkey⟩ := List.mem_filter.mp hmem
    obtain ⟨deed, hdeed, hsignal⟩ := List.mem_filterMap.mp hmem
    rw [eq_asked_of_signal? hsignal] at hdeed
    -- whatever belongs to the strategy and the symbol was done at the place of `deed`
    have hplace : signalsFor d.log id symbol =
        ((d.floor tick).signalsOf deed.place).filter fun signal =>
          signal.strategyId == id && signal.symbol == symbol := by
      unfold signalsFor Floor.signalsOf Floor.deedsOf
      rw [List.filter_filterMap, List.filter_filterMap, List.filterMap_filter]
      apply List.filterMap_congr
      intro other hother
      split
      . rfl
      . next hne =>
        rw [Option.filter_eq_none_iff]
        intro signal' hsignal' hkey'
        rw [eq_asked_of_signal? hsignal'] at hother
        simp only [Bool.and_eq_true, beq_iff_eq] at hkey hkey'
        have hsame := h.place_eq hother hdeed (hkey'.1.trans hkey.1.symm)
          (hkey'.2.trans hkey.2.symm)
        exact hne (beq_iff_eq.mpr hsame)
    rw [hplace]
    exact (List.length_filter_le _ _).trans (h.overPairs.length_le_one h.stand deed.place).1

theorem prefix_of_not_mem {β : Type} {l before after : List β} {b : β}
    (h : l <+: before ++ b :: after) (hb : b ∉ l) : l <+: before := by
  have hupto : before ++ [b] <+: before ++ b :: after :=
    (List.prefix_append_right_inj before).mpr ⟨after, rfl⟩
  rcases List.prefix_or_prefix_of_prefix h hupto with h | h
  . rcases List.prefix_concat_iff.mp h with rfl | h
    . exact absurd (List.mem_append_right _ List.mem_cons_self) hb
    . exact h
  . exact absurd (h.mem (List.mem_append_right _ List.mem_cons_self)) hb

/--
Signals are given for what was active when the tick looked strategies up. Before each signal there is
that moment, and the last state in which its strategy had been stored by then was active and had the
symbol; so there is no signal for a strategy that had left this status before, unless it was activated
again. What is stored later does not count for this tick any more, but there is no more than one
signal for each strategy and symbol.
-/
theorem signals_of_active (calls : Nat → Call) (settings : LiveSettings) (now : Instant)
    (moves : List Move) :
    let log := (run calls settings now moves).log
    (∀ before after i signal, log = before ++ .deed (.asked i (.submit signal)) :: after →
      ∃ earlier found later s, before = earlier ++ .lookUp found :: later ∧ s ∈ found ∧
        s.status = .active ∧ signal.strategyId = s.id ∧ signal.symbol ∈ s.config.symbols ∧
        (Pair.ofStrategies found)[i]? = some { strategy := s, symbol := signal.symbol } ∧
        ((turnsOf earlier).history s.id).getLast? = some s) ∧
    ∀ id symbol, (signalsFor log id symbol).length ≤ 1 := by
  intro log
  have hkept := kept_run calls settings now moves
  constructor
  . intro before after i signal hlog
    have hmem : .deed (.asked i (.submit signal)) ∈ log := by
      rw [hlog]
      exact List.mem_append_right _ List.mem_cons_self
    have hdeed : .asked i (.submit signal) ∈ deedsOf log := List.mem_filterMap.mpr ⟨_, hmem, rfl⟩
    cases htick : (run calls settings now moves).tick with
    | none => exact absurd hdeed (hkept.deeds_eq htick ▸ List.not_mem_nil)
    | some tick =>
      obtain ⟨earlier, found, hbegan⟩ := hkept.began tick htick
      obtain ⟨s, hs, hstatus, hfound⟩ := hbegan.of_signal hdeed
      have hnot : .deed (.asked i (.submit signal)) ∉ earlier ++ [.lookUp found] := by
        intro hearlier
        rcases List.mem_append.mp hearlier with hearlier | hlookUp
        . have : .asked i (.submit signal) ∈ deedsOf earlier :=
            List.mem_filterMap.mpr ⟨_, hearlier, rfl⟩
          rw [hbegan.deeds_eq] at this
          cases this
        . cases List.mem_singleton.mp hlookUp
      have hprefix := hbegan.isPrefix
      rw [show (run calls settings now moves).log = _ from hlog] at hprefix
      obtain ⟨later, hlater⟩ := prefix_of_not_mem hprefix hnot
      refine ⟨earlier, found, later, s, ?_, hs, hstatus, hfound⟩
      rw [← hlater, List.append_assoc]
      rfl
  . intro id symbol
    cases htick : (run calls settings now moves).tick with
    | none =>
      show (((deedsOf (run calls settings now moves).log).filterMap Deed.signal?).filter _).length ≤ 1
      rw [hkept.deeds_eq htick]
      exact Nat.zero_le 1
    | some tick =>
      obtain ⟨earlier, found, hbegan⟩ := hkept.began tick htick
      exact hbegan.length_signalsFor id symbol

theorem exists_of_mem_signals {log : List Occurrence} {signal : Signal Float}
    (h : signal ∈ (deedsOf log).filterMap Deed.signal?) :
    ∃ i, .deed (.asked i (.submit signal)) ∈ log := by
  obtain ⟨d, hd, hsignal⟩ := List.mem_filterMap.mp h
  obtain ⟨o, ho, hdeed⟩ := List.mem_filterMap.mp hd
  rw [eq_asked_of_signal? hsignal] at hdeed
  cases o with
  | deed d' =>
    cases hdeed
    exact ⟨d.place, ho⟩
  | turn t => cases hdeed
  | lookUp found => cases hdeed

def careerCalls : Nat → Call
  | 0 => .create "s" "owner" (crossingConfig ["BTC"])
  | 1 => .backtest "s" World.sampleRequest
  | 2 => .activate "s"
  | _ => .pause "s"

def turnsOfClients (clients : List Nat) : List Move :=
  clients.map fun client => .client { client, outside := World.withCandles }

def pausedInTick : Desk :=
  run careerCalls {} { seconds := 172800 }
    (turnsOfClients [0, 0, 0, 1, 1, 1, 1, 1, 1, 1, 1, 1, 2, 2, 2, 2] ++
      [.lookUp, .pair (.enter 0)] ++ turnsOfClients [3, 3, 3, 3] ++
        [.pair (.proceed 0 World.withCandles)])

theorem exists_signal_pausedInTick : ∃ i signal,
    .deed (.asked i (.submit signal)) ∈ pausedInTick.log.drop 21 ∧ signal.strategyId = "s" := by
  have hsignals : ((deedsOf (pausedInTick.log.drop 21)).filterMap Deed.signal?).map
      Signal.strategyId = ["s"] := by
    decide +kernel
  obtain ⟨signal, hsignal, hid⟩ := List.mem_map.mp (hsignals ▸ List.mem_cons_self)
  obtain ⟨i, hdeed⟩ := exists_of_mem_signals hsignal
  exact ⟨i, signal, hdeed, hid⟩

theorem signal_of_pausedInTick :
    ∃ before i signal after earlier found later s,
      pausedInTick.log = before ++ .deed (.asked i (.submit signal)) :: after ∧
      before = earlier ++ .lookUp found :: later ∧ s ∈ found ∧ s.status = .active ∧
      (Pair.ofStrategies found)[i]? = some { strategy := s, symbol := signal.symbol } ∧
      ((turnsOf earlier).history s.id).getLast? = some s ∧
      (signalsFor pausedInTick.log signal.strategyId signal.symbol).length ≤ 1 := by
  obtain ⟨i, signal, hmem, _⟩ := exists_signal_pausedInTick
  obtain ⟨before, after, hlog⟩ := List.append_of_mem (List.mem_of_mem_drop hmem)
  obtain ⟨hactive, hone⟩ := signals_of_active careerCalls {} { seconds := 172800 }
    (turnsOfClients [0, 0, 0, 1, 1, 1, 1, 1, 1, 1, 1, 1, 2, 2, 2, 2] ++
      [.lookUp, .pair (.enter 0)] ++ turnsOfClients [3, 3, 3, 3] ++
        [.pair (.proceed 0 World.withCandles)])
  obtain ⟨earlier, found, later, s, hbefore, hs, hstatus, _, _, hpair, hlast⟩ :=
    hactive before after i signal hlog
  exact ⟨before, i, signal, after, earlier, found, later, s, hlog, hbefore, hs, hstatus, hpair,
    hlast, hone _ _⟩

/-- Whether no signals are given for a strategy any more once it was stored as no longer active. -/
def SilentOnceLeft (log : List Occurrence) : Prop :=
  ∀ before t after s, log = before ++ .turn t :: after → t.committed? = some s →
    ((turnsOf before).history s.id).getLast?.map Strategy.status = some .active →
      s.status ≠ .active →
        ∀ i signal, .deed (.asked i (.submit signal)) ∈ after → signal.strategyId ≠ s.id

theorem not_silentOnceLeft : ¬ SilentOnceLeft pausedInTick.log := by
  intro hsilent
  have hpaused : ((pausedInTick.log[20]?.bind Occurrence.turn?).bind fun t => t.committed?).map
      (fun s => (s.id, s.status)) = some ("s", .paused) := by
    decide +kernel
  have hactive : ((turnsOf (pausedInTick.log.take 20)).history "s").getLast?.map Strategy.status =
      some .active := by
    decide +kernel
  obtain ⟨s, hs, hpaused⟩ := Option.map_eq_some_iff.mp hpaused
  obtain ⟨t, ht, hs⟩ := Option.bind_eq_some_iff.mp hs
  obtain ⟨o, ho, ht⟩ := Option.bind_eq_some_iff.mp ht
  injection hpaused with hid hstatus
  cases o with
  | turn t' =>
    cases ht
    obtain ⟨hlt, ho⟩ := List.getElem?_eq_some_iff.mp ho
    have hlog : pausedInTick.log =
        pausedInTick.log.take 20 ++ .turn t :: pausedInTick.log.drop 21 := by
      rw [← ho, ← List.drop_eq_getElem_cons hlt, List.take_append_drop]
    obtain ⟨i, signal, hdeed, hsid⟩ := exists_signal_pausedInTick
    rw [← hid] at hactive
    apply hsilent _ t _ s hlog hs hactive _ i signal hdeed
    . rw [hsid, hid]
    . rw [hstatus]
      decide
  | lookUp found => cases ht
  | deed d => cases ht

end Desk
end Live
end StrategyDesk
