import StrategyDesk.Backtest.Simulation
import StrategyDesk.Proofs.Outcome
import Mathlib.Order.Bounds.Basic
import Mathlib.Order.Nat

/-!
This module contains what the replay of a strategy amounts to: a greedy scan of the candles of each
symbol. It opens a position as early as possible, closes it as early as possible and goes on behind
that, so the trades of a symbol follow one another.
-/

namespace StrategyDesk

variable {α : Type} [Arithmetic α]

namespace Simulation

structure Round (α : Type) where
  opened : Nat
  closed : Nat
  trade : Trade α

def stakeOf (risk : Risk α) (capital : α) : α :=
  capital * risk.positionSize / 100

def Enters (cfg : Config α) (set : SeriesSet α) (capital : α) (i : Nat) : Prop :=
  cfg.rules.entersAt set i = true ∧ ¬ stakeOf cfg.risk capital ≤ 0

def AtStopLoss (risk : Risk α) (entry price : α) : Prop :=
  ∃ percent, risk.stopLoss = some percent ∧ price ≤ stopLossPrice entry percent

def AtTakeProfit (risk : Risk α) (entry price : α) : Prop :=
  ∃ percent, risk.takeProfit = some percent ∧ takeProfitPrice entry percent ≤ price

def Exits (cfg : Config α) (set : SeriesSet α) (entry : α) (j : Nat) (price : α) : Prop :=
  AtStopLoss cfg.risk entry price ∨ AtTakeProfit cfg.risk entry price ∨
    cfg.rules.exitsAt set j = true

inductive ExitsFor (cfg : Config α) (set : SeriesSet α) (entry : α) (j : Nat) (price : α) :
    ExitReason → Prop
  | stopLoss : AtStopLoss cfg.risk entry price → ExitsFor cfg set entry j price .stopLoss
  | takeProfit : ¬ AtStopLoss cfg.risk entry price → AtTakeProfit cfg.risk entry price →
    ExitsFor cfg set entry j price .takeProfit
  | exitSignal : ¬ AtStopLoss cfg.risk entry price → ¬ AtTakeProfit cfg.risk entry price →
    cfg.rules.exitsAt set j = true → ExitsFor cfg set entry j price .exitSignal

inductive Closes (cfg : Config α) (cs : List (Candle α)) (i : Nat) (entry : α) :
    Nat → ExitReason → Prop
  | inside {j d reason} :
    IsLeast { k | i < k ∧ ∃ d, cs[k]? = some d ∧
      Exits cfg (.compute cfg.indicators cs) entry k d.close } j →
    cs[j]? = some d → ExitsFor cfg (.compute cfg.indicators cs) entry j d.close reason →
      Closes cfg cs i entry j reason
  | atEnd :
    (∀ k d, i < k → cs[k]? = some d →
      ¬ Exits cfg (.compute cfg.indicators cs) entry k d.close) →
      Closes cfg cs i entry (cs.length - 1) .endOfWindow

def tradeOf (symbol : String) (stake : α) (c d : Candle α) (reason : ExitReason) : Trade α where
  symbol
  entryPrice := c.close
  exitPrice := d.close
  quantity := stake / c.close
  profit := stake / c.close * (d.close - c.close)
  profitPercent := (d.close - c.close) / c.close * 100
  entryTime := c.time
  exitTime := d.time
  exitReason := reason

/-- The rounds of a greedy scan from a candle on, and the capital before and after them. -/
inductive Greedy (cfg : Config α) (symbol : String) (cs : List (Candle α)) :
    Nat → α → List (Round α) → α → Prop
  | stop {s capital} :
    (∀ i, s ≤ i → i < cs.length → ¬ Enters cfg (.compute cfg.indicators cs) capital i) →
      Greedy cfg symbol cs s capital [] capital
  | round {s capital i j c d reason rounds final} :
    IsLeast { i | s ≤ i ∧ i < cs.length ∧ Enters cfg (.compute cfg.indicators cs) capital i } i →
    cs[i]? = some c → Closes cfg cs i c.close j reason → cs[j]? = some d →
    Greedy cfg symbol cs (j + 1)
      (capital - stakeOf cfg.risk capital + (stakeOf cfg.risk capital +
        (tradeOf symbol (stakeOf cfg.risk capital) c d reason).profit)) rounds final →
      Greedy cfg symbol cs s capital
        (⟨i, j, tradeOf symbol (stakeOf cfg.risk capital) c d reason⟩ :: rounds) final

inductive GreedyAll (cfg : Config α) (candlesOf : String → List (Candle α)) :
    List String → α → List (List (Round α)) → α → Prop
  | nil {capital} : GreedyAll cfg candlesOf [] capital [] capital
  | cons {symbol symbols capital rounds middle rest final} :
    Greedy cfg symbol (candlesOf symbol) 0 capital rounds middle →
    GreedyAll cfg candlesOf symbols middle rest final →
      GreedyAll cfg candlesOf (symbol :: symbols) capital (rounds :: rest) final

/-! ## The scan is determined -/

section Determined

variable {cfg : Config α} {set : SeriesSet α} {symbol : String} {cs : List (Candle α)}
  {entry price capital final final' : α} {i j j' s : Nat} {reason reason' : ExitReason}
  {rounds rounds' : List (Round α)}

theorem ExitsFor.exits (h : ExitsFor cfg set entry j price reason) :
    Exits cfg set entry j price := by
  cases h with
  | stopLoss h => exact .inl h
  | takeProfit _ h => exact .inr (.inl h)
  | exitSignal _ _ h => exact .inr (.inr h)

theorem ExitsFor.eq (h : ExitsFor cfg set entry j price reason)
    (h' : ExitsFor cfg set entry j price reason') : reason = reason' := by
  cases h <;> cases h' <;> first | rfl | contradiction

theorem ExitsFor.ne_endOfWindow (h : ExitsFor cfg set entry j price reason) :
    reason ≠ .endOfWindow := by
  cases h <;> exact ExitReason.noConfusion

theorem Closes.eq (h : Closes cfg cs i entry j reason) (h' : Closes cfg cs i entry j' reason') :
    j = j' ∧ reason = reason' := by
  cases h with
  | inside hleast hd hreason =>
    cases h' with
    | inside hleast' hd' hreason' =>
      obtain rfl := hleast.unique hleast'
      rw [hd] at hd'
      injection hd' with hd'
      subst hd'
      exact ⟨rfl, hreason.eq hreason'⟩
    | atEnd hnone => exact absurd hreason.exits (hnone _ _ hleast.1.1 hd)
  | atEnd hnone =>
    cases h' with
    | inside hleast' hd' hreason' => exact absurd hreason'.exits (hnone _ _ hleast'.1.1 hd')
    | atEnd _ => exact ⟨rfl, rfl⟩

theorem Greedy.eq (h : Greedy cfg symbol cs s capital rounds final)
    (h' : Greedy cfg symbol cs s capital rounds' final') : rounds = rounds' ∧ final = final' := by
  induction h generalizing rounds' final' with
  | stop hnone =>
    cases h' with
    | stop _ => exact ⟨rfl, rfl⟩
    | round hleast _ _ _ _ => exact absurd hleast.1.2.2 (hnone _ hleast.1.1 hleast.1.2.1)
  | round hleast hc hcloses hd _ ih =>
    cases h' with
    | stop hnone => exact absurd hleast.1.2.2 (hnone _ hleast.1.1 hleast.1.2.1)
    | round hleast' hc' hcloses' hd' hrest' =>
      obtain rfl := hleast.unique hleast'
      rw [hc] at hc'
      injection hc' with hc'
      subst hc'
      obtain ⟨rfl, rfl⟩ := hcloses.eq hcloses'
      rw [hd] at hd'
      injection hd' with hd'
      subst hd'
      obtain ⟨rfl, rfl⟩ := ih hrest'
      exact ⟨rfl, rfl⟩

theorem GreedyAll.eq {candlesOf : String → List (Candle α)} {symbols : List String}
    {all all' : List (List (Round α))} (h : GreedyAll cfg candlesOf symbols capital all final)
    (h' : GreedyAll cfg candlesOf symbols capital all' final') : all = all' ∧ final = final' := by
  induction h generalizing all' final' with
  | nil =>
    cases h'
    exact ⟨rfl, rfl⟩
  | cons hfirst _ ih =>
    cases h' with
    | cons hfirst' hrest' =>
      obtain ⟨rfl, rfl⟩ := hfirst.eq hfirst'
      obtain ⟨rfl, rfl⟩ := ih hrest'
      exact ⟨rfl, rfl⟩

end Determined

/-! ## The rounds of a scan are in order -/

/--
What holds of the rounds in `n` candles. They lie apart, so no candle closes one and opens another.
Only a position that is opened at the last candle is closed at the same one, because the window
ends, and this ends no round but the last.
-/
structure Orderly (n : Nat) (rounds : List (Round α)) : Prop where
  within : ∀ a ∈ rounds, a.opened ≤ a.closed ∧ a.closed < n
  apart : rounds.Pairwise fun a b => a.closed < b.opened
  at_once : ∀ a ∈ rounds, a.opened = a.closed →
    a.closed + 1 = n ∧ a.trade.exitReason = .endOfWindow
  ended : ∀ k a, rounds[k]? = some a → a.trade.exitReason = .endOfWindow →
    k + 1 = rounds.length ∧ a.closed + 1 = n

section Order

variable {cfg : Config α} {symbol : String} {cs : List (Candle α)} {entry capital final : α}
  {i j s : Nat} {reason : ExitReason} {rounds : List (Round α)}

theorem Closes.bounds (h : Closes cfg cs i entry j reason) (hi : i < cs.length) :
    i ≤ j ∧ j < cs.length ∧ (i = j → j + 1 = cs.length ∧ reason = .endOfWindow) ∧
      (reason = .endOfWindow → j + 1 = cs.length) := by
  cases h with
  | inside hleast hd hreason =>
    have hij : i < j := hleast.1.1
    have hj := (List.getElem?_eq_some_iff.mp hd).1
    refine ⟨by omega, hj, ?_, ?_⟩
    . intro heq
      omega
    . intro heq
      exact absurd heq hreason.ne_endOfWindow
  | atEnd _ =>
    refine ⟨by omega, by omega, ?_, ?_⟩
    . intro _
      exact ⟨by omega, rfl⟩
    . intro _
      omega

theorem Greedy.le_opened (h : Greedy cfg symbol cs s capital rounds final) :
    ∀ a ∈ rounds, s ≤ a.opened ∧ a.opened < cs.length := by
  induction h with
  | stop _ => simp
  | round hleast _ hcloses _ _ ih =>
    intro a ha
    rcases List.mem_cons.mp ha with rfl | ha
    . exact ⟨hleast.1.1, hleast.1.2.1⟩
    . have hbounds := hcloses.bounds hleast.1.2.1
      have hle : _ ≤ _ := hleast.1.1
      have := ih a ha
      omega

theorem Greedy.orderly (h : Greedy cfg symbol cs s capital rounds final) :
    Orderly cs.length rounds := by
  induction h with
  | stop _ =>
    constructor
    . simp
    . exact .nil
    . simp
    . simp
  | @round _ _ i j c d reason rounds _ hleast _ hcloses _ hrest ih =>
    obtain ⟨hij, hj, honce, hend⟩ := hcloses.bounds hleast.1.2.1
    constructor
    . intro a ha
      rcases List.mem_cons.mp ha with rfl | ha
      . exact ⟨hij, hj⟩
      . exact ih.within a ha
    . apply List.Pairwise.cons
      . intro b hb
        exact (hrest.le_opened b hb).1
      . exact ih.apart
    . intro a ha
      rcases List.mem_cons.mp ha with rfl | ha
      . exact honce
      . exact ih.at_once a ha
    . intro k a ha hreason
      cases k with
      | zero =>
        injection ha with ha
        subst ha
        refine ⟨?_, hend hreason⟩
        -- behind the last candle there is no more to scan
        cases rounds with
        | nil => rfl
        | cons b rounds =>
          have hb := hrest.le_opened b List.mem_cons_self
          have := hend hreason
          omega
      | succ k =>
        have := ih.ended k a ha hreason
        exact ⟨congrArg Nat.succ this.1, this.2⟩

end Order

/-! ## The replay is a greedy scan -/

section Replay

variable {cfg : Config α} {symbol : String} {set : SeriesSet α} {cs : List (Candle α)}
  {acct : Account α} {stake price : α} {c d : Candle α} {i j s : Nat} {reason : ExitReason}

def positionAt (risk : Risk α) (symbol : String) (stake : α) (c : Candle α) : Position α :=
  .enter symbol c.close stake c.time risk.stopLoss risk.takeProfit

def holdingAt (risk : Risk α) (symbol : String) (stake : α) (c : Candle α) : Holding α where
  position := positionAt risk symbol stake c
  notional := stake

theorem hitsStopLoss_positionAt {risk : Risk α} :
    (positionAt risk symbol stake c).hitsStopLoss price = true ↔
      AtStopLoss risk c.close price := by
  unfold Position.hitsStopLoss positionAt Position.enter AtStopLoss
  cases risk.stopLoss with
  | none => simp
  | some percent => simp

theorem hitsTakeProfit_positionAt {risk : Risk α} :
    (positionAt risk symbol stake c).hitsTakeProfit price = true ↔
      AtTakeProfit risk c.close price := by
  unfold Position.hitsTakeProfit positionAt Position.enter AtTakeProfit
  cases risk.takeProfit with
  | none => simp
  | some percent => simp

theorem exitsFor_of_exitReason?
    (h : exitReason? cfg set (positionAt cfg.risk symbol stake c) j price = some reason) :
    ExitsFor cfg set c.close j price reason := by
  unfold exitReason? at h
  split at h
  . next hstop =>
    rw [hitsStopLoss_positionAt] at hstop
    injection h with h
    subst h
    exact .stopLoss hstop
  . next hstop =>
    rw [hitsStopLoss_positionAt] at hstop
    split at h
    . next hprofit =>
      rw [hitsTakeProfit_positionAt] at hprofit
      injection h with h
      subst h
      exact .takeProfit hstop hprofit
    . next hprofit =>
      rw [hitsTakeProfit_positionAt] at hprofit
      split at h
      . next hexit =>
        injection h with h
        subst h
        exact .exitSignal hstop hprofit hexit
      . cases h

theorem not_exits_of_exitReason?
    (h : exitReason? cfg set (positionAt cfg.risk symbol stake c) j price = none) :
    ¬ Exits cfg set c.close j price := by
  unfold exitReason? at h
  split at h
  . cases h
  . next hstop =>
    rw [hitsStopLoss_positionAt] at hstop
    split at h
    . cases h
    . next hprofit =>
      rw [hitsTakeProfit_positionAt] at hprofit
      split at h
      . cases h
      . next hexit =>
        rintro (h | h | h)
        . exact hstop h
        . exact hprofit h
        . exact hexit h

theorem replay_of_step {state : State α} (hc : cs[i]? = some c) :
    replay cfg symbol set i state (cs.drop i) =
      replay cfg symbol set (i + 1) (step cfg symbol set i c state) (cs.drop (i + 1)) := by
  obtain ⟨hi, rfl⟩ := List.getElem?_eq_some_iff.mp hc
  rw [List.drop_eq_getElem_cons hi]
  rfl

theorem replay_of_fixed {state : State α} (hsi : s ≤ i) (hi : i ≤ cs.length)
    (h : ∀ k c, s ≤ k → k < i → cs[k]? = some c → step cfg symbol set k c state = state) :
    replay cfg symbol set s state (cs.drop s) = replay cfg symbol set i state (cs.drop i) := by
  -- induction on the candles that change nothing
  induction i, hsi using Nat.le_induction with
  | base => rfl
  | succ i hsi ih =>
    rw [ih (by omega) (fun k c hk hki => h k c hk (by omega))]
    have hc := List.getElem?_eq_getElem hi
    rw [replay_of_step hc, h i _ hsi (by omega) hc]

theorem step_of_enters (h : Enters cfg set acct.capital i) :
    step cfg symbol set i c (acct, none) =
      ({ acct with capital := acct.capital - stakeOf cfg.risk acct.capital },
        some (holdingAt cfg.risk symbol (stakeOf cfg.risk acct.capital) c)) := by
  obtain ⟨henters, hstake⟩ := h
  have hstake : ¬ acct.stake cfg.risk ≤ 0 := hstake
  simp only [step, henters, hstake, decide_false, Bool.not_false, Bool.and_self, if_true]
  rfl

theorem step_of_not_enters (h : ¬ Enters cfg set acct.capital i) :
    step cfg symbol set i c (acct, none) = (acct, none) := by
  unfold step
  dsimp
  split
  . next henters =>
    simp only [Bool.and_eq_true, Bool.not_eq_true', decide_eq_false_iff_not] at henters
    exact absurd henters h
  . rfl

theorem held_step (hstake : ¬ acct.stake cfg.risk ≤ 0) :
    (step cfg symbol set i c (acct, none)).2 =
      if cfg.rules.entersAt set i = true then
        some (holdingAt cfg.risk symbol (acct.stake cfg.risk) c) else none := by
  split
  . next henters =>
    have h : Enters cfg set acct.capital i := ⟨henters, hstake⟩
    rw [step_of_enters h]
    rfl
  . next henters =>
    have h : ¬ Enters cfg set acct.capital i := fun h => henters h.1
    rw [step_of_not_enters h]

theorem step_of_exits (h : Exits cfg set c.close i d.close) :
    ∃ reason, ExitsFor cfg set c.close i d.close reason ∧
      step cfg symbol set i d (acct, some (holdingAt cfg.risk symbol stake c)) =
        (acct.leave (holdingAt cfg.risk symbol stake c) d reason, none) := by
  unfold step
  dsimp
  split
  . next reason hreason => exact ⟨reason, exitsFor_of_exitReason? hreason, rfl⟩
  . next hnone => exact absurd h (not_exits_of_exitReason? hnone)

theorem step_of_not_exits (h : ¬ Exits cfg set c.close i d.close) :
    step cfg symbol set i d (acct, some (holdingAt cfg.risk symbol stake c)) =
      (acct, some (holdingAt cfg.risk symbol stake c)) := by
  unfold step
  dsimp
  split
  . next reason hreason => exact absurd (exitsFor_of_exitReason? hreason).exits h
  . rfl

theorem replay_of_enters (hc : cs[i]? = some c)
    (h : IsLeast { i | s ≤ i ∧ i < cs.length ∧ Enters cfg set acct.capital i } i) :
    replay cfg symbol set s (acct, none) (cs.drop s) =
      replay cfg symbol set (i + 1)
        ({ acct with capital := acct.capital - stakeOf cfg.risk acct.capital },
          some (holdingAt cfg.risk symbol (stakeOf cfg.risk acct.capital) c))
        (cs.drop (i + 1)) := by
  obtain ⟨hsi, hi, henters⟩ := h.1
  rw [replay_of_fixed hsi (by omega), replay_of_step hc, step_of_enters henters]
  intro k c hk hki _
  apply step_of_not_enters
  intro hk'
  have := h.2 ⟨hk, by omega, hk'⟩
  omega

theorem replay_of_not_enters (hs : s ≤ cs.length)
    (h : ∀ i, s ≤ i → i < cs.length → ¬ Enters cfg set acct.capital i) :
    replay cfg symbol set s (acct, none) (cs.drop s) = (acct, none) := by
  rw [replay_of_fixed hs (Nat.le_refl _), List.drop_length]
  . rfl
  . intro k c hk hkn _
    exact step_of_not_enters (h k hk hkn)

theorem replay_of_exits
    (h : IsLeast { k | i < k ∧ ∃ d, cs[k]? = some d ∧ Exits cfg set c.close k d.close } j)
    (acct : Account α) (symbol : String) (stake : α) :
    ∃ d reason, cs[j]? = some d ∧ ExitsFor cfg set c.close j d.close reason ∧
      replay cfg symbol set (i + 1) (acct, some (holdingAt cfg.risk symbol stake c))
          (cs.drop (i + 1)) =
        replay cfg symbol set (j + 1) (acct.leave (holdingAt cfg.risk symbol stake c) d reason, none)
          (cs.drop (j + 1)) := by
  obtain ⟨hij, d, hd, hexits⟩ := h.1
  obtain ⟨reason, hreason, hstep⟩ := step_of_exits hexits
  have hj := (List.getElem?_eq_some_iff.mp hd).1
  refine ⟨d, reason, hd, hreason, ?_⟩
  rw [replay_of_fixed hij (by omega), replay_of_step hd, hstep]
  intro k c' hk hkj hc'
  apply step_of_not_exits
  intro hk'
  have := h.2 ⟨hk, c', hc', hk'⟩
  omega

theorem replay_of_not_exits (hi : i < cs.length)
    (h : ∀ k d, i < k → cs[k]? = some d → ¬ Exits cfg set c.close k d.close) :
    replay cfg symbol set (i + 1) (acct, some (holdingAt cfg.risk symbol stake c))
        (cs.drop (i + 1)) =
      (acct, some (holdingAt cfg.risk symbol stake c)) := by
  rw [replay_of_fixed hi (Nat.le_refl _), List.drop_length]
  . rfl
  . intro k d hk _ hd
    exact step_of_not_exits (h k d hk hd)

def settle (cs : List (Candle α)) (state : State α) : Account α :=
  match state, cs.getLast? with
  | (acct, some held), some last => acct.leave held last .endOfWindow
  | (acct, _), _ => acct

theorem settle_of_none (cs : List (Candle α)) (acct : Account α) : settle cs (acct, none) = acct := by
  unfold settle
  cases cs.getLast? <;> rfl

theorem settle_of_some {held : Holding α} (hd : cs.getLast? = some d) :
    settle cs (acct, some held) = acct.leave held d .endOfWindow := by
  unfold settle
  rw [hd]

theorem greedy_replay (cfg : Config α) (symbol : String) (cs : List (Candle α)) (s : Nat)
    (hs : s ≤ cs.length) (acct : Account α) :
    ∃ rounds, Greedy cfg symbol cs s acct.capital rounds
        (settle cs (replay cfg symbol (.compute cfg.indicators cs) s (acct, none)
          (cs.drop s))).capital ∧
      (settle cs (replay cfg symbol (.compute cfg.indicators cs) s (acct, none)
        (cs.drop s))).trades = acct.trades ++ rounds.map Round.trade := by
  classical
  by_cases hentry :
      ∃ i, s ≤ i ∧ i < cs.length ∧ Enters cfg (.compute cfg.indicators cs) acct.capital i
  . have hleast := Nat.isLeast_find hentry
    generalize Nat.find hentry = i at hleast
    have hi : i < cs.length := hleast.1.2.1
    have hc := List.getElem?_eq_getElem hi
    generalize cs[i] = c at hc
    rw [replay_of_enters hc hleast]
    by_cases hexit : ∃ k, i < k ∧ ∃ d, cs[k]? = some d ∧
        Exits cfg (.compute cfg.indicators cs) c.close k d.close
    . have hnext := Nat.isLeast_find hexit
      generalize Nat.find hexit = j at hnext
      obtain ⟨d, reason, hd, hreason, hreplay⟩ := replay_of_exits hnext
        { acct with capital := acct.capital - stakeOf cfg.risk acct.capital } symbol
        (stakeOf cfg.risk acct.capital)
      have hj := (List.getElem?_eq_some_iff.mp hd).1
      have hij : i < j := hnext.1.1
      have hsi : s ≤ i := hleast.1.1
      -- the scan goes on behind the exit, with fewer candles ahead
      have hless : cs.length - (j + 1) < cs.length - s := by omega
      rw [hreplay]
      obtain ⟨rounds, hgreedy, htrades⟩ := greedy_replay cfg symbol cs (j + 1) hj
        (Account.leave { acct with capital := acct.capital - stakeOf cfg.risk acct.capital }
          (holdingAt cfg.risk symbol (stakeOf cfg.risk acct.capital) c) d reason)
      refine ⟨_, .round hleast hc (.inside hnext hd hreason) hd hgreedy, ?_⟩
      rw [htrades]
      simp only [Account.leave, List.append_assoc]
      rfl
    . -- the position is held to the end, and nothing is left to scan
      have hlast := List.getElem?_eq_getElem (Nat.sub_one_lt_of_lt hi)
      generalize cs[cs.length - 1] = d at hlast
      have hnone (k : Nat) (d : Candle α) (hk : i < k) (hd : cs[k]? = some d) :
          ¬ Exits cfg (.compute cfg.indicators cs) c.close k d.close :=
        fun h => hexit ⟨k, hk, d, hd, h⟩
      rw [replay_of_not_exits hi hnone, settle_of_some (List.getLast?_eq_getElem?.trans hlast)]
      refine ⟨_, .round hleast hc (.atEnd hnone) hlast (.stop ?_), rfl⟩
      intro k hk hkn
      omega
  . have hnone (i : Nat) (hsi : s ≤ i) (hi : i < cs.length) :
        ¬ Enters cfg (.compute cfg.indicators cs) acct.capital i :=
      fun h => hentry ⟨i, hsi, hi, h⟩
    rw [replay_of_not_enters hs hnone, settle_of_none]
    exact ⟨[], .stop hnone, (List.append_nil _).symm⟩
termination_by cs.length - s

end Replay

/-! ## The replay of all symbols -/

section Symbols

variable {cfg : Config α} {candlesOf : String → List (Candle α)} {symbols : List String}
  {capital final : α} {all : List (List (Round α))}

theorem runSymbol_eq (acct : Account α) (symbol : String) :
    runSymbol cfg candlesOf acct symbol = settle (candlesOf symbol)
      (replay cfg symbol (.compute cfg.indicators (candlesOf symbol)) 0 (acct, none)
        (candlesOf symbol)) :=
  rfl

theorem GreedyAll.orderly (h : GreedyAll cfg candlesOf symbols capital all final) {k : Nat}
    {symbol : String} {rounds : List (Round α)} (hsymbol : symbols[k]? = some symbol)
    (hrounds : all[k]? = some rounds) : Orderly (candlesOf symbol).length rounds := by
  induction h generalizing k with
  | nil => cases hsymbol
  | cons hfirst _ ih =>
    cases k with
    | zero =>
      injection hsymbol with hsymbol
      injection hrounds with hrounds
      subst hsymbol hrounds
      exact hfirst.orderly
    | succ k => exact ih hsymbol hrounds

theorem greedyAll_runSymbols (cfg : Config α) (candlesOf : String → List (Candle α))
    (symbols : List String) (acct : Account α) :
    ∃ all, GreedyAll cfg candlesOf symbols acct.capital all
        (symbols.foldl (runSymbol cfg candlesOf) acct).capital ∧
      (symbols.foldl (runSymbol cfg candlesOf) acct).trades =
        acct.trades ++ all.flatten.map Round.trade := by
  induction symbols generalizing acct with
  | nil => exact ⟨[], .nil, (List.append_nil _).symm⟩
  | cons symbol symbols ih =>
    obtain ⟨rounds, hgreedy, htrades⟩ :=
      greedy_replay cfg symbol (candlesOf symbol) 0 (Nat.zero_le _) acct
    rw [List.drop_zero, ← runSymbol_eq] at hgreedy htrades
    obtain ⟨rest, hall, hrest⟩ := ih (runSymbol cfg candlesOf acct symbol)
    refine ⟨rounds :: rest, .cons hgreedy hall, ?_⟩
    rw [List.foldl_cons, hrest, htrades, List.flatten_cons, List.map_append, List.append_assoc]

end Symbols

end Simulation

theorem TradeStats.total_eq_winning_add_losing {s : TradeStats α} (h : s.total = s.winning + s.losing)
    (trades : List (Trade α)) :
    (trades.foldl record s).total =
      (trades.foldl record s).winning + (trades.foldl record s).losing := by
  induction trades generalizing s with
  | nil => exact h
  | cons t trades ih =>
    rw [List.foldl_cons]
    apply ih
    unfold record
    split
    . dsimp
      omega
    . dsimp
      omega

theorem Simulation.check_eq_ok_iff {cfg : Config α} {candlesOf : String → List (Candle α)}
    {capital : α} :
    check cfg candlesOf capital = .ok () ↔
      (Arithmetic.isFinite capital = true ∧ ¬ capital ≤ 0) ∧
      ∀ symbol ∈ cfg.symbols, validateCandles symbol (candlesOf symbol) = .ok () := by
  rw [← forM_eq_ok_iff]
  unfold check
  split
  . next hrefused =>
    have hnot : ¬ (Arithmetic.isFinite capital = true ∧ ¬ capital ≤ 0) := by
      rintro ⟨hfinite, hpositive⟩
      simp [hfinite, hpositive] at hrefused
    exact iff_of_false nofun fun h => hnot h.1
  . next hcapital =>
    have hcapital : Arithmetic.isFinite capital = true ∧ ¬ capital ≤ 0 := by
      simpa using hcapital
    exact (and_iff_right hcapital).symm

theorem runBacktest_eq_ok_iff {cfg : Config α} {candlesOf : String → List (Candle α)} {capital : α}
    {r : BacktestResult α} :
    runBacktest cfg candlesOf capital = .ok r ↔
      (Arithmetic.isFinite capital = true ∧ ¬ capital ≤ 0) ∧
      (∀ symbol ∈ cfg.symbols, Simulation.validateCandles symbol (candlesOf symbol) = .ok ()) ∧
      r = (cfg.symbols.foldl (Simulation.runSymbol cfg candlesOf) (.start capital)).result capital := by
  unfold runBacktest
  rw [check_bind_eq_ok_iff, Simulation.check_eq_ok_iff, and_assoc]
  dsimp only [pure, Except.pure]
  rw [Except.ok.injEq, @eq_comm _ r]

theorem runBacktest_eq_ok {cfg : Config α} {candlesOf : String → List (Candle α)} {capital : α}
    {r : BacktestResult α} (h : runBacktest cfg candlesOf capital = .ok r) :
    r = (cfg.symbols.foldl (Simulation.runSymbol cfg candlesOf) (.start capital)).result capital :=
  (runBacktest_eq_ok_iff.mp h).2.2

open Simulation in
/--
The trades of a backtest are those of greedy scans of the symbols, in their order, and of no others.
The rounds of each symbol are in order, and each trade was either won or lost.
-/
theorem runBacktest_trades {cfg : Config α} {candlesOf : String → List (Candle α)} {capital : α}
    {r : BacktestResult α} (h : runBacktest cfg candlesOf capital = .ok r) :
    ∃ all : List (List (Round α)),
      (∀ all' final, GreedyAll cfg candlesOf cfg.symbols capital all' final ↔
        all' = all ∧ final = r.finalCapital) ∧
      r.trades = all.flatten.map Round.trade ∧
      (∀ (k : Nat) (symbol : String) (rounds : List (Round α)), cfg.symbols[k]? = some symbol →
        all[k]? = some rounds → Orderly (candlesOf symbol).length rounds) ∧
      r.totalTrades = r.trades.length ∧ r.totalTrades = r.winningTrades + r.losingTrades := by
  obtain ⟨all, hgreedy, htrades⟩ := greedyAll_runSymbols cfg candlesOf cfg.symbols (.start capital)
  have hr := runBacktest_eq_ok h
  subst hr
  refine ⟨all, ?_, htrades, ?_, ?_, ?_⟩
  . intro all' final
    constructor
    . intro h'
      exact h'.eq hgreedy
    . rintro ⟨rfl, rfl⟩
      exact hgreedy
  . intro k symbol rounds hsymbol hrounds
    exact hgreedy.orderly hsymbol hrounds
  . exact TradeStats.total_ofTrades _
  . exact TradeStats.total_eq_winning_add_losing rfl _

def crossingConfig (symbols : List String) : Config Float where
  name := "Crossing"
  description := none
  kind := .custom
  symbols
  timeframe := .day1
  indicators := [{ key := "sma", indicator := .sma 1 }]
  rules := {
    entry := [{ field := "sma", comparison := .greater, value := 105 }]
    exit := [{ field := "sma", comparison := .less, value := 105 }] }
  risk := { positionSize := 10, maxDrawdown := 50, stopLoss := none, takeProfit := none }

def candlesOfCloses (closes : List Float) : List (Candle Float) :=
  closes.zipIdx.map fun (close, day) =>
    { time := { seconds := 86400 * day }, openPrice := close, high := close, low := close, close
      volume := 1 }

open Simulation in
theorem runBacktest_crossing :
    ∃ r, runBacktest (crossingConfig ["BTC"])
        (fun _ => candlesOfCloses [100, 110, 120, 100, 110]) 1000 = .ok r ∧
      r.trades.map Trade.exitReason = [.exitSignal, .endOfWindow] ∧
      ∃ all : List (List (Round Float)), r.trades = all.flatten.map Round.trade ∧
        r.totalTrades = r.winningTrades + r.losingTrades := by
  have hreasons : (runBacktest (crossingConfig ["BTC"])
      (fun _ => candlesOfCloses [100, 110, 120, 100, 110]) 1000).toOption.map
        (fun r => r.trades.map Trade.exitReason) = some [.exitSignal, .endOfWindow] := by
    decide +kernel
  obtain ⟨r, hr, hreasons⟩ := exists_ok_of_toOption hreasons
  obtain ⟨all, _, htrades, _, _, htotal⟩ := runBacktest_trades hr
  exact ⟨r, hr, hreasons, all, htrades, htotal⟩

end StrategyDesk
