import StrategyDesk.Proofs.Arithmetic.Exact
import StrategyDesk.Proofs.Backtest.Lookahead
import StrategyDesk.Proofs.Strategy.Admission

/-!
This module contains the books of a backtest, kept in exact arithmetic. What is not bound in a
position is what the trades so far have made of the initial capital, each of them by a factor of its
own, so the capital at the end does not depend on the order of the symbols.
-/

namespace StrategyDesk

theorem Simulation.amounts_of_checkCandles {α : Type} [Arithmetic α] {symbol : String}
    {index : Nat} {previous : Option Instant} {cs : List (Candle α)}
    (h : checkCandles symbol index previous cs = .ok ()) :
    ∀ c ∈ cs, ¬ c.volume < 0 ∧ ¬ c.close ≤ 0 := by
  induction cs generalizing index previous with
  | nil => simp
  | cons c cs ih =>
    unfold checkCandles at h
    split at h
    . cases h
    . next hnone =>
      rw [List.forall_mem_cons]
      refine ⟨?_, ih h⟩
      unfold Candle.complaint? at hnone
      split at hnone
      . cases hnone
      . next hvolume =>
        split at hnone
        . cases hnone
        . next hclose =>
          constructor
          . intro hlt
            simp [hlt] at hvolume
          . intro hle
            simp [hle] at hclose

structure Drawdown.Bounded (d : Drawdown ℚ) : Prop where
  peak_pos : 0 < d.peak
  nonneg : 0 ≤ d.greatest
  lt_hundred : d.greatest < 100

theorem Drawdown.Bounded.record [Conventions] {d : Drawdown ℚ} {capital : ℚ} (h : d.Bounded)
    (hcapital : 0 < capital) : (d.record capital).Bounded := by
  unfold Drawdown.record
  split
  . exact ⟨hcapital, h.nonneg, h.lt_hundred⟩
  . split
    . next hpeak =>
      dsimp only
      split
      . next hgreater =>
        refine ⟨hpeak, h.nonneg.trans hgreater.le, ?_⟩
        show (d.peak - capital) / d.peak * 100 < 100
        rw [div_mul_eq_mul_div, div_lt_iff₀ hpeak]
        linarith
      . exact h
    . exact h

namespace Simulation

/-! ## The books -/

def growth (risk : Risk ℚ) (t : Trade ℚ) : ℚ :=
  1 + risk.positionSize / 100 * (t.exitPrice / t.entryPrice - 1)

def balance (risk : Risk ℚ) (initial : ℚ) (trades : List (Trade ℚ)) : ℚ :=
  initial * (trades.map (growth risk)).prod

theorem balance_concat (risk : Risk ℚ) (initial : ℚ) (trades : List (Trade ℚ)) (t : Trade ℚ) :
    balance risk initial (trades ++ [t]) = balance risk initial trades * growth risk t := by
  simp [balance, mul_assoc]

def bound : Option (Holding ℚ) → ℚ
  | none => 0
  | some held => held.notional

variable [Conventions]

structure Staked (risk : Risk ℚ) (before : ℚ) (t : Trade ℚ) : Prop where
  entry : 0 < t.entryPrice
  exit : 0 < t.exitPrice
  cost : t.quantity * t.entryPrice = stakeOf risk before
  profit : t.profit = t.proceeds - stakeOf risk before

def Booked (risk : Risk ℚ) (initial : ℚ) (trades : List (Trade ℚ)) : Prop :=
  ∀ k t, trades[k]? = some t → Staked risk (balance risk initial (trades.take k)) t

theorem positionSize_of_validate {risk : Risk ℚ} (h : risk.validate = .ok ()) :
    0 < risk.positionSize ∧ risk.positionSize ≤ 100 :=
  (Risk.validate_eq_ok_iff.mp h).1

section Books

variable {risk : Risk ℚ} {initial : ℚ} {trades : List (Trade ℚ)} {t : Trade ℚ}

theorem Staked.profit_eq {before : ℚ} (h : Staked risk before t) :
    t.profit = before * growth risk t - before := by
  have hentry := h.entry.ne'
  have hquantity : t.quantity = stakeOf risk before / t.entryPrice := by
    rw [← h.cost, mul_div_cancel_right₀ _ hentry]
  rw [h.profit, Trade.proceeds, hquantity, stakeOf, growth]
  field_simp
  ring

theorem Staked.growth_pos {before : ℚ} (h : Staked risk before t)
    (hrisk : risk.validate = .ok ()) : 0 < growth risk t := by
  obtain ⟨hsize, hle⟩ := positionSize_of_validate hrisk
  have hratio : 0 < t.exitPrice / t.entryPrice := div_pos h.exit h.entry
  have hshare : 0 < risk.positionSize / 100 := by positivity
  have hshare_le : risk.positionSize / 100 ≤ 1 := by linarith
  have hgain : 0 < risk.positionSize / 100 * (t.exitPrice / t.entryPrice) := mul_pos hshare hratio
  unfold growth
  linarith

theorem booked_nil : Booked risk initial [] := by
  intro k t ht
  cases ht

theorem Booked.init (h : Booked risk initial (trades ++ [t])) : Booked risk initial trades := by
  intro k u hu
  have hk := (List.getElem?_eq_some_iff.mp hu).1
  have hstaked := h k u (by rw [List.getElem?_append_left hk, hu])
  rwa [List.take_append_of_le_length hk.le] at hstaked

theorem Booked.last (h : Booked risk initial (trades ++ [t])) :
    Staked risk (balance risk initial trades) t := by
  have hstaked := h trades.length t List.getElem?_concat_length
  rwa [List.take_left] at hstaked

theorem Booked.concat (h : Booked risk initial trades)
    (ht : Staked risk (balance risk initial trades) t) : Booked risk initial (trades ++ [t]) := by
  intro k u hu
  rw [List.getElem?_append] at hu
  split at hu
  . next hk =>
    rw [List.take_append_of_le_length hk.le]
    exact h k u hu
  . next hk =>
    rw [List.getElem?_singleton] at hu
    split at hu
    . next hzero =>
      injection hu with hu
      have hk : k = trades.length := by omega
      rw [← hu, hk, List.take_left]
      exact ht
    . cases hu

theorem Booked.balance_pos (h : Booked risk initial trades) (hrisk : risk.validate = .ok ())
    (hinitial : 0 < initial) : 0 < balance risk initial trades := by
  induction trades using List.reverseRecOn with
  | nil => simpa [balance] using hinitial
  | append_singleton trades t ih =>
    rw [balance_concat]
    exact mul_pos (ih h.init) (h.last.growth_pos hrisk)

theorem Booked.balance_eq_add_sum (h : Booked risk initial trades) :
    balance risk initial trades = initial + (trades.map Trade.profit).sum := by
  induction trades using List.reverseRecOn with
  | nil => simp [balance]
  | append_singleton trades t ih =>
    have hprofit := h.last.profit_eq
    rw [balance_concat, List.map_append, List.sum_append, ← add_assoc, ← ih h.init, List.map_singleton,
      List.sum_singleton, hprofit]
    ring

end Books

structure Balanced (risk : Risk ℚ) (initial : ℚ) (state : State ℚ) : Prop where
  booked : Booked risk initial state.1.trades
  capital : state.1.capital + bound state.2 = balance risk initial state.1.trades
  held : ∀ held, state.2 = some held →
    held.notional = stakeOf risk (balance risk initial state.1.trades) ∧
      held.position.notional = held.notional ∧ 0 < held.position.entryPrice
  drawdown : state.1.drawdown.Bounded

section Replay

variable {cfg : Config ℚ} {candlesOf : String → List (Candle ℚ)} {symbol : String}
  {set : SeriesSet ℚ} {initial : ℚ} {acct : Account ℚ} {held : Holding ℚ} {state : State ℚ}
  {c : Candle ℚ} {cs : List (Candle ℚ)} {k : Nat}

theorem balanced_start (risk : Risk ℚ) (hinitial : 0 < initial) :
    Balanced risk initial (.start initial, none) := by
  refine ⟨booked_nil, ?_, nofun, hinitial, le_rfl, ?_⟩
  . simp [Account.start, bound, balance]
  . show (0 : ℚ) < 100
    norm_num

theorem Balanced.capital_eq (h : Balanced cfg.risk initial (acct, none)) :
    acct.capital = balance cfg.risk initial acct.trades := by
  rw [← h.capital]
  exact (add_zero _).symm

theorem Balanced.capital_eq_of_held (h : Balanced cfg.risk initial state)
    (hheld : state.2 = some held) :
    state.1.capital = balance cfg.risk initial state.1.trades - held.notional := by
  have hcapital := h.capital
  rw [hheld] at hcapital
  exact eq_sub_of_add_eq hcapital

theorem Balanced.enter (h : Balanced cfg.risk initial (acct, none)) (hc : 0 < c.close) :
    Balanced cfg.risk initial ((acct.enter symbol cfg.risk c (acct.stake cfg.risk)).1,
      some (acct.enter symbol cfg.risk c (acct.stake cfg.risk)).2) := by
  have hcapital := h.capital_eq
  refine ⟨h.booked, ?_, ?_, h.drawdown⟩
  . show acct.capital - acct.stake cfg.risk + acct.stake cfg.risk = _
    rw [sub_add_cancel]
    exact hcapital
  . rintro _ ⟨⟩
    refine ⟨?_, ?_, hc⟩
    . show stakeOf cfg.risk acct.capital = _
      rw [hcapital]
      rfl
    . show acct.stake cfg.risk / c.close * c.close = acct.stake cfg.risk
      exact div_mul_cancel₀ _ hc.ne'

theorem Balanced.staked_close (h : Balanced cfg.risk initial (acct, some held)) (hc : 0 < c.close)
    (reason : ExitReason) : Staked cfg.risk (balance cfg.risk initial acct.trades)
      (held.position.close c.close c.time reason) := by
  obtain ⟨hnotional, hcost, hentry⟩ := h.held held rfl
  have hcost : held.position.quantity * held.position.entryPrice =
      stakeOf cfg.risk (balance cfg.risk initial acct.trades) := hcost.trans hnotional
  refine ⟨hentry, hc, hcost, ?_⟩
  rw [← hcost]
  exact mul_sub _ _ _

theorem Balanced.leave (h : Balanced cfg.risk initial (acct, some held))
    (hrisk : cfg.risk.validate = .ok ()) (hinitial : 0 < initial) (hc : 0 < c.close)
    (reason : ExitReason) : Balanced cfg.risk initial (acct.leave held c reason, none) := by
  have hstaked := h.staked_close hc reason
  have hbooked : Booked cfg.risk initial (acct.leave held c reason).trades :=
    h.booked.concat hstaked
  have hcapital : (acct.leave held c reason).capital =
      balance cfg.risk initial (acct.leave held c reason).trades := by
    show acct.capital + (held.notional + (held.position.close c.close c.time reason).profit) =
      balance cfg.risk initial (acct.trades ++ [held.position.close c.close c.time reason])
    rw [h.capital_eq_of_held rfl, balance_concat, hstaked.profit_eq]
    ring
  refine ⟨hbooked, ?_, nofun, ?_⟩
  . rw [← hcapital]
    exact add_zero _
  . -- the fall is measured after the exit, when the balance is positive again
    apply h.drawdown.record
    have hpos := hbooked.balance_pos hrisk hinitial
    rw [← hcapital] at hpos
    exact hpos

theorem Balanced.step (h : Balanced cfg.risk initial state)
    (hrisk : cfg.risk.validate = .ok ()) (hinitial : 0 < initial) (hc : 0 < c.close) :
    Balanced cfg.risk initial (step cfg symbol set k c state) := by
  rcases state with ⟨acct, none | held⟩
  . unfold Simulation.step
    dsimp only
    split
    . exact h.enter hc
    . exact h
  . unfold Simulation.step
    dsimp only
    split
    . next reason _ => exact h.leave hrisk hinitial hc reason
    . exact h

theorem Balanced.replay (h : Balanced cfg.risk initial state)
    (hrisk : cfg.risk.validate = .ok ()) (hinitial : 0 < initial) (hcs : ∀ c ∈ cs, 0 < c.close) :
    Balanced cfg.risk initial (replay cfg symbol set k state cs) := by
  induction cs generalizing k state with
  | nil => exact h
  | cons c cs ih =>
    rw [List.forall_mem_cons] at hcs
    exact ih (h.step hrisk hinitial hcs.1) hcs.2

theorem Balanced.runSymbol (h : Balanced cfg.risk initial (acct, none))
    (hrisk : cfg.risk.validate = .ok ()) (hinitial : 0 < initial)
    (hcs : ∀ c ∈ candlesOf symbol, 0 < c.close) :
    Balanced cfg.risk initial (runSymbol cfg candlesOf acct symbol, none) := by
  have hreplay : Balanced cfg.risk initial (Simulation.replay cfg symbol
      (.compute cfg.indicators (candlesOf symbol)) 0 (acct, none) (candlesOf symbol)) :=
    h.replay hrisk hinitial hcs
  obtain ⟨acct', held?, hstate, _, hcases⟩ := runSymbol_cases cfg candlesOf acct symbol
  rw [hstate] at hreplay
  rcases hcases with ⟨rfl, hrun⟩ | ⟨held, last, rfl, hlast, hrun⟩
  . rw [hrun]
    exact hreplay
  . rw [hrun]
    exact hreplay.leave hrisk hinitial (hcs last (List.mem_of_getLast? hlast)) _

theorem Balanced.runSymbols {symbols : List String} (h : Balanced cfg.risk initial (acct, none))
    (hrisk : cfg.risk.validate = .ok ()) (hinitial : 0 < initial)
    (hcs : ∀ symbol ∈ symbols, ∀ c ∈ candlesOf symbol, 0 < c.close) :
    Balanced cfg.risk initial (symbols.foldl (Simulation.runSymbol cfg candlesOf) acct, none) := by
  induction symbols generalizing acct with
  | nil => exact h
  | cons symbol symbols ih =>
    rw [List.forall_mem_cons] at hcs
    exact ih (h.runSymbol hrisk hinitial hcs.1) hcs.2

theorem Balanced.capital_pos (h : Balanced cfg.risk initial (acct, none))
    (hrisk : cfg.risk.validate = .ok ()) (hinitial : 0 < initial) : 0 < acct.capital := by
  rw [h.capital_eq]
  exact h.booked.balance_pos hrisk hinitial

theorem Balanced.capital_nonneg (h : Balanced cfg.risk initial state)
    (hrisk : cfg.risk.validate = .ok ()) (hinitial : 0 < initial) : 0 ≤ state.1.capital := by
  rcases state with ⟨acct, none | held⟩
  . exact (h.capital_pos hrisk hinitial).le
  . obtain ⟨hsize, hle⟩ := positionSize_of_validate hrisk
    have hpos := h.booked.balance_pos hrisk hinitial
    have hnotional : held.notional =
        balance cfg.risk initial acct.trades * cfg.risk.positionSize / 100 := (h.held held rfl).1
    -- no more than the whole balance is staked
    have hstake : held.notional ≤ balance cfg.risk initial acct.trades := by
      rw [hnotional, div_le_iff₀ (by norm_num)]
      exact mul_le_mul_of_nonneg_left hle hpos.le
    rw [h.capital_eq_of_held rfl]
    exact sub_nonneg.mpr hstake

end Replay

end Simulation

/-! ## All states of a backtest -/

namespace Simulation

theorem holdsOnly_none {α : Type} {symbol : String} {acct : Account α} :
    HoldsOnly symbol (acct, none) :=
  nofun

variable {α : Type} [Arithmetic α]

/-- The states that a backtest passes through: those in the replay of each symbol, and the last. -/
inductive Visits (cfg : Config α) (candlesOf : String → List (Candle α)) (capital : α) :
    State α → Prop
  | during {before symbol after cs rest} :
    cfg.symbols = before ++ symbol :: after → candlesOf symbol = cs ++ rest →
      Visits cfg candlesOf capital (replay cfg symbol (.compute cfg.indicators (candlesOf symbol)) 0
        (before.foldl (runSymbol cfg candlesOf) (.start capital), none) cs)
  | atEnd : Visits cfg candlesOf capital
      (cfg.symbols.foldl (runSymbol cfg candlesOf) (.start capital), none)

theorem runSymbols_trades {cfg : Config α} {candlesOf : String → List (Candle α)}
    (symbols : List String) (acct : Account α) :
    acct.trades <+: (symbols.foldl (runSymbol cfg candlesOf) acct).trades := by
  induction symbols generalizing acct with
  | nil => exact List.prefix_rfl
  | cons symbol symbols ih =>
    obtain ⟨more, hmore, _⟩ := runSymbol_trades cfg candlesOf acct symbol
    have hfirst : acct.trades <+: (runSymbol cfg candlesOf acct symbol).trades :=
      ⟨more, hmore.symm⟩
    exact hfirst.trans (ih _)

theorem Visits.trades {cfg : Config α} {candlesOf : String → List (Candle α)} {capital : α}
    {state : State α} (h : Visits cfg candlesOf capital state) :
    state.1.trades <+: (cfg.symbols.foldl (runSymbol cfg candlesOf) (.start capital)).trades := by
  cases h with
  | @during before symbol after cs rest hsymbols hcandles =>
    rw [hsymbols, List.foldl_append, List.foldl_cons]
    refine List.IsPrefix.trans ?_ (runSymbols_trades after _)
    rw [runSymbol_eq]
    generalize SeriesSet.compute cfg.indicators (candlesOf symbol) = set
    rw [hcandles, replay_concat]
    exact settle_replay_trades (replay_advances holdsOnly_none).holdsOnly
  | atEnd => exact List.prefix_rfl

theorem balanced_of_visits [Conventions] {cfg : Config ℚ} {candlesOf : String → List (Candle ℚ)}
    {capital : ℚ} {state : State ℚ} (hrisk : cfg.risk.validate = .ok ()) (hcapital : 0 < capital)
    (hcs : ∀ symbol ∈ cfg.symbols, ∀ c ∈ candlesOf symbol, 0 < c.close)
    (h : Visits cfg candlesOf capital state) : Balanced cfg.risk capital state := by
  have hstart := balanced_start cfg.risk hcapital
  cases h with
  | @during before symbol after cs rest hsymbols hcandles =>
    rw [hsymbols, List.forall_mem_append, List.forall_mem_cons, hcandles, List.forall_mem_append] at hcs
    exact (hstart.runSymbols hrisk hcapital hcs.1).replay hrisk hcapital hcs.2.1.1
  | atEnd => exact hstart.runSymbols hrisk hcapital hcs

/-! ## The order of the symbols -/

theorem replay_withSymbols {cfg : Config α} {symbols : List String} {symbol : String}
    {set : SeriesSet α} {k : Nat} {state : State α} {cs : List (Candle α)} :
    replay { cfg with symbols } symbol set k state cs = replay cfg symbol set k state cs := by
  induction cs generalizing k state with
  | nil => rfl
  | cons c cs ih => exact ih

theorem runSymbol_withSymbols {cfg : Config α} {symbols : List String} :
    runSymbol { cfg with symbols } = runSymbol cfg := by
  funext candlesOf acct symbol
  rw [runSymbol_eq, runSymbol_eq, replay_withSymbols]

def Holding.scale (q : α) (held : Holding α) : Holding α where
  position := { held.position with quantity := q * held.position.quantity }
  notional := q * held.notional

structure Scaled (q : α) (state state' : State α) : Prop where
  capital : state'.1.capital = q * state.1.capital
  held : state'.2 = state.2.map (Holding.scale q)

variable [Conventions]

section Order

variable {cfg : Config ℚ} {candlesOf : String → List (Candle ℚ)} {symbol : String}
  {set : SeriesSet ℚ} {q : ℚ} {acct acct' : Account ℚ} {held : Holding ℚ} {state state' : State ℚ}
  {c : Candle ℚ} {cs : List (Candle ℚ)} {k : Nat}

theorem stake_scaled (h : acct'.capital = q * acct.capital) (risk : Risk ℚ) :
    acct'.stake risk = q * acct.stake risk := by
  unfold Account.stake
  rw [h]
  ring

theorem leave_scaled (h : acct'.capital = q * acct.capital) (reason : ExitReason) :
    (acct'.leave (held.scale q) c reason).capital = q * (acct.leave held c reason).capital := by
  simp only [Account.leave, Holding.scale, Position.close]
  rw [h]
  ring

theorem step_scaled (hq : 0 < q) (h : Scaled q state state') :
    Scaled q (step cfg symbol set k c state) (step cfg symbol set k c state') := by
  -- the two hold the same position but for its size, so they enter and leave at the same candles
  rcases state with ⟨acct, none | held⟩ <;> rcases state' with ⟨acct', held'⟩
  . obtain ⟨hcapital, rfl⟩ := h
    have hcapital : acct'.capital = q * acct.capital := hcapital
    have hstake := stake_scaled hcapital cfg.risk
    have hsign : acct'.stake cfg.risk ≤ 0 ↔ acct.stake cfg.risk ≤ 0 := by
      rw [hstake, ← not_lt, ← not_lt, mul_pos_iff_of_pos_left hq]
    simp only [step, Option.map_none, hsign]
    split
    . constructor
      . show acct'.capital - acct'.stake cfg.risk = q * (acct.capital - acct.stake cfg.risk)
        rw [hcapital, hstake]
        ring
      . simp [Account.enter, Holding.scale, Position.enter, hstake, mul_div_assoc]
    . exact ⟨hcapital, rfl⟩
  . obtain ⟨hcapital, rfl⟩ := h
    have hcapital : acct'.capital = q * acct.capital := hcapital
    have hreason : exitReason? cfg set (held.scale q).position k c.close =
        exitReason? cfg set held.position k c.close := rfl
    simp only [step, Option.map_some, hreason]
    split
    . exact ⟨leave_scaled hcapital _, rfl⟩
    . exact ⟨hcapital, rfl⟩

theorem replay_scaled (hq : 0 < q) (h : Scaled q state state') :
    Scaled q (replay cfg symbol set k state cs) (replay cfg symbol set k state' cs) := by
  induction cs generalizing k state state' with
  | nil => exact h
  | cons c cs ih => exact ih (step_scaled hq h)

theorem settle_scaled (h : Scaled q state state') :
    (settle cs state').capital = q * (settle cs state).capital := by
  rcases state with ⟨acct, held⟩
  rcases state' with ⟨acct', held'⟩
  obtain ⟨hcapital, rfl⟩ := h
  cases held with
  | none =>
    rw [Option.map_none, settle_of_none, settle_of_none]
    exact hcapital
  | some held =>
    cases hlast : cs.getLast? with
    | none =>
      simp only [settle, hlast]
      exact hcapital
    | some last =>
      rw [Option.map_some, settle_of_some hlast, settle_of_some hlast]
      exact leave_scaled hcapital _

theorem runSymbol_scaled (hq : 0 < q) (h : acct'.capital = q * acct.capital) :
    (runSymbol cfg candlesOf acct' symbol).capital =
      q * (runSymbol cfg candlesOf acct symbol).capital := by
  rw [runSymbol_eq, runSymbol_eq]
  apply settle_scaled
  apply replay_scaled hq
  exact ⟨h, rfl⟩

def unitYield (cfg : Config ℚ) (candlesOf : String → List (Candle ℚ)) (symbol : String) : ℚ :=
  (runSymbol cfg candlesOf (.start 1) symbol).capital

theorem capital_runSymbol (h : 0 < acct.capital) :
    (runSymbol cfg candlesOf acct symbol).capital = acct.capital * unitYield cfg candlesOf symbol :=
  runSymbol_scaled h (mul_one _).symm

theorem capital_runSymbols {initial : ℚ} {symbols : List String}
    (h : Balanced cfg.risk initial (acct, none)) (hrisk : cfg.risk.validate = .ok ())
    (hinitial : 0 < initial) (hcs : ∀ symbol ∈ symbols, ∀ c ∈ candlesOf symbol, 0 < c.close) :
    (symbols.foldl (runSymbol cfg candlesOf) acct).capital =
      acct.capital * (symbols.map (unitYield cfg candlesOf)).prod := by
  induction symbols generalizing acct with
  | nil => exact (mul_one _).symm
  | cons symbol symbols ih =>
    rw [List.forall_mem_cons] at hcs
    rw [List.foldl_cons, ih (h.runSymbol hrisk hinitial hcs.1) hcs.2,
      capital_runSymbol (h.capital_pos hrisk hinitial), List.map_cons, List.prod_cons, mul_assoc]

end Order

end Simulation

/-! ## The result -/

theorem TradeStats.gross_foldl_record [Conventions] (s : TradeStats ℚ) (trades : List (Trade ℚ)) :
    (trades.foldl record s).grossProfit - (trades.foldl record s).grossLoss =
      s.grossProfit - s.grossLoss + (trades.map Trade.profit).sum := by
  induction trades generalizing s with
  | nil => simp
  | cons t trades ih =>
    have hrecord : (s.record t).grossProfit - (s.record t).grossLoss =
        s.grossProfit - s.grossLoss + t.profit := by
      unfold record
      split
      . dsimp only
        ring
      . next hlost =>
        have hlost : t.profit ≤ 0 := by simpa [Trade.isWinner] using hlost
        have habs : Arithmetic.abs t.profit = -t.profit := abs_of_nonpos hlost
        dsimp only
        rw [habs]
        ring
    rw [List.foldl_cons, ih, hrecord, List.map_cons, List.sum_cons, add_assoc]

theorem TradeStats.gross_ofTrades [Conventions] (trades : List (Trade ℚ)) :
    (ofTrades trades).grossProfit - (ofTrades trades).grossLoss =
      (trades.map Trade.profit).sum := by
  have hgross := gross_foldl_record .empty trades
  have hempty : (TradeStats.empty : TradeStats ℚ).grossProfit -
      (TradeStats.empty : TradeStats ℚ).grossLoss = 0 := sub_self _
  rwa [hempty, zero_add] at hgross

theorem neg_hundred_lt_profitability [Conventions] {initial final : ℚ} (hinitial : 0 < initial)
    (hfinal : 0 < final) : -100 < profitability initial final := by
  unfold profitability
  rw [if_pos hinitial, div_mul_eq_mul_div, lt_div_iff₀ hinitial]
  linarith

open Simulation

theorem pos_of_runBacktest [Conventions] {cfg : Config ℚ} {candlesOf : String → List (Candle ℚ)}
    {capital : ℚ} {r : BacktestResult ℚ} (h : runBacktest cfg candlesOf capital = .ok r) :
    0 < capital ∧ ∀ symbol ∈ cfg.symbols, ∀ c ∈ candlesOf symbol, 0 < c.close := by
  obtain ⟨hcapital, hvalid, _⟩ := runBacktest_eq_ok_iff.mp h
  refine ⟨not_le.mp hcapital.2, ?_⟩
  intro symbol hsymbol c hc
  exact not_le.mp (amounts_of_checkCandles (hvalid symbol hsymbol) c hc).2

theorem runBacktest_perm [Conventions] {cfg : Config ℚ} {candlesOf : String → List (Candle ℚ)}
    {capital : ℚ} {r : BacktestResult ℚ} {symbols : List String}
    (hrisk : cfg.risk.validate = .ok ()) (hperm : symbols.Perm cfg.symbols)
    (h : runBacktest cfg candlesOf capital = .ok r) :
    ∃ r', runBacktest { cfg with symbols } candlesOf capital = .ok r' ∧
      r'.finalCapital = r.finalCapital := by
  obtain ⟨hpos, hcs⟩ := pos_of_runBacktest h
  obtain ⟨hcapital, hvalid, rfl⟩ := runBacktest_eq_ok_iff.mp h
  have hstart := balanced_start cfg.risk hpos
  refine ⟨_, runBacktest_eq_ok_iff.mpr ⟨hcapital, ?_, rfl⟩, ?_⟩
  . intro symbol hsymbol
    exact hvalid symbol (hperm.mem_iff.mp hsymbol)
  . show (symbols.foldl (runSymbol { cfg with symbols } candlesOf) (.start capital)).capital =
      (cfg.symbols.foldl (runSymbol cfg candlesOf) (.start capital)).capital
    rw [runSymbol_withSymbols, capital_runSymbols hstart hrisk hpos hcs,
      capital_runSymbols hstart hrisk hpos, (hperm.map _).prod_eq]
    intro symbol hsymbol
    exact hcs symbol (hperm.mem_iff.mp hsymbol)

/--
The books of a backtest in exact arithmetic. A trade gains its proceeds less the share of the balance
that was staked in it, and the final capital is the product and the sum that this comes to. There is
always something left, so no fall is total. In what order the symbols come does not matter.
-/
theorem runBacktest_balance [Conventions] {cfg : Config ℚ} {candlesOf : String → List (Candle ℚ)}
    {capital : ℚ} {r : BacktestResult ℚ} (hrisk : cfg.risk.validate = .ok ())
    (h : runBacktest cfg candlesOf capital = .ok r) :
    (∀ k t, r.trades[k]? = some t → t.profit =
      t.proceeds - balance cfg.risk capital (r.trades.take k) * cfg.risk.positionSize / 100) ∧
    r.finalCapital = capital * (r.trades.map fun t =>
      1 + cfg.risk.positionSize / 100 * (t.exitPrice / t.entryPrice - 1)).prod ∧
    r.finalCapital = capital + (r.trades.map Trade.profit).sum ∧
    r.finalCapital = capital + r.stats.grossProfit - r.stats.grossLoss ∧
    (∀ state, Visits cfg candlesOf capital state →
      state.1.trades <+: r.trades ∧
      0 ≤ state.1.capital ∧
      (state.2 = none → 0 < state.1.capital ∧
        state.1.capital = balance cfg.risk capital state.1.trades) ∧
      ∀ held, state.2 = some held →
        held.notional = balance cfg.risk capital state.1.trades * cfg.risk.positionSize / 100 ∧
        state.1.capital = balance cfg.risk capital state.1.trades - held.notional) ∧
    0 ≤ r.maxDrawdown ∧ r.maxDrawdown < 100 ∧ -100 < r.profitability ∧
    ∀ symbols, symbols.Perm cfg.symbols →
      ∃ r', runBacktest { cfg with symbols } candlesOf capital = .ok r' ∧
        r'.finalCapital = r.finalCapital := by
  have hreordered (symbols : List String) (hperm : symbols.Perm cfg.symbols) :=
    runBacktest_perm hrisk hperm h
  obtain ⟨hpos, hcs⟩ := pos_of_runBacktest h
  obtain ⟨_, _, rfl⟩ := runBacktest_eq_ok_iff.mp h
  have hbooks := balanced_of_visits hrisk hpos hcs .atEnd
  have hproduct := hbooks.capital_eq
  have hsum := hproduct.trans hbooks.booked.balance_eq_add_sum
  refine ⟨?_, hproduct, hsum, ?_, ?_, hbooks.drawdown.nonneg, hbooks.drawdown.lt_hundred,
    neg_hundred_lt_profitability hpos (hbooks.capital_pos hrisk hpos), hreordered⟩
  . intro k t ht
    exact (hbooks.booked k t ht).profit
  . rw [add_sub_assoc]
    show _ = capital + ((TradeStats.ofTrades _).grossProfit - (TradeStats.ofTrades _).grossLoss)
    rw [TradeStats.gross_ofTrades]
    exact hsum
  . rintro ⟨acct, held?⟩ hstate
    have hvisited := balanced_of_visits hrisk hpos hcs hstate
    refine ⟨hstate.trades, hvisited.capital_nonneg hrisk hpos, ?_, ?_⟩
    . rintro ⟨⟩
      exact ⟨hvisited.capital_pos hrisk hpos, hvisited.capital_eq⟩
    . intro held hheld
      exact ⟨(hvisited.held held hheld).1, hvisited.capital_eq_of_held hheld⟩

section Sample

@[reducible]
def sampleConventions : Conventions where
  sqrt _ := 0
  infinity := 0
  text _ := ""

attribute [local instance] sampleConventions

def halfConfig (symbols : List String) : Config ℚ where
  name := "Half"
  description := none
  kind := .custom
  symbols
  timeframe := .day1
  indicators := [{ key := "sma", indicator := .sma 1 }]
  rules := {
    entry := [{ field := "sma", comparison := .greater, value := 105 }]
    exit := [{ field := "sma", comparison := .less, value := 105 }] }
  risk := { positionSize := 50, maxDrawdown := 50, stopLoss := none, takeProfit := none }

def candleOfClose (close : ℚ) (day : Nat) : Candle ℚ :=
  { time := { seconds := 86400 * day }, openPrice := close, high := close, low := close, close
    volume := 1 }

def halfCandles (symbol : String) : List (Candle ℚ) :=
  if symbol = "BTC" then [candleOfClose 110 0, candleOfClose 100 1]
  else [candleOfClose 110 0, candleOfClose 132 1]

theorem runBacktest_balance_half :
    ∃ r r', (halfConfig ["BTC", "ETH"]).risk.validate = .ok () ∧
      runBacktest (halfConfig ["BTC", "ETH"]) halfCandles 1100 = .ok r ∧
      runBacktest (halfConfig ["ETH", "BTC"]) halfCandles 1100 = .ok r' ∧
      r.trades.map Trade.profit = [-50, 105] ∧ r.finalCapital = 1155 ∧
      r.finalCapital = 1100 + r.stats.grossProfit - r.stats.grossLoss ∧
      r'.finalCapital = r.finalCapital := by
  have hresult : (runBacktest (halfConfig ["BTC", "ETH"]) halfCandles 1100).toOption.map
      (fun r => (r.trades.map Trade.profit, r.finalCapital)) = some ([-50, 105], 1155) := by
    decide +kernel
  obtain ⟨r, hr, hresult⟩ := exists_ok_of_toOption hresult
  rw [Prod.mk.injEq] at hresult
  have hrisk : (halfConfig ["BTC", "ETH"]).risk.validate = .ok () := rfl
  obtain ⟨_, _, _, hgross, _, _, _, _, horder⟩ := runBacktest_balance hrisk hr
  obtain ⟨r', hr', hsame⟩ := horder ["ETH", "BTC"] (.swap "BTC" "ETH" [])
  exact ⟨r, r', hrisk, hr, hr', hresult.1, hresult.2, hgross, hsame⟩

end Sample

end StrategyDesk
