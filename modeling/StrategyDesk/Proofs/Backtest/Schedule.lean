import StrategyDesk.Proofs.Backtest.Balance

/-!
This module contains what the trades in a symbol do not depend on: the capital, the share of it that
is staked, and the other symbols. When a position is entered and left is up to the candles of its
symbol alone, as long as there is something to stake.
-/

namespace StrategyDesk

/-- What a trade tells apart from how much was staked in it. -/
structure Episode (α : Type) where
  entryTime : Instant
  entryPrice : α
  exitTime : Instant
  exitPrice : α
  profitPercent : α
  exitReason : ExitReason

variable {α : Type}

def Trade.episode (t : Trade α) : Episode α where
  entryTime := t.entryTime
  entryPrice := t.entryPrice
  exitTime := t.exitTime
  exitPrice := t.exitPrice
  profitPercent := t.profitPercent
  exitReason := t.exitReason

def episodesOf (symbol : String) (trades : List (Trade α)) : List (Episode α) :=
  (trades.filter fun t => t.symbol == symbol).map Trade.episode

section Episodes

variable {symbol : String} {trades more : List (Trade α)}

theorem episodesOf_append :
    episodesOf symbol (trades ++ more) = episodesOf symbol trades ++ episodesOf symbol more := by
  unfold episodesOf
  rw [List.filter_append, List.map_append]

theorem episodesOf_of_ne (h : ∀ t ∈ more, t.symbol ≠ symbol) : episodesOf symbol more = [] := by
  unfold episodesOf
  rw [List.map_eq_nil_iff, List.filter_eq_nil_iff]
  intro t ht
  simpa using h t ht

end Episodes

variable [Arithmetic α]

def Position.unsized (p : Position α) : Position α :=
  { p with quantity := 0 }

section Unsized

variable {p p' : Position α} {symbol : String} {price stake stake' : α} {time : Instant}
  {reason : ExitReason} {stopLoss takeProfit : Option α}

theorem Position.unsized_eq_iff : p'.unsized = p.unsized ↔
    p'.symbol = p.symbol ∧ p'.entryPrice = p.entryPrice ∧ p'.entryTime = p.entryTime ∧
      p'.stopLoss = p.stopLoss ∧ p'.takeProfit = p.takeProfit := by
  simp [unsized]

theorem Position.unsized_enter :
    (enter symbol price stake time stopLoss takeProfit).unsized =
      (enter symbol price stake' time stopLoss takeProfit).unsized :=
  rfl

theorem Position.hits_of_unsized (h : p'.unsized = p.unsized) (price : α) :
    p'.hitsStopLoss price = p.hitsStopLoss price ∧
      p'.hitsTakeProfit price = p.hitsTakeProfit price := by
  obtain ⟨_, _, _, hstop, hprofit⟩ := unsized_eq_iff.mp h
  unfold hitsStopLoss hitsTakeProfit
  rw [hstop, hprofit]
  exact ⟨rfl, rfl⟩

theorem Position.episodesOf_close_of_unsized (h : p'.unsized = p.unsized) :
    episodesOf symbol [p'.close price time reason] =
      episodesOf symbol [p.close price time reason] := by
  obtain ⟨hsymbol, hprice, htime, _⟩ := unsized_eq_iff.mp h
  simp only [episodesOf, close, List.filter_singleton, hsymbol, hprice, htime]
  cases p.symbol == symbol with
  | true => rfl
  | false => rfl

end Unsized

namespace Simulation

/-- Whether two configurations tell to enter and to leave at the same candles. -/
structure SameRules (cfg cfg' : Config α) : Prop where
  indicators : cfg'.indicators = cfg.indicators
  rules : cfg'.rules = cfg.rules
  stopLoss : cfg'.risk.stopLoss = cfg.risk.stopLoss
  takeProfit : cfg'.risk.takeProfit = cfg.risk.takeProfit

def Refuses (cfg : Config α) (set : SeriesSet α) (i : Nat) (state : State α) : Prop :=
  state.2 = none ∧ cfg.rules.entersAt set i = true ∧ state.1.stake cfg.risk ≤ 0

instance (cfg : Config α) (set : SeriesSet α) (i : Nat) (state : State α) :
    Decidable (Refuses cfg set i state) :=
  inferInstanceAs (Decidable (state.2 = none ∧ _ ∧ _))

def accountBefore (cfg : Config α) (candlesOf : String → List (Candle α)) (capital : α)
    (symbol : String) : Account α :=
  (cfg.symbols.takeWhile (· != symbol)).foldl (runSymbol cfg candlesOf) (.start capital)

/-- Whether an entry is passed over at one of the candles of a symbol. -/
def Suppresses (cfg : Config α) (candlesOf : String → List (Candle α)) (capital : α)
    (symbol : String) : Prop :=
  ∃ i < (candlesOf symbol).length, Refuses cfg (.compute cfg.indicators (candlesOf symbol)) i
    (replay cfg symbol (.compute cfg.indicators (candlesOf symbol)) 0
      (accountBefore cfg candlesOf capital symbol, none) ((candlesOf symbol).take i))

instance (cfg : Config α) (candlesOf : String → List (Candle α)) (capital : α)
    (symbol : String) : Decidable (Suppresses cfg candlesOf capital symbol) :=
  inferInstanceAs (Decidable (∃ i < _, _))

structure SameCourse (symbol : String) (state state' : State α) : Prop where
  episodes : episodesOf symbol state'.1.trades = episodesOf symbol state.1.trades
  held : (state'.2.map fun held => held.position.unsized) =
    state.2.map fun held => held.position.unsized

section Course

variable {cfg cfg' : Config α} {symbol : String} {set : SeriesSet α} {acct acct' : Account α}
  {held held' : Holding α} {state state' : State α} {c : Candle α} {cs : List (Candle α)} {i : Nat}

theorem exitReason?_of_unsized (hrules : SameRules cfg cfg')
    (h : held'.position.unsized = held.position.unsized) (set : SeriesSet α) (i : Nat) (price : α) :
    exitReason? cfg' set held'.position i price = exitReason? cfg set held.position i price := by
  obtain ⟨hstop, hprofit⟩ := Position.hits_of_unsized h price
  unfold exitReason?
  rw [hstop, hprofit, hrules.rules]

theorem sameCourse_enter (hrules : SameRules cfg cfg')
    (h : episodesOf symbol acct'.trades = episodesOf symbol acct.trades) (stake stake' : α) :
    SameCourse symbol
      ((acct.enter symbol cfg.risk c stake).1, some (acct.enter symbol cfg.risk c stake).2)
      ((acct'.enter symbol cfg'.risk c stake').1, some (acct'.enter symbol cfg'.risk c stake').2) := by
  constructor
  . exact h
  . simp only [Account.enter, hrules.stopLoss, hrules.takeProfit, Option.map_some]
    rw [Position.unsized_enter]

theorem episodesOf_leave (h : SameCourse symbol (acct, some held) (acct', some held'))
    (reason : ExitReason) :
    episodesOf symbol (acct'.leave held' c reason).trades =
      episodesOf symbol (acct.leave held c reason).trades := by
  have hepisodes : episodesOf symbol acct'.trades = episodesOf symbol acct.trades := h.episodes
  have hheld : held'.position.unsized = held.position.unsized := Option.some.inj h.held
  unfold Account.leave
  dsimp only
  rw [episodesOf_append, episodesOf_append, hepisodes, Position.episodesOf_close_of_unsized hheld]

theorem SameCourse.step (h : SameCourse symbol state state') (hrules : SameRules cfg cfg')
    (hstaked : ¬ Refuses cfg set i state) (hstaked' : ¬ Refuses cfg' set i state') :
    SameCourse symbol (step cfg symbol set i c state) (step cfg' symbol set i c state') := by
  rcases state with ⟨acct, none | held⟩ <;> rcases state' with ⟨acct', none | held'⟩
  . -- nothing is held, and both have something to stake if the rules enter
    cases henters : cfg.rules.entersAt set i with
    | true =>
      have henters' : cfg'.rules.entersAt set i = true := by
        rw [hrules.rules]
        exact henters
      have hstake : ¬ acct.stake cfg.risk ≤ 0 := fun hle => hstaked ⟨rfl, henters, hle⟩
      have hstake' : ¬ acct'.stake cfg'.risk ≤ 0 := fun hle => hstaked' ⟨rfl, henters', hle⟩
      simp only [Simulation.step, henters, henters', hstake, hstake', decide_false, Bool.not_false,
        Bool.and_self, if_true]
      exact sameCourse_enter hrules h.episodes _ _
    | false =>
      simp only [Simulation.step, hrules.rules, henters, Bool.false_and]
      exact h
  . cases h.held
  . cases h.held
  . have hheld : held'.position.unsized = held.position.unsized := Option.some.inj h.held
    have hreason := exitReason?_of_unsized hrules hheld set i c.close
    unfold Simulation.step
    dsimp only
    rw [hreason]
    split
    . next reason _ => exact ⟨episodesOf_leave h reason, rfl⟩
    . exact h

theorem SameCourse.replay (h : SameCourse symbol state state') (hrules : SameRules cfg cfg')
    (hstaked : ∀ k < cs.length,
      ¬ Refuses cfg set (i + k) (replay cfg symbol set i state (cs.take k)))
    (hstaked' : ∀ k < cs.length,
      ¬ Refuses cfg' set (i + k) (replay cfg' symbol set i state' (cs.take k))) :
    SameCourse symbol (replay cfg symbol set i state cs) (replay cfg' symbol set i state' cs) := by
  induction cs generalizing i state state' with
  | nil => exact h
  | cons c cs ih =>
    have hfirst : ¬ Refuses cfg set i state := hstaked 0 (Nat.succ_pos _)
    have hfirst' : ¬ Refuses cfg' set i state' := hstaked' 0 (Nat.succ_pos _)
    apply ih (h.step hrules hfirst hfirst')
    . intro k hk
      rw [Nat.add_right_comm]
      exact hstaked (k + 1) (Nat.succ_lt_succ hk)
    . intro k hk
      rw [Nat.add_right_comm]
      exact hstaked' (k + 1) (Nat.succ_lt_succ hk)

theorem SameCourse.settle (h : SameCourse symbol state state') :
    episodesOf symbol (settle cs state').trades = episodesOf symbol (settle cs state).trades := by
  rcases state with ⟨acct, none | held⟩ <;> rcases state' with ⟨acct', none | held'⟩
  . rw [settle_of_none, settle_of_none]
    exact h.episodes
  . cases h.held
  . cases h.held
  . cases hlast : cs.getLast? with
    | none =>
      simp only [Simulation.settle, hlast]
      exact h.episodes
    | some last =>
      rw [settle_of_some hlast, settle_of_some hlast]
      exact episodesOf_leave h _

end Course

/-! ## The other symbols -/

section Symbols

variable {cfg : Config α} {candlesOf : String → List (Candle α)} {symbol : String}
  {symbols before after : List String}

theorem episodesOf_runSymbol_of_ne {other : String} (hother : other ≠ symbol) (acct : Account α) :
    episodesOf symbol (runSymbol cfg candlesOf acct other).trades =
      episodesOf symbol acct.trades := by
  obtain ⟨more, hmore, hall⟩ := runSymbol_trades cfg candlesOf acct other
  have hnone : episodesOf symbol more = [] := by
    apply episodesOf_of_ne
    intro t ht
    rw [hall t ht]
    exact hother
  rw [hmore, episodesOf_append, hnone, List.append_nil]

theorem episodesOf_runSymbols_of_notMem (hsymbol : symbol ∉ symbols) (acct : Account α) :
    episodesOf symbol (symbols.foldl (runSymbol cfg candlesOf) acct).trades =
      episodesOf symbol acct.trades := by
  induction symbols generalizing acct with
  | nil => rfl
  | cons other symbols ih =>
    rw [List.mem_cons, not_or] at hsymbol
    rw [List.foldl_cons, ih hsymbol.2, episodesOf_runSymbol_of_ne (Ne.symm hsymbol.1)]

theorem exists_append_takeWhile (h : symbol ∈ symbols) :
    ∃ after, symbols = symbols.takeWhile (· != symbol) ++ symbol :: after := by
  induction symbols with
  | nil => cases h
  | cons first symbols ih =>
    by_cases hfirst : first = symbol
    . subst hfirst
      exact ⟨symbols, by simp⟩
    . have hlater : symbol ∈ symbols := by simpa [Ne.symm hfirst] using h
      obtain ⟨after, hsymbols⟩ := ih hlater
      have htake : (first :: symbols).takeWhile (· != symbol) =
          first :: symbols.takeWhile (· != symbol) := by
        simp [hfirst]
      refine ⟨after, ?_⟩
      rw [htake, List.cons_append, ← hsymbols]

theorem exists_once (h : symbols.count symbol = 1) :
    ∃ after, symbols = symbols.takeWhile (· != symbol) ++ symbol :: after ∧ symbol ∉ after := by
  have hmem : symbol ∈ symbols := List.count_pos_iff.mp (by omega)
  obtain ⟨after, hsymbols⟩ := exists_append_takeWhile hmem
  refine ⟨after, hsymbols, ?_⟩
  rw [hsymbols, List.count_append, List.count_cons_self] at h
  exact List.count_eq_zero.mp (by omega)

theorem episodesOf_runBacktest {capital : α} {r : BacktestResult α}
    (h : runBacktest cfg candlesOf capital = .ok r) (honce : cfg.symbols.count symbol = 1) :
    episodesOf symbol r.trades = episodesOf symbol (settle (candlesOf symbol)
      (replay cfg symbol (.compute cfg.indicators (candlesOf symbol)) 0
        (accountBefore cfg candlesOf capital symbol, none) (candlesOf symbol))).trades := by
  obtain ⟨after, hsymbols, hafter⟩ := exists_once honce
  have htrades : r.trades =
      (cfg.symbols.foldl (runSymbol cfg candlesOf) (.start capital)).trades := by
    rw [runBacktest_eq_ok h]
    rfl
  rw [htrades, hsymbols, List.foldl_append, List.foldl_cons, episodesOf_runSymbols_of_notMem hafter,
    runSymbol_eq]
  rfl

theorem episodesOf_accountBefore (cfg : Config α) (candlesOf : String → List (Candle α))
    (capital : α) (symbol : String) :
    episodesOf symbol (accountBefore cfg candlesOf capital symbol).trades = [] := by
  unfold accountBefore
  rw [episodesOf_runSymbols_of_notMem]
  . rfl
  . intro hmem
    simpa using List.mem_takeWhile_imp hmem

end Symbols

theorem not_suppresses [Conventions] {cfg : Config ℚ} {candlesOf : String → List (Candle ℚ)}
    {capital : ℚ} {r : BacktestResult ℚ} {symbol : String} (hrisk : cfg.risk.validate = .ok ())
    (h : runBacktest cfg candlesOf capital = .ok r) (hsymbol : symbol ∈ cfg.symbols) :
    ¬ Suppresses cfg candlesOf capital symbol := by
  obtain ⟨hpos, hcs⟩ := pos_of_runBacktest h
  obtain ⟨after, hsymbols⟩ := exists_append_takeWhile hsymbol
  rintro ⟨i, _, hnothing, _, hstake⟩
  have hbooks : Balanced cfg.risk capital (replay cfg symbol
      (.compute cfg.indicators (candlesOf symbol)) 0 (accountBefore cfg candlesOf capital symbol, none)
      ((candlesOf symbol).take i)) :=
    balanced_of_visits hrisk hpos hcs
      (.during hsymbols (List.take_append_drop i (candlesOf symbol)).symm)
  generalize replay cfg symbol (.compute cfg.indicators (candlesOf symbol)) 0
    (accountBefore cfg candlesOf capital symbol, none) ((candlesOf symbol).take i) = state
    at hbooks hnothing hstake
  rcases state with ⟨acct, held⟩
  obtain rfl : held = none := hnothing
  have hcapital : 0 < acct.capital := hbooks.capital_pos hrisk hpos
  have hsize := (positionSize_of_validate hrisk).1
  have hstake : acct.capital * cfg.risk.positionSize / 100 ≤ 0 := hstake
  have hpositive : 0 < acct.capital * cfg.risk.positionSize / 100 := by positivity
  exact hstake.not_gt hpositive

end Simulation

open Simulation

/--
When a symbol is traded depends on its candles and on the rules alone, as long as no entry is passed
over for want of a stake. The capital, the share of it that is staked, and the other symbols with
their candles and their order may be any.
-/
theorem runBacktest_schedule {cfg cfg' : Config α} {candlesOf candlesOf' : String → List (Candle α)}
    {capital capital' : α} {r r' : BacktestResult α} {symbol : String}
    (h : runBacktest cfg candlesOf capital = .ok r)
    (h' : runBacktest cfg' candlesOf' capital' = .ok r') (hrules : SameRules cfg cfg')
    (honce : cfg.symbols.count symbol = 1) (honce' : cfg'.symbols.count symbol = 1)
    (hcandles : candlesOf' symbol = candlesOf symbol)
    (hstaked : ¬ Suppresses cfg candlesOf capital symbol)
    (hstaked' : ¬ Suppresses cfg' candlesOf' capital' symbol) :
    episodesOf symbol r'.trades = episodesOf symbol r.trades := by
  rw [episodesOf_runBacktest h honce, episodesOf_runBacktest h' honce', hrules.indicators, hcandles]
  have hstart : SameCourse symbol (accountBefore cfg candlesOf capital symbol, none)
      (accountBefore cfg' candlesOf' capital' symbol, none) := by
    constructor
    . rw [episodesOf_accountBefore, episodesOf_accountBefore]
    . rfl
  apply SameCourse.settle
  apply hstart.replay hrules
  . intro k hk hrefused
    rw [Nat.zero_add] at hrefused
    exact hstaked ⟨k, hk, hrefused⟩
  . intro k hk hrefused
    rw [Nat.zero_add] at hrefused
    apply hstaked'
    unfold Suppresses
    rw [hcandles, hrules.indicators]
    exact ⟨k, hk, hrefused⟩

theorem runBacktest_schedule_crossing :
    ∃ r r', runBacktest (crossingConfig ["BTC"])
        (fun _ => candlesOfCloses [100, 110, 120, 100, 110]) 1000 = .ok r ∧
      runBacktest { crossingConfig ["ETH", "BTC"] with
          risk := { positionSize := 50, maxDrawdown := 20, stopLoss := none, takeProfit := none } }
        (fun symbol => if symbol = "BTC" then candlesOfCloses [100, 110, 120, 100, 110]
          else candlesOfCloses [110, 90]) 70 = .ok r' ∧
      r.trades.length = 2 ∧ r'.trades.length = 3 ∧
      episodesOf "BTC" r'.trades = episodesOf "BTC" r.trades := by
  have hlength : (runBacktest (crossingConfig ["BTC"])
      (fun _ => candlesOfCloses [100, 110, 120, 100, 110]) 1000).toOption.map
        (fun r => r.trades.length) = some 2 := by
    decide +kernel
  have hlength' : (runBacktest { crossingConfig ["ETH", "BTC"] with
          risk := { positionSize := 50, maxDrawdown := 20, stopLoss := none, takeProfit := none } }
        (fun symbol => if symbol = "BTC" then candlesOfCloses [100, 110, 120, 100, 110]
          else candlesOfCloses [110, 90]) 70).toOption.map (fun r => r.trades.length) = some 3 := by
    decide +kernel
  obtain ⟨r, hr, hlength⟩ := exists_ok_of_toOption hlength
  obtain ⟨r', hr', hlength'⟩ := exists_ok_of_toOption hlength'
  refine ⟨r, r', hr, hr', hlength, hlength', ?_⟩
  apply runBacktest_schedule hr hr'
  . exact ⟨rfl, rfl, rfl, rfl⟩
  . decide
  . decide
  . rfl
  . decide +kernel
  . decide +kernel

end StrategyDesk
