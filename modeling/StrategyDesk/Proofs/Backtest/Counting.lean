import StrategyDesk.Proofs.Backtest.Rounds
import StrategyDesk.Proofs.Indicator.Counting

/-!
This module contains the backtest on counts of 64 bits. It is the one on unbounded counts, unless an
indicator cannot be computed.
-/

namespace StrategyDesk
namespace Counted

section Folds

variable {β σ : Type} {f : σ → β → Except Fault σ} {xs : List β}

theorem foldlM_eq_ok {g : σ → β → σ} (h : ∀ s, ∀ x ∈ xs, f s x = .ok (g s x)) (s : σ) :
    xs.foldlM f s = .ok (xs.foldl g s) := by
  induction xs generalizing s with
  | nil => rfl
  | cons x xs ih =>
    rw [List.foldlM_cons, h s x List.mem_cons_self]
    exact ih (fun s y hy => h s y (List.mem_cons_of_mem _ hy)) (g s x)

theorem foldlM_eq_error {fault : Fault} (hxs : xs ≠ []) (h : ∀ s, ∀ x ∈ xs, f s x = .error fault)
    (s : σ) : xs.foldlM f s = .error fault := by
  cases xs with
  | nil => exact absurd rfl hxs
  | cons x xs =>
    rw [List.foldlM_cons, h s x List.mem_cons_self]
    rfl

end Folds

variable {α : Type} [Arithmetic α] {cfg : Config α} {candlesOf : String → List (Candle α)}

theorem runSymbol_eq (hvalid : cfg.validate = .ok ()) {symbol : String}
    (hmax : (candlesOf symbol).length ≤ maxCount) (acct : Simulation.Account α) :
    runSymbol cfg candlesOf acct symbol =
      if ∀ ki ∈ cfg.indicators, ¬(ki.indicator.seesChanges = true ∧
        maxCount < ki.indicator.greatestSum) then
        .ok (Simulation.runSymbol cfg candlesOf acct symbol)
      else .error .overflow := by
  unfold runSymbol
  dsimp only
  rw [computeAll_eq hvalid hmax]
  split
  . rfl
  . rfl

/--
Unless the period of an RSI or an ATR is the greatest count, nothing overflows in a backtest.
Otherwise it ends with its first symbol, provided that the capital and the candles are in order.
-/
theorem runBacktest_eq (hvalid : cfg.validate = .ok ())
    (hmax : ∀ symbol ∈ cfg.symbols, (candlesOf symbol).length ≤ maxCount) (capital : α) :
    runBacktest cfg candlesOf capital =
      if ∀ ki ∈ cfg.indicators, ¬(ki.indicator.seesChanges = true ∧
        maxCount < ki.indicator.greatestSum) then
        .ok (StrategyDesk.runBacktest cfg candlesOf capital)
      else
        match Simulation.check cfg candlesOf capital with
        | .error f => .ok (.error f)
        | .ok () => .error .overflow := by
  unfold runBacktest StrategyDesk.runBacktest
  cases hcheck : Simulation.check cfg candlesOf capital with
  | error f => exact (ite_self _).symm
  | ok _ =>
    by_cases hfits : ∀ ki ∈ cfg.indicators, ¬(ki.indicator.seesChanges = true ∧
      maxCount < ki.indicator.greatestSum)
    . have hrun : ∀ acct, ∀ symbol ∈ cfg.symbols, runSymbol cfg candlesOf acct symbol =
          .ok (Simulation.runSymbol cfg candlesOf acct symbol) := by
        intro acct symbol hsymbol
        rw [runSymbol_eq hvalid (hmax symbol hsymbol), if_pos hfits]
      rw [if_pos hfits]
      dsimp only
      rw [foldlM_eq_ok hrun]
      rfl
    . have hrun : ∀ acct, ∀ symbol ∈ cfg.symbols,
          runSymbol cfg candlesOf acct symbol = .error .overflow := by
        intro acct symbol hsymbol
        rw [runSymbol_eq hvalid (hmax symbol hsymbol), if_neg hfits]
      have hsymbols : cfg.symbols ≠ [] := (Config.validate_eq_ok_iff.mp hvalid).2.1
      rw [if_neg hfits]
      dsimp only
      rw [foldlM_eq_error hsymbols hrun]
      rfl

theorem runBacktest_of_requiredCandles (hvalid : cfg.validate = .ok ()) {n : Nat}
    (hn : requiredCandles cfg = .ok n)
    (hmax : ∀ symbol ∈ cfg.symbols, (candlesOf symbol).length ≤ maxCount) (capital : α) :
    runBacktest cfg candlesOf capital = .ok (StrategyDesk.runBacktest cfg candlesOf capital) := by
  obtain ⟨hfits, _⟩ := requiredCandles_eq_ok_iff.mp hn
  rw [runBacktest_eq hvalid hmax, if_pos]
  intro ki hki hoverflow
  exact Nat.not_lt_of_le (hfits ki hki) hoverflow.2

example : runBacktest (strengthConfig maxCount) (fun _ => []) 1000 = .error .overflow := by
  rfl

end Counted
end StrategyDesk
