import StrategyDesk.Strategy.Config
import StrategyDesk.Proofs.Outcome
import Mathlib.Data.List.Nodup

/-!
This module contains what is known of configurations and indicators that are admitted.
-/

namespace StrategyDesk

variable {α : Type} [Arithmetic α]

namespace Indicator

variable {ind : Indicator α}

def HasPeriods (ind : Indicator α) : Prop :=
  ∀ p ∈ ind.periods, p.2 ≠ 0

omit [Arithmetic α] in
theorem hasPeriods_iff : ind.HasPeriods ↔
    match ind with
    | .sma period | .ema period | .rsi period | .atr period | .bollinger period _ => period ≠ 0
    | .macd fast slow signal => fast ≠ 0 ∧ slow ≠ 0 ∧ signal ≠ 0
    | .stochastic kPeriod dPeriod => kPeriod ≠ 0 ∧ dPeriod ≠ 0
    | .vwap => True := by
  cases ind <;> simp [HasPeriods, periods]

theorem validate_eq_ok_iff :
    ind.validate = .ok () ↔ ind.HasPeriods ∧ ind.complaint? = none := by
  unfold validate
  cases hfind : ind.periods.find? fun p => p.2 == 0 with
  | some p =>
    have hzero := List.find?_some hfind
    have hmem := List.mem_of_find?_eq_some hfind
    constructor
    . exact nofun
    . rintro ⟨hperiods, _⟩
      exact absurd (by simpa using hzero) (hperiods p hmem)
  | none =>
    have hperiods : ind.HasPeriods := by
      simpa [HasPeriods] using hfind
    cases ind.complaint? with
    | some f => simp
    | none => simpa using hperiods

theorem hasPeriods_of_validate (h : ind.validate = .ok ()) : ind.HasPeriods :=
  (validate_eq_ok_iff.mp h).1

end Indicator

theorem KeyedIndicator.validate_indicator {ki : KeyedIndicator α} (h : ki.validate = .ok ()) :
    ki.indicator.validate = .ok () := by
  unfold validate at h
  dsimp only at h
  split at h
  . cases h
  . split at h
    . cases h
    . exact h

namespace Risk

theorem checkPercent_eq_ok_iff {field : String} {value : α} {max : Nat} :
    checkPercent field value max = .ok () ↔ 0 < value ∧ value ≤ Arithmetic.ofNat max := by
  unfold checkPercent
  split
  . next hbounds =>
    simpa using hbounds
  . next hbounds =>
    simpa using hbounds

theorem checkPercents_eq_ok_iff {field : String} {value? : Option α} {max : Nat} :
    (value?.forM fun value => checkPercent field value max) = .ok () ↔
      ∀ value, value? = some value → 0 < value ∧ value ≤ Arithmetic.ofNat max := by
  cases value? with
  | none => simp [Option.forM, pure, Except.pure]
  | some value =>
    show checkPercent field value max = .ok () ↔ _
    simp [checkPercent_eq_ok_iff]

theorem validate_eq_ok_iff {risk : Risk α} :
    risk.validate = .ok () ↔
      (0 < risk.positionSize ∧ risk.positionSize ≤ 100) ∧
      (0 < risk.maxDrawdown ∧ risk.maxDrawdown ≤ 100) ∧
      (∀ percent, risk.stopLoss = some percent → 0 < percent ∧ percent ≤ 100) ∧
      ∀ percent, risk.takeProfit = some percent → 0 < percent ∧ percent ≤ 1000 := by
  unfold validate
  simp only [check_bind_eq_ok_iff, checkPercent_eq_ok_iff, checkPercents_eq_ok_iff]
  rfl

end Risk

namespace Config

variable {cfg : Config α} {ki : KeyedIndicator α}

theorem validate_of_checkIndicators {seen : List String} {kis : List (KeyedIndicator α)}
    (h : checkIndicators seen kis = .ok ()) (hki : ki ∈ kis) : ki.validate = .ok () := by
  induction kis generalizing seen with
  | nil => cases hki
  | cons first kis ih =>
    unfold checkIndicators at h
    cases hfirst : first.validate with
    | error f =>
      rw [hfirst] at h
      cases h
    | ok _ =>
      rw [hfirst] at h
      cases hki with
      | head => exact hfirst
      | tail _ hki =>
        by_cases hseen : seen.contains first.trimmedKey = true
        . rw [if_pos hseen] at h
          cases h
        . rw [if_neg hseen] at h
          exact ih h hki

omit [Arithmetic α] in
theorem nodup_of_checkSymbols {seen symbols : List String}
    (h : checkSymbols seen symbols = .ok ()) :
    (symbols.map Text.trimmed).Nodup ∧ ∀ symbol ∈ symbols, Text.trimmed symbol ∉ seen := by
  induction symbols generalizing seen with
  | nil => simp
  | cons first symbols ih =>
    unfold checkSymbols at h
    dsimp only at h
    split at h
    . cases h
    . split at h
      . cases h
      . next hseen =>
        obtain ⟨hnodup, hnew⟩ := ih h
        have hfirst : ∀ symbol ∈ symbols, Text.trimmed symbol ≠ Text.trimmed first := by
          intro symbol hsymbol heq
          exact hnew symbol hsymbol (by simp [heq])
        simp only [List.contains_eq_mem, decide_eq_true_eq] at hseen
        constructor
        . simpa [hnodup] using hfirst
        . rw [List.forall_mem_cons]
          refine ⟨hseen, ?_⟩
          intro symbol hsymbol hmem
          exact hnew symbol hsymbol (by simp [hmem])

theorem validate_eq_ok_iff :
    cfg.validate = .ok () ↔
      3 ≤ (Text.trim cfg.name.toList).length ∧ cfg.symbols ≠ [] ∧
      checkSymbols [] cfg.symbols = .ok () ∧ checkIndicators [] cfg.indicators = .ok () ∧
      cfg.rules.validate = .ok () ∧ cfg.risk.validate = .ok () := by
  unfold validate
  by_cases hname : (Text.trim cfg.name.toList).length < 3
  . rw [if_pos hname]
    constructor
    . exact nofun
    . intro h
      omega
  . rw [if_neg hname]
    cases hsymbols : cfg.symbols with
    | nil => simp [bind, Except.bind, throw, throwThe, MonadExceptOf.throw]
    | cons symbol symbols =>
      cases checkSymbols [] (symbol :: symbols) with
      | error f => simp [bind, Except.bind]
      | ok _ =>
        cases checkIndicators [] cfg.indicators with
        | error f => simp [bind, Except.bind]
        | ok _ =>
          cases cfg.rules.validate with
          | error f => simp [bind, Except.bind]
          | ok _ =>
            have hle : 3 ≤ (Text.trim cfg.name.toList).length := by omega
            simp [bind, Except.bind, hle]

theorem nodup_symbols (h : cfg.validate = .ok ()) : cfg.symbols.Nodup := by
  obtain ⟨_, _, hsymbols, _⟩ := validate_eq_ok_iff.mp h
  exact List.Nodup.of_map _ (nodup_of_checkSymbols hsymbols).1

theorem validate_indicator (h : cfg.validate = .ok ()) (hki : ki ∈ cfg.indicators) :
    ki.indicator.validate = .ok () := by
  obtain ⟨_, _, _, hindicators, _⟩ := validate_eq_ok_iff.mp h
  exact KeyedIndicator.validate_indicator (validate_of_checkIndicators hindicators hki)

end Config
end StrategyDesk
