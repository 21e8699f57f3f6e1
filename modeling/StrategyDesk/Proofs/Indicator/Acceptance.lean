import StrategyDesk.Count
import StrategyDesk.Proofs.Decimal.Comparison
import StrategyDesk.Proofs.Indicator.Printing

/-!
This module contains which texts are read as indicators: those that spell one. The name may be in
any case, and the numbers have to be as many as the parameters and have to stand for them.
-/

namespace StrategyDesk

open Text

/-! ## Names -/

theorem Text.sameLetters_iff {s t : List Char} :
    sameLetters s t = true ↔ upperAscii s = upperAscii t := by
  unfold sameLetters upperAscii
  rw [beq_iff_eq]
  constructor
  . intro h
    have h := congrArg (List.map Char.toUpper) h
    simpa [Function.comp_def] using h
  . intro h
    have h := congrArg (List.map Char.toLower) h
    simpa [Function.comp_def] using h

theorem Text.isWordChar_of_isAlpha {c : Char} (h : c.isAlpha = true) : isWordChar c = true := by
  have hlt : c.toNat < 0x80 := by
    simp only [Char.isAlpha, Char.isUpper, Char.isLower, Bool.or_eq_true, Bool.and_eq_true,
      decide_eq_true_eq] at h
    rcases h with ⟨_, hle⟩ | ⟨_, hle⟩
    . exact Nat.lt_of_le_of_lt hle (by decide)
    . exact Nat.lt_of_le_of_lt hle (by decide)
  simp [isWordChar, isAlphanumeric, hlt, Char.isAlphanum, h]

theorem Text.isWordChar_of_sameLetters {s t : List Char} (h : sameLetters s t = true)
    (ht : ∀ c ∈ t, c.isUpper = true) : ∀ c ∈ s, isWordChar c = true := by
  intro c hc
  have hmem : c.toLower ∈ t.map Char.toLower := by
    rw [← eq_of_beq h]
    exact List.mem_map_of_mem hc
  obtain ⟨d, hd, heq⟩ := List.mem_map.mp hmem
  apply isWordChar_of_isAlpha
  rw [← Char.isAlpha_toLower_eq_isAlpha, ← heq, Char.isAlpha_toLower_eq_isAlpha]
  simp [Char.isAlpha, ht d hd]

theorem Text.upperAscii_of_isUpper {s : List Char} (h : ∀ c ∈ s, c.isUpper = true) :
    upperAscii s = s := by
  have hc : ∀ c ∈ s, c.toUpper = c := fun c hc =>
    Char.toUpper_eq_of_not_isLower (Char.not_isLower_of_isUpper (h c hc))
  exact (List.map_congr_left hc).trans (List.map_id s)

namespace IndicatorFamily

def names : IndicatorFamily → List String
  | .sma => ["SMA"]
  | .ema => ["EMA"]
  | .rsi => ["RSI"]
  | .atr => ["ATR"]
  | .macd => ["MACD"]
  | .bollinger => ["BOLLINGER", "BB"]
  | .stochastic => ["STOCHASTIC", "STOCH"]
  | .vwap => ["VWAP"]

variable {family : IndicatorFamily} {s : String}

theorem ofName?_eq_some_iff : ofName? s = some family ↔ s ∈ family.names := by
  unfold ofName?
  split
  case h_11 => cases family <;> simp_all [names]
  all_goals cases family <;> simp [names]

theorem isUpper_of_mem_names (h : s ∈ family.names) : ∀ c ∈ s.toList, c.isUpper = true := by
  have hall : ∀ s ∈ family.names, s.toList.all Char.isUpper = true := by
    cases family <;> simp [names, Char.isUpper]
  exact List.all_eq_true.mp (hall s h)

theorem ofName?_upperAscii {name : List Char} :
    ofName? (String.ofList (upperAscii name)) = some family ↔
      ∃ s ∈ family.names, sameLetters name s.toList = true := by
  rw [ofName?_eq_some_iff]
  constructor
  . intro h
    have hupper := upperAscii_of_isUpper (isUpper_of_mem_names h)
    refine ⟨_, h, sameLetters_iff.mpr ?_⟩
    rw [hupper, String.toList_ofList]
  . rintro ⟨s, hs, hname⟩
    rw [sameLetters_iff.mp hname, upperAscii_of_isUpper (isUpper_of_mem_names hs),
      String.ofList_toList]
    exact hs

theorem isWord_of_sameLetters {name : List Char} (hs : s ∈ family.names)
    (h : sameLetters name s.toList = true) : Scan.IsWord name := by
  have hne : s.toList ≠ [] := by
    have hall : ∀ s ∈ family.names, s.toList ≠ [] := by
      cases family <;> simp [names]
    exact hall s hs
  refine ⟨?_, isWordChar_of_sameLetters h (isUpper_of_mem_names hs)⟩
  rintro rfl
  exact hne (List.length_eq_zero_iff.mp (length_eq_of_sameLetters h).symm)

end IndicatorFamily

namespace Indicator

variable {ind : Indicator Float} {n : Nat} {x : Float}

/-! ## Parameters -/

inductive Parameter where
  | period (n : Nat)
  | factor (k : Float)

def parameters : Indicator Float → List Parameter
  | .sma period | .ema period | .rsi period | .atr period => [.period period]
  | .macd fast slow signal => [.period fast, .period slow, .period signal]
  | .bollinger period k => [.period period, .factor k]
  | .stochastic kPeriod dPeriod => [.period kPeriod, .period dPeriod]
  | .vwap => []

/--
Whether a parameter is what a double stands for. Periods are whole numbers from one on, or the
greatest count if there is no such count.
-/
def StandsFor : Parameter → Float → Prop
  | .period n, x => ∃ whole : Nat, 1 ≤ whole ∧ Binary64.value? x = some (whole : ℚ) ∧
      n = min whole maxCount
  | .factor k, x => k = x

theorem periodOf_eq_ok_iff_standsFor {name : String} :
    periodOf name x = .ok n ↔ StandsFor (.period n) x :=
  periodOf_eq_ok_iff.trans Binary64.isWhole_iff_value

theorem ofArguments_eq_ok_iff {name : String} {family : IndicatorFamily} {xs : List Float} :
    ofArguments name family xs = .ok ind ↔
      ind.family = family ∧ List.Forall₂ StandsFor ind.parameters xs := by
  have hperiod {x : Float} {n : Nat} : periodOf name x = .ok n ↔ StandsFor (.period n) x :=
    periodOf_eq_ok_iff_standsFor
  constructor
  . intro h
    unfold ofArguments at h
    split at h
    case h_1 | h_2 | h_3 | h_4 =>
      obtain ⟨n, hn, ⟨⟩⟩ := bind_eq_ok_iff.mp h
      exact ⟨rfl, .cons (hperiod.mp hn) .nil⟩
    case h_5 =>
      obtain ⟨fast, hfast, h⟩ := bind_eq_ok_iff.mp h
      obtain ⟨slow, hslow, h⟩ := bind_eq_ok_iff.mp h
      obtain ⟨signal, hsignal, ⟨⟩⟩ := bind_eq_ok_iff.mp h
      refine ⟨rfl, .cons (hperiod.mp hfast) (.cons (hperiod.mp hslow) ?_)⟩
      exact .cons (hperiod.mp hsignal) .nil
    case h_6 =>
      obtain ⟨n, hn, ⟨⟩⟩ := bind_eq_ok_iff.mp h
      exact ⟨rfl, .cons (hperiod.mp hn) (.cons rfl .nil)⟩
    case h_7 =>
      obtain ⟨k, hk, h⟩ := bind_eq_ok_iff.mp h
      obtain ⟨d, hd, ⟨⟩⟩ := bind_eq_ok_iff.mp h
      exact ⟨rfl, .cons (hperiod.mp hk) (.cons (hperiod.mp hd) .nil)⟩
    case h_8 =>
      cases h
      exact ⟨rfl, .nil⟩
    case h_9 => cases h
  . rintro ⟨rfl, h⟩
    cases ind with
    | sma period | ema period | rsi period | atr period =>
      obtain _ | ⟨hx, _ | _⟩ := h
      exact bind_eq_ok_iff.mpr ⟨period, hperiod.mpr hx, rfl⟩
    | macd fast slow signal =>
      obtain _ | ⟨hfast, _ | ⟨hslow, _ | ⟨hsignal, _ | _⟩⟩⟩ := h
      apply bind_eq_ok_iff.mpr
      refine ⟨fast, hperiod.mpr hfast, bind_eq_ok_iff.mpr ⟨slow, hperiod.mpr hslow, ?_⟩⟩
      exact bind_eq_ok_iff.mpr ⟨signal, hperiod.mpr hsignal, rfl⟩
    | bollinger period k =>
      obtain _ | ⟨hx, _ | ⟨rfl, _ | _⟩⟩ := h
      exact bind_eq_ok_iff.mpr ⟨period, hperiod.mpr hx, rfl⟩
    | stochastic kPeriod dPeriod =>
      obtain _ | ⟨hk, _ | ⟨hd, _ | _⟩⟩ := h
      apply bind_eq_ok_iff.mpr
      exact ⟨kPeriod, hperiod.mpr hk, bind_eq_ok_iff.mpr ⟨dPeriod, hperiod.mpr hd, rfl⟩⟩
    | vwap =>
      obtain _ | _ := h
      rfl

theorem length_parameters (ind : Indicator Float) : ind.parameters.length = ind.family.arity := by
  cases ind <;> rfl

theorem mem_parameters_of_mem_periods {q : String × Nat} (h : q ∈ ind.periods) :
    .period q.2 ∈ ind.parameters := by
  cases ind with
  | vwap => cases h
  | _ =>
    simp only [periods, List.mem_cons, List.not_mem_nil, or_false] at h
    rcases h with rfl | rfl | rfl <;> simp [parameters]

theorem one_le_of_standsFor (h : StandsFor (.period n) x) : 1 ≤ n := by
  obtain ⟨whole, hone, _, rfl⟩ := h
  exact le_min hone (by decide)

theorem exists_standsFor {ps : List Parameter} {xs : List Float}
    (h : List.Forall₂ StandsFor ps xs) : ∀ p ∈ ps, ∃ x, StandsFor p x := by
  induction h with
  | nil => exact nofun
  | @cons p x _ _ hx _ ih => exact List.forall_mem_cons.mpr ⟨⟨x, hx⟩, ih⟩

theorem one_le_of_mem_periods {xs : List Float} (h : List.Forall₂ StandsFor ind.parameters xs) :
    ∀ q ∈ ind.periods, 1 ≤ q.2 := by
  intro q hq
  obtain ⟨x, hx⟩ := exists_standsFor h _ (mem_parameters_of_mem_periods hq)
  exact one_le_of_standsFor hx

/-! ## Spellings -/

structure Spelling where
  lead : List Char
  name : List Char
  arguments : List Char
  numbers : List Float
  trail : List Char

namespace Spelling

def text (w : Spelling) : List Char :=
  w.lead ++ (w.name ++ (w.arguments ++ w.trail))

structure Spells (w : Spelling) (ind : Indicator Float) : Prop where
  lead : allBlank w.lead = true
  name : ∃ s ∈ ind.family.names, sameLetters w.name s.toList = true
  arguments : Scan.AreArguments w.arguments w.numbers
  count : w.numbers.length = ind.family.arity
  numbers : List.Forall₂ StandsFor ind.parameters w.numbers
  trail : allBlank w.trail = true

end Spelling

/--
A text is read as an indicator exactly if it spells the indicator: a name of its family in any case,
and numbers in parentheses that stand for its parameters. The periods of what is read are not zero.
-/
theorem parse_iff_spells (t : List Char) (ind : Indicator Float) :
    (parse t = .ok ind ↔ ∃ w : Spelling, w.Spells ind ∧ t = w.text) ∧
    (parse t = .ok ind → ∀ q ∈ ind.periods, 1 ≤ q.2) := by
  have hiff : parse t = .ok ind ↔ ∃ w : Spelling, w.Spells ind ∧ t = w.text := by
    rw [parse_eq_ok_iff]
    constructor
    . rintro ⟨lead, name, text, xs, trail, family, hlead, _, htext, htrail, hfamily, hmade, rfl⟩
      obtain ⟨rfl, hxs⟩ := ofArguments_eq_ok_iff.mp hmade
      have hcount : xs.length = ind.family.arity := by
        rw [← length_parameters, hxs.length_eq]
      have hname := IndicatorFamily.ofName?_upperAscii.mp hfamily
      exact ⟨⟨lead, name, text, xs, trail⟩, ⟨hlead, hname, htext, hcount, hxs, htrail⟩, rfl⟩
    . rintro ⟨w, hw, rfl⟩
      obtain ⟨s, hs, hsame⟩ := hw.name
      refine ⟨w.lead, w.name, w.arguments, w.numbers, w.trail, ind.family, hw.lead,
        IndicatorFamily.isWord_of_sameLetters hs hsame, hw.arguments, hw.trail,
        IndicatorFamily.ofName?_upperAscii.mpr hw.name, ?_, rfl⟩
      exact ofArguments_eq_ok_iff.mpr ⟨rfl, hw.numbers⟩
  refine ⟨hiff, ?_⟩
  intro h
  obtain ⟨w, hw, _⟩ := hiff.mp h
  exact one_le_of_mem_periods hw.numbers

theorem parse_iff_spells_bands :
    ∃ ind w, parse " bb( 20 ,2.5 ) ".toList = .ok ind ∧ ind.text = "BOLLINGER(20,2.5)" ∧
      Spelling.Spells w ind ∧ " bb( 20 ,2.5 ) ".toList = w.text ∧ ∀ q ∈ ind.periods, 1 ≤ q.2 := by
  have hparsed : (parse " bb( 20 ,2.5 ) ".toList).toOption.map (fun ind => ind.text) =
      some "BOLLINGER(20,2.5)" := by
    decide +kernel
  obtain ⟨ind, hind, htext⟩ := exists_ok_of_toOption hparsed
  obtain ⟨hspelled, hperiods⟩ := parse_iff_spells " bb( 20 ,2.5 ) ".toList ind
  obtain ⟨w, hw, hwtext⟩ := hspelled.mp hind
  exact ⟨ind, w, hind, htext, hw, hwtext, hperiods hind⟩

end Indicator

end StrategyDesk
