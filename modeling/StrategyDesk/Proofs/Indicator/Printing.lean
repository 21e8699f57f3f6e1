import StrategyDesk.Proofs.Decimal.Plain
import StrategyDesk.Proofs.Indicator.Grammar
import StrategyDesk.Proofs.Strategy.Admission

/-!
This module contains that the texts of valid indicators are read back. Periods are printed as whole
numbers and read as doubles; those that were read as doubles before come back, also the greatest
count, which stands for all doubles beyond it.
-/

namespace StrategyDesk

open Text

/-! ## Whole numbers -/

namespace Decimal

variable (n : Nat)

theorem spells_digitsOf : Places.Spells ⟨digitsOf n, []⟩ (digitsOf n) :=
  .whole fun _ => isDigit_of_mem_digitsOf

theorem isEmpty_digitsOf : Places.isEmpty ⟨digitsOf n, []⟩ = false := by
  simp [Places.isEmpty, digitsOf_ne_nil]

theorem isNumeral_digitsOf : IsNumeral (digitsOf n) :=
  ⟨false, [], _, .none, isUnsigned_of_spells (spells_digitsOf n) (isEmpty_digitsOf n), rfl⟩

theorem read?_digitsOf : read? (digitsOf n) = some (Binary64.nearest false n 1) := by
  have hvalue : (n : ℚ) / (1 : Nat) = Places.value ⟨digitsOf n, []⟩ := by
    simp [Places.value, valueOf_digitsOf]
  rw [← Places.toFloat_eq false Nat.one_pos hvalue]
  exact read?_append .none (spells_digitsOf n) (isEmpty_digitsOf n)

end Decimal

namespace Binary64

theorem nearest_toCount {x : Float} (hwhole : isWhole x = true) (hne : toCount x ≠ 0)
    (hlt : toCount x ≠ Nat.pow 2 64 - 1) : nearest false (toCount x) 1 = x := by
  unfold isWhole at hwhole
  unfold toCount at hne hlt ⊢
  cases hx : ofFloat x with
  | finite negative mantissa exponent =>
    simp only [hx] at hwhole hne hlt ⊢
    cases negative with
    | true => exact absurd rfl hne
    | false =>
      have hmod := eq_of_beq hwhole
      have hvalue := fraction_two_value mantissa exponent
      have hpos := fraction_pos mantissa 2 exponent (by decide)
      obtain ⟨n, d, hfraction⟩ : ∃ n d, fraction mantissa 2 exponent = (n, d) := ⟨_, _, rfl⟩
      dsimp only at hlt ⊢
      rw [hfraction] at hmod hvalue hpos hlt ⊢
      dsimp only at hmod hvalue hpos hlt ⊢
      rw [Nat.min_eq_left (by omega)]
      apply nearest_of_ofFloat hx Nat.one_pos
      rw [Nat.cast_div (Nat.dvd_of_mod_eq_zero hmod) (by exact_mod_cast hpos.ne'), Nat.cast_one,
        div_one]
      exact hvalue
  | infinite negative => simp [hx] at hwhole
  | notANumber => simp [hx] at hwhole

end Binary64

namespace Indicator

variable {ind : Indicator Float}

/-! ## Periods -/

/-- Whether a count is that of a double that is taken for a period. -/
def IsPeriod (n : Nat) : Prop :=
  ∃ x : Float, Binary64.isWhole x = true ∧ 1 ≤ x ∧ Binary64.toCount x = n

theorem periodOf_eq_ok_iff {name : String} {x : Float} {n : Nat} :
    periodOf name x = .ok n ↔ Binary64.isWhole x = true ∧ 1 ≤ x ∧ Binary64.toCount x = n := by
  unfold periodOf
  split
  . next h =>
    simp only [Bool.and_eq_true, decide_eq_true_eq] at h
    simp [h]
  . next h =>
    simp only [Bool.and_eq_true, decide_eq_true_eq] at h
    constructor
    . rintro ⟨⟩
    . rintro ⟨hwhole, hle, _⟩
      exact absurd ⟨hwhole, hle⟩ h

theorem periodOf_nearest {n : Nat} (name : String) (h : IsPeriod n) (hne : n ≠ 0) :
    periodOf name (Binary64.nearest false n 1) = .ok n := by
  obtain ⟨x, hwhole, hle, rfl⟩ := h
  by_cases hmost : Binary64.toCount x = Nat.pow 2 64 - 1
  -- The greatest count is read as 2 ^ 64, whose count is the greatest one again.
  . rw [hmost, periodOf_eq_ok_iff]
    have hclosed : (Binary64.isWhole (Binary64.nearest false (Nat.pow 2 64 - 1) 1) &&
        decide (1 ≤ Binary64.nearest false (Nat.pow 2 64 - 1) 1) &&
        Binary64.toCount (Binary64.nearest false (Nat.pow 2 64 - 1) 1) == Nat.pow 2 64 - 1) = true := by
      decide +kernel
    simpa [and_assoc] using hclosed
  . rw [Binary64.nearest_toCount hwhole hne hmost, periodOf_eq_ok_iff]
    exact ⟨hwhole, hle, rfl⟩

theorem isPeriod_of_periodOf {name : String} {x : Float} {n : Nat}
    (h : periodOf name x = .ok n) : IsPeriod n :=
  ⟨x, periodOf_eq_ok_iff.mp h⟩

theorem isPeriod_of_ofArguments {name : String} {family : IndicatorFamily} {xs : List Float}
    (h : ofArguments name family xs = .ok ind) : ∀ q ∈ ind.periods, IsPeriod q.2 := by
  unfold ofArguments at h
  split at h
  case h_1 | h_2 | h_3 | h_4 | h_6 =>
    obtain ⟨n, hn, ⟨⟩⟩ := bind_eq_ok_iff.mp h
    simp [periods, isPeriod_of_periodOf hn]
  case h_5 =>
    obtain ⟨fast, hfast, h⟩ := bind_eq_ok_iff.mp h
    obtain ⟨slow, hslow, h⟩ := bind_eq_ok_iff.mp h
    obtain ⟨signal, hsignal, ⟨⟩⟩ := bind_eq_ok_iff.mp h
    simp [periods, isPeriod_of_periodOf hfast, isPeriod_of_periodOf hslow,
      isPeriod_of_periodOf hsignal]
  case h_7 =>
    obtain ⟨k, hk, h⟩ := bind_eq_ok_iff.mp h
    obtain ⟨d, hd, ⟨⟩⟩ := bind_eq_ok_iff.mp h
    simp [periods, isPeriod_of_periodOf hk, isPeriod_of_periodOf hd]
  case h_8 =>
    cases h
    simp [periods]
  case h_9 => cases h

/-! ## Arguments -/

def arguments : Indicator Float → List (List Char × Float)
  | .sma period | .ema period | .rsi period | .atr period => [ofPeriod period]
  | .macd fast slow signal => [ofPeriod fast, ofPeriod slow, ofPeriod signal]
  | .bollinger period k => [ofPeriod period, ((Decimal.plain k).toList, k)]
  | .stochastic kPeriod dPeriod => [ofPeriod kPeriod, ofPeriod dPeriod]
  | .vwap => []
where
  ofPeriod (n : Nat) : List Char × Float := (Decimal.digitsOf n, Binary64.nearest false n 1)

def family : Indicator Float → IndicatorFamily
  | .sma .. => .sma
  | .ema .. => .ema
  | .rsi .. => .rsi
  | .macd .. => .macd
  | .bollinger .. => .bollinger
  | .stochastic .. => .stochastic
  | .atr .. => .atr
  | .vwap => .vwap

def argumentText : List (List Char) → List Char
  | [] => []
  | numerals => '(' :: ([','].intercalate numerals ++ [')'])

theorem text_eq (ind : Indicator Float) :
    ind.text.toList = ind.name.toList ++ argumentText (ind.arguments.map Prod.fst) := by
  cases ind <;>
    simp [text, name, arguments, arguments.ofPeriod, argumentText, Decimal.digitsOf, toString,
      List.intercalate, Arithmetic.text]

theorem isWord_name (ind : Indicator Float) : Scan.IsWord ind.name.toList := by
  cases ind <;> simp [name, Scan.IsWord, isWordChar, isAlphanumeric, Char.isAlphanum, Char.isAlpha,
    Char.isUpper]

theorem upperAscii_name (ind : Indicator Float) : upperAscii ind.name.toList = ind.name.toList := by
  cases ind <;> dsimp only [name] <;> decide

theorem ofName?_name (ind : Indicator Float) :
    IndicatorFamily.ofName? ind.name = some ind.family := by
  cases ind <;> rfl

structure IsReadable (ind : Indicator Float) : Prop where
  period : ∀ q ∈ ind.periods, IsPeriod q.2 ∧ q.2 ≠ 0
  finite : ∀ period k, ind = .bollinger period k → Arithmetic.isFinite k = true

theorem IsReadable.ofArguments_eq (h : ind.IsReadable) :
    ofArguments ind.name ind.family (ind.arguments.map Prod.snd) = .ok ind := by
  have hperiod : ∀ q ∈ ind.periods,
      periodOf ind.name (Binary64.nearest false q.2 1) = .ok q.2 := by
    intro q hq
    exact periodOf_nearest ind.name (h.period q hq).1 (h.period q hq).2
  cases ind <;> simp [periods] at hperiod <;>
    simp [ofArguments, arguments, arguments.ofPeriod, family, hperiod] <;> rfl

theorem IsReadable.spelled (h : ind.IsReadable) :
    ∀ a ∈ ind.arguments, Decimal.IsNumeral a.1 ∧ Decimal.read? a.1 = some a.2 := by
  have hperiod : ∀ n, Decimal.IsNumeral (arguments.ofPeriod n).1 ∧
      Decimal.read? (arguments.ofPeriod n).1 = some (arguments.ofPeriod n).2 := by
    intro n
    exact ⟨Decimal.isNumeral_digitsOf n, Decimal.read?_digitsOf n⟩
  cases ind with
  | bollinger period k =>
    have hk := h.finite period k rfl
    simp [arguments, hperiod, Decimal.isNumeral_plain hk, Decimal.read?_plain hk]
  | _ => simp [arguments, hperiod]

theorem areNumbers_intercalate {args : List (List Char × Float)} (hne : args ≠ [])
    (h : ∀ a ∈ args, Decimal.IsNumeral a.1 ∧ Decimal.read? a.1 = some a.2) :
    Scan.AreNumbers ([','].intercalate (args.map Prod.fst)) (args.map Prod.snd) := by
  induction args with
  | nil => exact absurd rfl hne
  | cons a args ih =>
    rw [List.forall_mem_cons] at h
    obtain ⟨⟨hnumeral, hx⟩, hothers⟩ := h
    cases hargs : args with
    | nil =>
      rw [List.map_singleton, List.intercalate_singleton]
      exact Scan.AreNumbers.one List.all_nil hnumeral hx
    | cons b others =>
      have htext := ih (by simp [hargs]) hothers
      rw [hargs] at htext
      simp only [List.map_cons, List.intercalate_cons_cons, List.append_assoc] at htext ⊢
      exact Scan.AreNumbers.more List.all_nil hnumeral hx List.all_nil htext

theorem areArguments_argumentText {args : List (List Char × Float)}
    (h : ∀ a ∈ args, Decimal.IsNumeral a.1 ∧ Decimal.read? a.1 = some a.2) :
    Scan.AreArguments (argumentText (args.map Prod.fst)) (args.map Prod.snd) := by
  cases args with
  | nil => exact .none
  | cons a args =>
    exact Scan.AreArguments.numbers List.all_nil (areNumbers_intercalate (by simp) h) List.all_nil

theorem IsReadable.parse_text (h : ind.IsReadable) : parse ind.text.toList = .ok ind := by
  have hname : String.ofList (upperAscii ind.name.toList) = ind.name := by
    rw [upperAscii_name, String.ofList_toList]
  have hparse : parse ([] ++ (ind.name.toList ++
      (argumentText (ind.arguments.map Prod.fst) ++ []))) = .ok ind :=
    parse_append List.all_nil (isWord_name ind) (areArguments_argumentText h.spelled) List.all_nil
      (hname.symm ▸ ofName?_name ind) (hname.symm ▸ h.ofArguments_eq)
  rwa [List.nil_append, List.append_nil, ← text_eq] at hparse

theorem isReadable_of_parse {s : List Char} (h : parse s = .ok ind)
    (hvalid : ind.validate = .ok ()) : ind.IsReadable := by
  obtain ⟨_, _, _, _, _, _, _, _, _, _, _, hmade, _⟩ := parse_eq_ok_iff.mp h
  obtain ⟨hperiods, hcomplaint⟩ := validate_eq_ok_iff.mp hvalid
  constructor
  . intro q hq
    exact ⟨isPeriod_of_ofArguments hmade q hq, hperiods q hq⟩
  . rintro period k rfl
    by_contra hinfinite
    simp [complaint?, hinfinite] at hcomplaint

/-- The text of a valid indicator that was read is read as the same indicator again. -/
theorem parse_printed {s : List Char} (h : parse s = .ok ind) (hvalid : ind.validate = .ok ()) :
    parse ind.text.toList = .ok ind :=
  (isReadable_of_parse h hvalid).parse_text

theorem parse_printed_most :
    ∃ ind, parse " bb( 99999999999999999999 , +.50)".toList = .ok ind ∧ ind.validate = .ok () ∧
      parse "BOLLINGER(18446744073709551615,0.5)".toList = .ok ind := by
  have htext : (parse " bb( 99999999999999999999 , +.50)".toList).toOption.map
      (fun ind => (ind.text, ind.validate.toOption)) =
        some ("BOLLINGER(18446744073709551615,0.5)", some ()) := by
    decide +kernel
  obtain ⟨ind, hind, htext⟩ := exists_ok_of_toOption htext
  simp only [Prod.mk.injEq] at htext
  have hvalid : ind.validate = .ok () := by
    cases hv : ind.validate with
    | ok u => rfl
    | error e => simp [hv, Except.toOption] at htext
  refine ⟨ind, hind, hvalid, ?_⟩
  rw [← htext.1]
  exact parse_printed hind hvalid

end Indicator
end StrategyDesk
