import StrategyDesk.Proofs.Indicator.Acceptance
import StrategyDesk.Proofs.Rule.Grammar
import StrategyDesk.Proofs.Text.Positions

/-!
This module contains where the scanners notice what is wrong with a text. A fault lies at the end of
some part of the text, never at a blank, and its problem is one with what comes next: what the
message says was found stands there, and what it says was expected does not.
-/

namespace StrategyDesk

open Text

/-! ## Problems -/

def Text.StartsWithName (s : List Char) (name : String) : Prop :=
  ¬Stops isWordChar s ∧ name = String.ofList (upperAscii (leadingWord s))

def Problem.Concerns : Problem → List Char → Prop
  | .expectedField found, s | .expectedSubField found, s | .expectedIndicatorName found, s =>
    found = .ofText s ∧ Stops isWordChar s
  | .expectedOperator found, s =>
    found = .ofText s ∧
      ∀ (c : Comparison) symbol rest, c.Fits symbol rest → s ≠ symbol ++ rest
  | .expectedNumber, s => ∀ numeral rest, Decimal.IsNumeral numeral → s ≠ numeral ++ rest
  | .expectedChar c found, s => found = s.head? ∧ found ≠ some c
  | .trailingInput found, s => found = .ofText s ∧ s ≠ []
  | .wrongArity name expected found, s =>
    StartsWithName s name ∧ found ≠ expected ∧
      ∃ family, IndicatorFamily.ofName? name = some family ∧ expected = family.arity
  | .unusablePeriod name x, s =>
    StartsWithName s name ∧ ∀ n, ¬Indicator.StandsFor (.period n) x
  | .unknownIndicator name, s => StartsWithName s name ∧ IndicatorFamily.ofName? name = none
  | .described _, _ => False

theorem Text.stops_of_leadingWord_eq_nil {s : List Char} (h : leadingWord s = []) :
    Stops isWordChar s := by
  intro c hc
  have := leadingWord_append_dropWhile s
  rw [h, List.nil_append] at this
  rw [← this] at hc
  exact stops_dropWhile isWordChar s c hc

theorem Decimal.whole_splitPlaces (s : List Char) :
    (splitPlaces s).1.whole = s.takeWhile Char.isDigit := by
  unfold splitPlaces splitDigits
  dsimp only
  split <;> rfl

theorem Decimal.splitPlaces_ne_empty {digits : List Char} (h : IsUnsigned digits)
    (rest : List Char) : (splitPlaces (digits ++ rest)).1.isEmpty = false := by
  have hwhole : ∀ d t, d.isDigit = true → (splitPlaces (d :: t)).1.isEmpty = false := by
    intro d t hd
    simp [Places.isEmpty, whole_splitPlaces, hd]
  obtain ⟨p, hp, hne⟩ := h.exists_places
  cases hp with
  | whole hds =>
    cases digits with
    | nil => cases hne
    | cons d ds => exact hwhole d _ (hds d List.mem_cons_self)
  | @point ds es hds hes =>
    cases ds with
    | nil =>
      cases es with
      | nil => cases hne
      | cons e es => simp [splitPlaces, splitDigits, Places.isEmpty, hes e]
    | cons d ds => exact hwhole d _ (hds d List.mem_cons_self)

namespace Scan

variable {β γ : Type} {s t rest : List Char} {f : Fault}

/-! ## Faults -/

/-- Whether a fault lies in a text, where what its problem is about begins. -/
structure Fault.Lies (f : Fault) (s : List Char) : Prop where
  rest : f.rest <:+ s
  start : Stops isBlank f.rest
  problem : f.problem.Concerns f.rest

theorem Fault.Lies.of_suffix (h : f.Lies s) (hs : s <:+ t) : f.Lies t :=
  ⟨h.rest.trans hs, h.start, h.problem⟩

theorem suffix_append_append (gap read rest : List Char) : rest <:+ gap ++ (read ++ rest) :=
  (List.suffix_append read rest).trans (List.suffix_append gap _)

theorem trimStart_suffix (s : List Char) : trimStart s <:+ s :=
  List.dropWhile_suffix _

theorem Fault.lies_trimStart {p : Problem} (h : p.Concerns (trimStart s)) :
    Fault.Lies ⟨p, trimStart s⟩ s :=
  ⟨trimStart_suffix s, stops_trimStart s, h⟩

/-- Whether a scanner leaves the end of its text over, and its faults lie in the text. -/
structure Faithful (scanner : List Char → Except Fault (β × List Char)) : Prop where
  suffix : ∀ {s x rest}, scanner s = .ok (x, rest) → rest <:+ s
  lies : ∀ {s f}, scanner s = .error f → f.Lies s

theorem faithful_pure (x : β) : Faithful fun s => .ok (x, s) where
  suffix h := by
    cases h
    exact List.suffix_rfl
  lies h := by
    cases h

theorem Faithful.bind {scanner : List Char → Except Fault (β × List Char)}
    {next : β × List Char → Except Fault (γ × List Char)} (h : Faithful scanner)
    (hnext : ∀ x, Faithful fun s => next (x, s)) : Faithful fun s => scanner s >>= next where
  suffix hok := by
    obtain ⟨⟨x, rest⟩, hx, hok⟩ := bind_eq_ok_iff.mp hok
    exact ((hnext x).suffix hok).trans (h.suffix hx)
  lies herror := by
    rcases bind_eq_error_iff.mp herror with herror | ⟨⟨x, rest⟩, hx, herror⟩
    . exact h.lies herror
    . exact ((hnext x).lies herror).of_suffix (h.suffix hx)

/-! ## Pieces -/

theorem faithful_word {expected : Lookahead → Problem}
    (hexpected : ∀ s, Stops isWordChar s → (expected (.ofText s)).Concerns s) :
    Faithful (word expected) where
  suffix h := by
    obtain ⟨gap, _, _, _, rfl⟩ := word_eq_ok_iff.mp h
    exact suffix_append_append _ _ _
  lies h := by
    unfold word at h
    dsimp only at h
    split at h
    . next hnil =>
      cases h
      exact Fault.lies_trimStart (hexpected _ (stops_of_leadingWord_eq_nil hnil))
    . cases h

theorem faithful_number : Faithful number where
  suffix h := by
    obtain ⟨gap, numeral, _, _, _, rfl⟩ := number_of_eq_ok h
    exact suffix_append_append _ _ _
  lies {s f} h := by
    unfold number at h
    dsimp only at h
    split at h
    . next hempty =>
      cases h
      apply Fault.lies_trimStart
      rintro _ rest ⟨negative, sign, digits, hsign, hdigits, rfl⟩ hs
      rw [hs, List.append_assoc,
        Decimal.splitSign_append hsign (hdigits.stops_isSignChar rest)] at hempty
      dsimp only at hempty
      rw [Decimal.splitPlaces_ne_empty hdigits] at hempty
      cases hempty
    . cases h

theorem char_lies {c : Char} (h : char c s = .error f) : f.Lies s := by
  unfold char at h
  split at h
  . next hnil =>
    cases h
    rw [← hnil]
    apply Fault.lies_trimStart
    rw [hnil]
    exact ⟨rfl, by simp⟩
  . next d t hcons =>
    split at h
    . cases h
    . next hne =>
      cases h
      rw [← hcons]
      apply Fault.lies_trimStart
      rw [hcons]
      exact ⟨rfl, by simpa using hne⟩

theorem endOfInput_lies (h : endOfInput s = .error f) : f.Lies s := by
  unfold endOfInput at h
  split at h
  . cases h
  . next hne =>
    cases h
    exact Fault.lies_trimStart ⟨rfl, hne⟩

/-! ## Rules -/

theorem faithful_field : Faithful field := by
  have hkey : Faithful (word .expectedField) := faithful_word fun s hs => ⟨rfl, hs⟩
  have hsub : Faithful (word .expectedSubField) := faithful_word fun s hs => ⟨rfl, hs⟩
  apply hkey.bind
  intro key
  have houtput : Faithful fun s => word .expectedSubField s >>= fun scanned =>
      .ok (String.ofList (key ++ '.' :: scanned.1), scanned.2) :=
    hsub.bind fun sub => faithful_pure (String.ofList (key ++ '.' :: sub))
  constructor
  . intro s x rest h
    dsimp only at h
    split at h
    . exact (houtput.suffix h).trans (List.suffix_cons _ _)
    . exact (faithful_pure _).suffix h
  . intro s f h
    dsimp only at h
    split at h
    . exact (houtput.lies h).of_suffix (List.suffix_cons _ _)
    . cases h

theorem faithful_comparison : Faithful comparison where
  suffix h := by
    obtain ⟨gap, symbol, _, _, rfl⟩ := comparison_eq_ok_iff.mp h
    exact suffix_append_append _ _ _
  lies h := by
    unfold comparison at h
    dsimp only at h
    split at h
    . cases h
    . next hnone =>
      cases h
      apply Fault.lies_trimStart
      refine ⟨rfl, ?_⟩
      intro c symbol rest hfits hs
      have := List.findSome?_eq_none_iff.mp hnone c (Comparison.mem_all c)
      rw [Comparison.strip?_eq_some_iff.mpr ⟨symbol, hfits, hs⟩] at this
      cases this

theorem faithful_rule : Faithful rule :=
  faithful_field.bind fun _ => faithful_comparison.bind fun _ =>
    faithful_number.bind fun _ => faithful_pure _

/-! ## Indicators -/

theorem faithful_numbers : Faithful numbers := by
  constructor
  . intro s xs rest h
    obtain ⟨text, space, _, _, rfl⟩ := numbers_of_eq_ok h
    exact suffix_append_append _ _ _
  . intro s f h
    fun_induction numbers s generalizing f with
    | case1 s e hnumber =>
      cases h
      exact faithful_number.lies hnumber
    | case2 s x left hnumber tail hcomma _ ih =>
      rcases bind_eq_error_iff.mp h with h | ⟨_, _, h⟩
      . have htail : tail <:+ trimStart left := by
          rw [hcomma]
          exact List.suffix_cons _ _
        have hleft := (trimStart_suffix left).trans (faithful_number.suffix hnumber)
        exact (ih h).of_suffix (htail.trans hleft)
      . cases h
    | case3 => cases h

theorem arguments_lies (h : arguments s = .error f) : f.Lies s := by
  unfold arguments at h
  split at h
  . next inner hopen =>
    have hinner : trimStart inner <:+ s := by
      apply (trimStart_suffix inner).trans
      apply (List.suffix_cons '(' inner).trans
      rw [← hopen]
      exact trimStart_suffix s
    split at h
    . cases h
    . rcases bind_eq_error_iff.mp h with h | ⟨⟨xs, left⟩, hnumbers, h⟩
      . exact (faithful_numbers.lies h).of_suffix hinner
      . have hleft := (faithful_numbers.suffix hnumbers).trans hinner
        rcases bind_eq_error_iff.mp h with h | ⟨_, _, h⟩
        . exact (char_lies h).of_suffix hleft
        . cases h
  . cases h

theorem faithful_arguments : Faithful arguments where
  suffix h := by
    obtain ⟨text, space, _, _, rfl⟩ := arguments_of_eq_ok h
    exact suffix_append_append _ _ _
  lies := arguments_lies

end Scan

namespace Indicator

variable {name : String} {family : IndicatorFamily} {xs : List Float} {p : Problem}
  {s : List Char}

theorem concerns_of_periodOf {x : Float} (hs : StartsWithName s name)
    (h : periodOf name x = .error p) : p.Concerns s := by
  have hnone : ∀ n, ¬StandsFor (.period n) x := by
    intro n hn
    rw [periodOf_eq_ok_iff_standsFor.mpr hn] at h
    cases h
  unfold periodOf at h
  split at h
  . cases h
  . cases h
    exact ⟨hs, hnone⟩

theorem concerns_of_ofArguments (hs : StartsWithName s name)
    (hfamily : IndicatorFamily.ofName? name = some family)
    (h : ofArguments name family xs = .error p) : p.Concerns s := by
  have hperiod {x : Float} {next : Nat → Except Problem (Indicator Float)}
      (h : (periodOf name x >>= next) = .error p)
      (hnext : ∀ n, next n = .error p → p.Concerns s) : p.Concerns s := by
    rcases bind_eq_error_iff.mp h with h | ⟨n, _, h⟩
    . exact concerns_of_periodOf hs h
    . exact hnext n h
  unfold ofArguments at h
  split at h
  case h_5 => exact hperiod h fun _ h => hperiod h fun _ h => hperiod h nofun
  case h_7 => exact hperiod h fun _ h => hperiod h nofun
  case h_8 => cases h
  case h_9 hsma hema hrsi hatr hmacd hbollinger hstochastic hvwap =>
    cases h
    refine ⟨hs, ?_, family, hfamily, rfl⟩
    intro hlength
    cases family with
    | sma =>
      obtain ⟨x, rfl⟩ := List.length_eq_one_iff.mp hlength
      exact hsma x rfl rfl
    | ema =>
      obtain ⟨x, rfl⟩ := List.length_eq_one_iff.mp hlength
      exact hema x rfl rfl
    | rsi =>
      obtain ⟨x, rfl⟩ := List.length_eq_one_iff.mp hlength
      exact hrsi x rfl rfl
    | atr =>
      obtain ⟨x, rfl⟩ := List.length_eq_one_iff.mp hlength
      exact hatr x rfl rfl
    | macd =>
      obtain ⟨x, y, z, rfl⟩ := List.length_eq_three.mp hlength
      exact hmacd x y z rfl rfl
    | bollinger =>
      obtain ⟨x, y, rfl⟩ := List.length_eq_two.mp hlength
      exact hbollinger x y rfl rfl
    | stochastic =>
      obtain ⟨x, y, rfl⟩ := List.length_eq_two.mp hlength
      exact hstochastic x y rfl rfl
    | vwap =>
      obtain rfl := List.length_eq_zero_iff.mp hlength
      exact hvwap rfl rfl
  all_goals exact hperiod h nofun

end Indicator

namespace Scan

variable {β : Type} {s : List Char}

theorem startsWithName_of_word {expected : Lookahead → Problem} {name left : List Char}
    (h : word expected (trimStart s) = .ok (name, left)) :
    StartsWithName (trimStart s) (String.ofList (upperAscii name)) := by
  obtain ⟨gap, hgap, hname, hleft, hs⟩ := word_eq_ok_iff.mp h
  have hstart : trimStart s = name ++ left := by
    rw [← trimStart_of_stops (stops_trimStart s), hs]
    exact trimStart_append hgap (stops_isBlank_of_isWord hname left)
  have hleading : leadingWord (name ++ left) = name := takeWhile_of_stops hname.2 hleft
  rw [hstart]
  refine ⟨?_, by rw [hleading]⟩
  intro hstops
  cases name with
  | nil => exact hname.1 rfl
  | cons c name => simp [hname.2 c List.mem_cons_self] at hstops

theorem indicator_lies {f : Fault} (h : indicator s = .error f) : f.Lies s := by
  unfold indicator at h
  have hname : Faithful (word .expectedIndicatorName) := faithful_word fun s hs => ⟨rfl, hs⟩
  rcases bind_eq_error_iff.mp h with h | ⟨⟨name, left⟩, hword, h⟩
  . exact (hname.lies h).of_suffix (trimStart_suffix s)
  . have hleft := (hname.suffix hword).trans (trimStart_suffix s)
    rcases bind_eq_error_iff.mp h with h | ⟨⟨xs, rest⟩, _, h⟩
    . exact (faithful_arguments.lies h).of_suffix hleft
    . rcases bind_eq_error_iff.mp h with h | ⟨_, _, h⟩
      . obtain ⟨p, hp, rfl⟩ := mapError_eq_error_iff.mp h
        have hstarts := startsWithName_of_word hword
        apply Fault.lies_trimStart
        split at hp
        . next family hfamily => exact Indicator.concerns_of_ofArguments hstarts hfamily hp
        . next hunknown =>
          cases hp
          exact ⟨hstarts, hunknown⟩
      . cases h

theorem faithful_indicator : Faithful indicator where
  suffix h := by
    unfold indicator at h
    obtain ⟨⟨name, left⟩, hword, h⟩ := bind_eq_ok_iff.mp h
    obtain ⟨⟨xs, rest⟩, harguments, h⟩ := bind_eq_ok_iff.mp h
    obtain ⟨_, _, h⟩ := bind_eq_ok_iff.mp h
    cases h
    have hname : Faithful (word .expectedIndicatorName) := faithful_word fun s hs => ⟨rfl, hs⟩
    exact (faithful_arguments.suffix harguments).trans
      ((hname.suffix hword).trans (trimStart_suffix _))
  lies := indicator_lies

/-! ## Positions -/

theorem exists_place_of_whole {scanner : List Char → Except Fault (β × List Char)}
    {e : ParseError} (hscanner : Faithful scanner) (h : whole scanner s = .error e) :
    ∃ read unread, s = read ++ unread ∧ e.position = byteLength read ∧
      Stops isBlank unread ∧ e.problem.Concerns unread := by
  unfold whole at h
  obtain ⟨f, hf, rfl⟩ := mapError_eq_error_iff.mp h
  have hlies : f.Lies s := by
    rcases bind_eq_error_iff.mp hf with hf | ⟨⟨x, rest⟩, hx, hf⟩
    . exact hscanner.lies hf
    . rcases bind_eq_error_iff.mp hf with hf | ⟨_, _, hf⟩
      . exact (endOfInput_lies hf).of_suffix (hscanner.suffix hx)
      . cases hf
  obtain ⟨read, hread⟩ := hlies.rest
  refine ⟨read, f.rest, hread.symm, ?_, hlies.start, hlies.problem⟩
  unfold Fault.toParseError
  rw [← hread, byteLength_append, Nat.add_sub_cancel]

end Scan
end StrategyDesk
