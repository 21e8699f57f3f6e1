import StrategyDesk.Indicator.Parser
import StrategyDesk.Proofs.Scan

/-!
This module contains how an indicator may be written: a name and, in parentheses, numbers that are
divided by commas, with blanks before any of them.
-/

namespace StrategyDesk

open Text

namespace Scan

variable {s rest tail : List Char} {x : Float}

/-! ## Lists of numbers -/

inductive AreNumbers : List Char → List Float → Prop where
  | one {gap numeral : List Char} {x : Float} (hgap : allBlank gap = true)
    (hnumeral : Decimal.IsNumeral numeral) (hx : Decimal.read? numeral = some x) :
    AreNumbers (gap ++ numeral) [x]
  | more {gap numeral space text : List Char} {x : Float} {xs : List Float}
    (hgap : allBlank gap = true) (hnumeral : Decimal.IsNumeral numeral)
    (hx : Decimal.read? numeral = some x) (hspace : allBlank space = true)
    (htext : AreNumbers text xs) :
    AreNumbers (gap ++ (numeral ++ (space ++ ',' :: text))) (x :: xs)

theorem numbers_of_last (h : number s = .ok (x, rest))
    (hlast : (trimStart rest).head? ≠ some ',') : numbers s = .ok ([x], trimStart rest) := by
  rw [numbers]
  split
  . next hfault =>
    rw [h] at hfault
    cases hfault
  . next hnumber =>
    rw [h] at hnumber
    cases hnumber
    split
    . next hcomma =>
      rw [hcomma] at hlast
      exact absurd rfl hlast
    . rfl

theorem numbers_of_comma (h : number s = .ok (x, rest)) (hcomma : trimStart rest = ',' :: tail) :
    numbers s = do
      let (xs, rest) ← numbers tail
      return (x :: xs, rest) := by
  rw [numbers]
  split
  . next hfault =>
    rw [h] at hfault
    cases hfault
  . next hnumber =>
    rw [h] at hnumber
    cases hnumber
    split
    . next hcomma' =>
      rw [hcomma] at hcomma'
      cases hcomma'
      rfl
    . next hne => exact absurd hcomma (hne _)

theorem numbers_append {text : List Char} {xs : List Float} (htext : AreNumbers text xs)
    (hplace : Stops Decimal.isPlaceChar rest) (hlast : (trimStart rest).head? ≠ some ',') :
    numbers (text ++ rest) = .ok (xs, trimStart rest) := by
  induction htext with
  | one hgap hnumeral hx =>
    rw [List.append_assoc]
    exact numbers_of_last (number_append hgap hnumeral hx hplace) hlast
  | @more gap numeral space text x xs hgap hnumeral hx hspace _ ih =>
    have hstops : Stops Decimal.isPlaceChar (space ++ ',' :: (text ++ rest)) := by
      apply stops_of_allBlank (fun _ => isBlank_of_isPlaceChar) hspace
      rw [stops_cons]
      decide
    have hcomma : trimStart (space ++ ',' :: (text ++ rest)) = ',' :: (text ++ rest) := by
      apply trimStart_append hspace
      rw [stops_cons]
      decide
    simp only [List.append_assoc, List.cons_append]
    rw [numbers_of_comma (number_append hgap hnumeral hx hstops) hcomma, ih]
    rfl

theorem AreNumbers.append_gap {gap text : List Char} {xs : List Float} (hgap : allBlank gap = true)
    (htext : AreNumbers text xs) : AreNumbers (gap ++ text) xs := by
  cases htext with
  | @one gap' numeral x hgap' hnumeral hx =>
    rw [← List.append_assoc]
    apply AreNumbers.one _ hnumeral hx
    rw [allBlank_append, hgap, hgap', Bool.and_self]
  | @more gap' numeral space text x xs hgap' hnumeral hx hspace htext =>
    rw [← List.append_assoc]
    apply AreNumbers.more _ hnumeral hx hspace htext
    rw [allBlank_append, hgap, hgap', Bool.and_self]

theorem numbers_of_eq_ok {xs : List Float} (h : numbers s = .ok (xs, rest)) :
    ∃ text space, AreNumbers text xs ∧ allBlank space = true ∧ s = text ++ (space ++ rest) := by
  fun_induction numbers s generalizing xs rest with
  | case1 => cases h
  | case2 s x left hnumber tail hcomma _ ih =>
    obtain ⟨⟨ys, rest'⟩, htail, h⟩ := bind_eq_ok_iff.mp h
    cases h
    obtain ⟨gap, numeral, hgap, hnumeral, hx, rfl⟩ := number_of_eq_ok hnumber
    obtain ⟨space, hspace, hleft⟩ := exists_gap left
    obtain ⟨text, trail, htext, htrail, rfl⟩ := ih htail
    refine ⟨_, trail, AreNumbers.more hgap hnumeral hx hspace htext, htrail, ?_⟩
    rw [hleft, hcomma]
    simp only [List.append_assoc, List.cons_append]
  | case3 s x left hnumber =>
    cases h
    obtain ⟨gap, numeral, hgap, hnumeral, hx, rfl⟩ := number_of_eq_ok hnumber
    obtain ⟨space, hspace, hleft⟩ := exists_gap left
    refine ⟨_, space, AreNumbers.one hgap hnumeral hx, hspace, ?_⟩
    rw [List.append_assoc, ← hleft]

theorem head?_ne_of_isNumeral {numeral : List Char} (h : Decimal.IsNumeral numeral)
    (rest : List Char) : (numeral ++ rest).head? ≠ some ')' := by
  obtain ⟨c, t, rfl, hc⟩ := h.exists_cons
  rintro ⟨⟩
  exact absurd hc (by decide)

theorem AreNumbers.exists_start {text : List Char} {xs : List Float} (h : AreNumbers text xs) :
    ∃ gap text', allBlank gap = true ∧ AreNumbers text' xs ∧ text = gap ++ text' ∧
      ∀ rest, Stops isBlank (text' ++ rest) ∧ (text' ++ rest).head? ≠ some ')' := by
  cases h with
  | @one gap numeral x hgap hnumeral hx =>
    refine ⟨gap, numeral, hgap, ?_, rfl, ?_⟩
    . exact AreNumbers.one (List.all_nil) hnumeral hx
    . intro rest
      exact ⟨stops_isBlank_of_isNumeral hnumeral rest, head?_ne_of_isNumeral hnumeral rest⟩
  | @more gap numeral space text x xs hgap hnumeral hx hspace htext =>
    refine ⟨gap, numeral ++ (space ++ ',' :: text), hgap, ?_, rfl, ?_⟩
    . exact AreNumbers.more (List.all_nil) hnumeral hx hspace htext
    . intro rest
      rw [List.append_assoc]
      exact ⟨stops_isBlank_of_isNumeral hnumeral _, head?_ne_of_isNumeral hnumeral _⟩

/-! ## Arguments -/

inductive AreArguments : List Char → List Float → Prop where
  | none : AreArguments [] []
  | empty {gap space : List Char} (hgap : allBlank gap = true) (hspace : allBlank space = true) :
    AreArguments (gap ++ '(' :: (space ++ [')'])) []
  | numbers {gap text space : List Char} {xs : List Float} (hgap : allBlank gap = true)
    (htext : AreNumbers text xs) (hspace : allBlank space = true) :
    AreArguments (gap ++ '(' :: (text ++ (space ++ [')']))) xs

theorem arguments_of_blank (h : trimStart s = []) : arguments s = .ok ([], []) := by
  simp [arguments, h]

theorem arguments_of_empty {inner : List Char} (hopen : trimStart s = '(' :: inner)
    (hclose : trimStart inner = ')' :: rest) : arguments s = .ok ([], rest) := by
  simp [arguments, hopen, hclose]

theorem arguments_of_numbers {inner : List Char} (hopen : trimStart s = '(' :: inner)
    (hfirst : (trimStart inner).head? ≠ some ')') :
    arguments s = do
      let (xs, s) ← numbers (trimStart inner)
      let s ← char ')' s
      return (xs, s) := by
  simp only [arguments, hopen]
  split
  . next hclose =>
    rw [hclose] at hfirst
    exact absurd rfl hfirst
  . rfl

theorem trimStart_append_cons {c : Char} {gap : List Char} (hgap : allBlank gap = true)
    (hc : isBlank c = false) (s : List Char) : trimStart (gap ++ c :: s) = c :: s :=
  trimStart_append hgap (stops_cons.mpr hc)

theorem arguments_append {text trail : List Char} {xs : List Float} (htext : AreArguments text xs)
    (htrail : allBlank trail = true) :
    ∃ rest, arguments (text ++ trail) = .ok (xs, rest) ∧ allBlank rest = true := by
  cases htext with
  | none => exact ⟨[], arguments_of_blank (trimStart_eq_nil_iff.mpr htrail), rfl⟩
  | empty hgap hspace =>
    simp only [List.append_assoc, List.cons_append, List.nil_append]
    refine ⟨trail, ?_, htrail⟩
    apply arguments_of_empty (trimStart_append_cons hgap (by decide) _)
    exact trimStart_append_cons hspace (by decide) _
  | @numbers gap text space xs hgap htext hspace =>
    -- Blanks are cut before a closing parenthesis is looked for, so the numbers start behind them.
    obtain ⟨lead, text, hlead, hnumbers, rfl, hstart⟩ := htext.exists_start
    obtain ⟨hblank, hfirst⟩ := hstart (space ++ ')' :: trail)
    have hinner := trimStart_append hlead hblank
    have hplace : Stops Decimal.isPlaceChar (space ++ ')' :: trail) := by
      apply stops_of_allBlank (fun _ => isBlank_of_isPlaceChar) hspace
      rw [stops_cons]
      decide
    have htail : trimStart (space ++ ')' :: trail) = ')' :: trail :=
      trimStart_append_cons hspace (by decide) trail
    simp only [List.append_assoc, List.cons_append, List.nil_append]
    refine ⟨trail, ?_, htrail⟩
    rw [arguments_of_numbers (trimStart_append_cons hgap (by decide) _) (by rwa [hinner]), hinner,
      numbers_append hnumbers hplace (by simp [htail]), htail]
    have hclose : char ')' (')' :: trail) = .ok trail := char_append (List.all_nil) (by decide)
    simp [hclose, bind, Except.bind]
    rfl

theorem arguments_of_eq_ok {xs : List Float} (h : arguments s = .ok (xs, rest)) :
    ∃ text space, AreArguments text xs ∧ allBlank space = true ∧ s = text ++ (space ++ rest) := by
  obtain ⟨gap, hgap, hs⟩ := exists_gap s
  unfold arguments at h
  split at h
  . next inner hopen =>
    obtain ⟨space, hspace, hinner⟩ := exists_gap inner
    rw [hopen, hinner] at hs
    split at h
    . next hclose =>
      cases h
      refine ⟨_, [], AreArguments.empty hgap hspace, rfl, ?_⟩
      rw [hs, hclose]
      simp only [List.append_assoc, List.cons_append, List.nil_append]
    . obtain ⟨⟨ys, left⟩, hnumbers, h⟩ := bind_eq_ok_iff.mp h
      obtain ⟨rest', hchar, h⟩ := bind_eq_ok_iff.mp h
      cases h
      obtain ⟨text, trail, htext, htrail, htrimmed⟩ := numbers_of_eq_ok hnumbers
      obtain ⟨gap', hgap', rfl⟩ := char_of_eq_ok hchar
      have hblank : allBlank (trail ++ gap') = true := by
        rw [allBlank_append, htrail, hgap', Bool.and_self]
      refine ⟨_, [], AreArguments.numbers hgap (htext.append_gap hspace) hblank, rfl, ?_⟩
      rw [hs, htrimmed]
      simp only [List.append_assoc, List.cons_append, List.nil_append]
  . cases h
    exact ⟨[], gap, AreArguments.none, hgap, hs⟩

end Scan

/-! ## Indicators -/

namespace Indicator

variable {s : List Char} {ind : Indicator Float}

theorem stops_isWordChar_of_areArguments {text trail : List Char} {xs : List Float}
    (htext : Scan.AreArguments text xs) (htrail : allBlank trail = true) :
    Stops isWordChar (text ++ trail) := by
  have hword : ∀ c, isWordChar c = true → isBlank c = false := fun _ => isBlank_of_isWordChar
  have hopen : ∀ gap inner, allBlank gap = true →
      Stops isWordChar (gap ++ '(' :: inner) := by
    intro gap inner hgap
    apply Scan.stops_of_allBlank hword hgap
    rw [stops_cons]
    decide
  cases htext with
  | none =>
    have := Scan.stops_of_allBlank hword htrail stops_nil
    rwa [List.append_nil] at this
  | empty hgap _ =>
    rw [List.append_assoc, List.cons_append]
    exact hopen _ _ hgap
  | numbers hgap _ _ =>
    rw [List.append_assoc, List.cons_append]
    exact hopen _ _ hgap

theorem parse_append {lead name text trail : List Char} {xs : List Float}
    {family : IndicatorFamily} (hlead : allBlank lead = true) (hname : Scan.IsWord name)
    (htext : Scan.AreArguments text xs) (htrail : allBlank trail = true)
    (hfamily : IndicatorFamily.ofName? (String.ofList (upperAscii name)) = some family)
    (hmade : ofArguments (String.ofList (upperAscii name)) family xs = .ok ind) :
    parse (lead ++ (name ++ (text ++ trail))) = .ok ind := by
  have hstart := trimStart_append hlead (Scan.stops_isBlank_of_isWord hname (text ++ trail))
  have hapart := stops_isWordChar_of_areArguments htext htrail
  have hword : Scan.word .expectedIndicatorName (name ++ (text ++ trail)) =
      .ok (name, text ++ trail) :=
    Scan.word_eq_ok_iff.mpr ⟨[], List.all_nil, hname, hapart, rfl⟩
  obtain ⟨rest, harguments, hrest⟩ := Scan.arguments_append htext htrail
  apply Scan.whole_eq_ok_iff.mpr
  refine ⟨rest, ?_, hrest⟩
  unfold Scan.indicator
  rw [hstart]
  simp only [bind_eq_ok_iff]
  refine ⟨_, hword, _, harguments, ind, ?_, rfl⟩
  rw [mapError_eq_ok_iff]
  dsimp only
  rw [hfamily]
  exact hmade

theorem parse_eq_ok_iff :
    parse s = .ok ind ↔ ∃ lead name text xs trail family,
      allBlank lead = true ∧ Scan.IsWord name ∧ Scan.AreArguments text xs ∧ allBlank trail = true ∧
      IndicatorFamily.ofName? (String.ofList (upperAscii name)) = some family ∧
      ofArguments (String.ofList (upperAscii name)) family xs = .ok ind ∧
      s = lead ++ (name ++ (text ++ trail)) := by
  constructor
  . intro h
    obtain ⟨rest, hscan, hrest⟩ := Scan.whole_eq_ok_iff.mp h
    obtain ⟨lead, hlead, hs⟩ := exists_gap s
    unfold Scan.indicator at hscan
    obtain ⟨⟨name, left⟩, hword, hscan⟩ := bind_eq_ok_iff.mp hscan
    obtain ⟨⟨xs, rest'⟩, harguments, hscan⟩ := bind_eq_ok_iff.mp hscan
    obtain ⟨made, hmade, hscan⟩ := bind_eq_ok_iff.mp hscan
    cases hscan
    obtain ⟨gap, hgap, hname, _, htrimmed⟩ := Scan.word_eq_ok_iff.mp hword
    obtain ⟨text, space, htext, hspace, rfl⟩ := Scan.arguments_of_eq_ok harguments
    rw [mapError_eq_ok_iff] at hmade
    split at hmade
    . next family hfamily =>
      refine ⟨lead ++ gap, name, text, xs, space ++ rest, family, ?_, hname, htext, ?_, hfamily,
        hmade, ?_⟩
      . rw [allBlank_append, hlead, hgap, Bool.and_self]
      . rw [allBlank_append, hspace, hrest, Bool.and_self]
      . rw [hs, htrimmed, List.append_assoc]
    . cases hmade
  . rintro ⟨lead, name, text, xs, trail, family, hlead, hname, htext, htrail, hfamily, hmade, rfl⟩
    exact parse_append hlead hname htext htrail hfamily hmade

end Indicator
end StrategyDesk
