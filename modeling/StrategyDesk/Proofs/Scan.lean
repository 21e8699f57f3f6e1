import StrategyDesk.Scan
import StrategyDesk.Proofs.Decimal.Numeral
import StrategyDesk.Proofs.Outcome

/-!
This module contains which pieces the scanners take off a text. A scanner takes a piece exactly if
the text starts with blanks and that piece, and does not go on with a character of the same kind.
-/

namespace StrategyDesk

namespace Scan

open Text

variable {s rest : List Char}

def IsWord (w : List Char) : Prop :=
  w ≠ [] ∧ ∀ c ∈ w, isWordChar c = true

theorem stops_isBlank_of_isWord {w : List Char} (hw : IsWord w) (rest : List Char) :
    Stops isBlank (w ++ rest) := by
  apply stops_append_of_ne_nil _ hw.1
  intro c hc
  exact isBlank_of_isWordChar (hw.2 c hc)

theorem word_eq_ok_iff {expected : Lookahead → Problem} {w : List Char} :
    word expected s = .ok (w, rest) ↔
      ∃ gap, allBlank gap = true ∧ IsWord w ∧ Stops isWordChar rest ∧ s = gap ++ (w ++ rest) := by
  constructor
  . intro h
    obtain ⟨gap, hgap, hs⟩ := exists_gap s
    unfold word at h
    dsimp only at h
    split at h
    . cases h
    . next hne =>
      cases h
      refine ⟨gap, hgap, ⟨hne, ?_⟩, stops_dropWhile _ _, ?_⟩
      . intro c
        apply List.mem_takeWhile_imp
      . rw [leadingWord_append_dropWhile]
        exact hs
  . rintro ⟨gap, hgap, hw, hrest, rfl⟩
    unfold word
    dsimp only
    rw [trimStart_append hgap (stops_isBlank_of_isWord hw rest)]
    have hleading : leadingWord (w ++ rest) = w := takeWhile_of_stops hw.2 hrest
    rw [hleading, dropWhile_of_stops hw.2 hrest]
    split
    . exact absurd rfl hw.1
    . rfl

theorem endOfInput_eq_ok_iff : endOfInput s = .ok () ↔ allBlank s = true := by
  unfold endOfInput
  rw [← trimStart_eq_nil_iff]
  split
  . next h => simp [h]
  . next hne => simpa using hne

theorem whole_eq_ok_iff {α : Type} {scanner : List Char → Except Fault (α × List Char)} {x : α} :
    whole scanner s = .ok x ↔ ∃ rest, scanner s = .ok (x, rest) ∧ allBlank rest = true := by
  unfold whole
  rw [mapError_eq_ok_iff]
  simp only [bind_eq_ok_iff]
  constructor
  . rintro ⟨⟨y, rest⟩, hscan, ⟨⟩, hend, ⟨⟩⟩
    exact ⟨rest, hscan, endOfInput_eq_ok_iff.mp hend⟩
  . rintro ⟨rest, hscan, hrest⟩
    exact ⟨(x, rest), hscan, (), endOfInput_eq_ok_iff.mpr hrest, rfl⟩

theorem isBlank_of_isPlaceChar {c : Char} (h : Decimal.isPlaceChar c = true) : isBlank c = false := by
  simp only [Decimal.isPlaceChar, Bool.or_eq_true, beq_iff_eq] at h
  rcases h with h | rfl
  . exact isBlank_of_isDigit h
  . decide

theorem stops_of_allBlank {kind : Char → Bool} (hkind : ∀ c, kind c = true → isBlank c = false)
    (hs : allBlank s = true) (hrest : Stops kind rest) : Stops kind (s ++ rest) := by
  cases s with
  | nil => exact hrest
  | cons c s =>
    have hblank := allBlank_iff.mp hs c List.mem_cons_self
    rw [List.cons_append, stops_cons]
    by_contra hc
    rw [hkind c (by simpa using hc)] at hblank
    cases hblank

theorem stops_isPlaceChar (hs : allBlank s = true) : Stops Decimal.isPlaceChar s := by
  have := stops_of_allBlank (fun _ => isBlank_of_isPlaceChar) hs stops_nil
  rwa [List.append_nil] at this

theorem stops_isBlank_of_isNumeral {numeral : List Char} (hnumeral : Decimal.IsNumeral numeral)
    (rest : List Char) : Stops isBlank (numeral ++ rest) := by
  obtain ⟨c, t, rfl, hsign | hplace⟩ := hnumeral.exists_cons
  . rw [List.cons_append, stops_cons]
    simp only [Decimal.isSignChar, Bool.or_eq_true, beq_iff_eq] at hsign
    rcases hsign with rfl | rfl <;> decide
  . rw [List.cons_append, stops_cons]
    exact isBlank_of_isPlaceChar hplace

theorem number_of_eq_ok {x : Float} (h : number s = .ok (x, rest)) :
    ∃ gap numeral, allBlank gap = true ∧ Decimal.IsNumeral numeral ∧
      Decimal.read? numeral = some x ∧ s = gap ++ (numeral ++ rest) := by
  obtain ⟨gap, hgap, hs⟩ := exists_gap s
  obtain ⟨sign, hsign, hsigned⟩ := Decimal.exists_sign (trimStart s)
  obtain ⟨digits, hdigits, hplaces⟩ := Decimal.exists_places (Decimal.splitSign (trimStart s)).2
  unfold number at h
  dsimp only at h
  split at h
  . cases h
  . next hne =>
    cases h
    have hne := eq_false_of_ne_true hne
    refine ⟨gap, sign ++ digits, hgap, ?_, Decimal.read?_append hsign hdigits hne, ?_⟩
    . exact ⟨_, _, _, hsign, Decimal.isUnsigned_of_spells hdigits hne, rfl⟩
    . rw [List.append_assoc, ← hplaces, ← hsigned]
      exact hs

theorem number_append {gap numeral : List Char} {x : Float} (hgap : allBlank gap = true)
    (hnumeral : Decimal.IsNumeral numeral) (hx : Decimal.read? numeral = some x)
    (hrest : Stops Decimal.isPlaceChar rest) :
    number (gap ++ (numeral ++ rest)) = .ok (x, rest) := by
  have hblank := stops_isBlank_of_isNumeral hnumeral rest
  obtain ⟨negative, sign, digits, hsign, hdigits, rfl⟩ := hnumeral
  obtain ⟨p, hp, hne⟩ := hdigits.exists_places
  rw [Decimal.read?_append hsign hp hne] at hx
  cases hx
  unfold number
  dsimp only
  rw [trimStart_append hgap hblank, List.append_assoc,
    Decimal.splitSign_append hsign (hdigits.stops_isSignChar rest)]
  dsimp only
  rw [Decimal.splitPlaces_append hp hrest]
  simp [hne]

theorem char_of_eq_ok {c : Char} (h : char c s = .ok rest) :
    ∃ gap, allBlank gap = true ∧ s = gap ++ c :: rest := by
  obtain ⟨gap, hgap, hs⟩ := exists_gap s
  unfold char at h
  split at h
  . cases h
  . next hstart =>
    split at h
    . next heq =>
      cases h
      rw [hstart, heq] at hs
      exact ⟨gap, hgap, hs⟩
    . cases h

theorem char_append {c : Char} {gap : List Char} (hgap : allBlank gap = true)
    (hc : isBlank c = false) : char c (gap ++ c :: rest) = .ok rest := by
  unfold char
  rw [trimStart_append hgap (stops_cons.mpr hc)]
  simp

end Scan
end StrategyDesk
