import Mathlib
import StrategyDesk.Calendar.Reader
import StrategyDesk.Proofs.Calendar.Days
import StrategyDesk.Proofs.Decimal.Numeral

/-!
This module contains that points in time are read back from their form of RFC 3339, and which points
in time the reading gives at all.
-/

namespace StrategyDesk
namespace Instant

/-! ## Numbers -/

section Numbers

variable {width n least most : Nat} {rest s : List Char}

theorem length_padded :
    (padded width n).length = max width (Nat.toDigits 10 n).length := by
  simp only [padded, List.length_append, List.length_replicate]
  omega

theorem length_padded_of_lt (hwidth : 0 < width) (hn : n < 10 ^ width) :
    (padded width n).length = width := by
  have hlength := (Nat.length_toDigits_le_iff (b := 10) (by decide) hwidth).mpr hn
  rw [length_padded]
  omega

theorem isDigit_of_mem_padded {c : Char} (h : c ∈ padded width n) : c.isDigit = true := by
  rcases List.mem_append.mp h with h | h
  . rw [List.eq_of_mem_replicate h]
    rfl
  . exact Nat.isDigit_of_mem_toDigits (by decide) (by decide) h

theorem valueOf_padded : Decimal.valueOf (padded width n) = n := by
  rw [Decimal.valueOf_eq]
  simp [padded, Nat.ofDigitChars_append]

theorem padded_ne_nil : padded width n ≠ [] := by
  have hpos := Nat.length_toDigits_pos (b := 10) (n := n)
  apply List.ne_nil_of_length_pos
  rw [length_padded]
  omega

theorem scanNumber_padded (hleast : least ≤ (padded width n).length)
    (hmost : (padded width n).length ≤ most) (hn : n < Nat.pow 2 63)
    (hrest : Text.Stops Char.isDigit rest) :
    scanNumber least most (padded width n ++ rest) = some (n, rest) := by
  have hdigits : ∀ c ∈ padded width n, c.isDigit = true := fun c => isDigit_of_mem_padded
  have htake : Text.Stops Char.isDigit (rest.take (most - (padded width n).length)) := by
    intro c hc
    apply hrest c
    rw [List.head?_take] at hc
    split at hc
    . cases hc
    . exact hc
  unfold scanNumber
  rw [List.take_append, List.take_of_length_le hmost, Text.takeWhile_of_stops hdigits htake]
  dsimp only
  rw [valueOf_padded, List.drop_left, if_neg]
  simp at hn ⊢
  omega

theorem lt_of_scanNumber (h : scanNumber least most s = some (n, rest)) :
    n < 10 ^ (s.length - rest.length) ∧ s.length - rest.length ≤ most := by
  obtain ⟨ds, hds⟩ : ∃ ds, ds = (s.take most).takeWhile Char.isDigit := ⟨_, rfl⟩
  unfold scanNumber at h
  rw [← hds] at h
  dsimp only at h
  split at h
  . cases h
  . injection h with h
    injection h with hn hrest
    have hlength : ds.length ≤ (s.take most).length := by
      rw [hds]
      exact (List.takeWhile_sublist _).length_le
    have hdigits : ∀ c ∈ ds, c.isDigit = true := by
      rw [hds]
      intro c
      apply List.mem_takeWhile_imp
    have hread : s.length - rest.length = ds.length := by
      rw [← hrest, List.length_drop]
      rw [List.length_take] at hlength
      omega
    rw [hread, ← hn]
    rw [List.length_take] at hlength
    exact ⟨Decimal.valueOf_lt hdigits, by omega⟩

theorem stops_isBlank_padded (rest : List Char) :
    Text.Stops Text.isBlank (padded width n ++ rest) := by
  apply Text.stops_append_of_ne_nil
  . intro c hc
    exact Text.isBlank_of_isDigit (isDigit_of_mem_padded hc)
  . exact padded_ne_nil

@[simp]
theorem trimStart_padded : Text.trimStart (padded width n ++ rest) = padded width n ++ rest :=
  Text.trimStart_of_stops (stops_isBlank_padded rest)

theorem scanNumber_twoDigits (hn : n < 100) (hrest : Text.Stops Char.isDigit rest) :
    scanNumber 1 2 (padded 2 n ++ rest) = some (n, rest) := by
  have hlength : (padded 2 n).length = 2 := length_padded_of_lt (by decide) hn
  apply scanNumber_padded
  . omega
  . omega
  . have : n < Nat.pow 2 63 := Nat.lt_of_lt_of_le hn (by decide)
    exact this
  . exact hrest

end Numbers

/-! ## Dates -/

section Dates

variable {year : Int} {n : Nat} {rest : List Char}

theorem scanYear_padded (hn : n ≤ 9999) (hrest : Text.Stops Char.isDigit rest) :
    scanYear (padded 4 n ++ rest) = some ((n : Int), rest) := by
  have hlength : (padded 4 n).length = 4 := by
    apply length_padded_of_lt
    . decide
    . omega
  have hscan : scanNumber 1 4 (padded 4 n ++ rest) = some (n, rest) := by
    apply scanNumber_padded
    . omega
    . omega
    . exact Nat.lt_of_le_of_lt hn (by decide)
    . exact hrest
  have hsign : ∀ c s, padded 4 n ++ rest = c :: s → c ≠ '-' ∧ c ≠ '+' := by
    intro c s hs
    cases hpadded : padded 4 n with
    | nil => exact absurd hpadded padded_ne_nil
    | cons d ds =>
      have hdigit := isDigit_of_mem_padded (hpadded ▸ List.mem_cons_self : d ∈ padded 4 n)
      rw [hpadded] at hs
      injection hs with hd
      subst hd
      constructor
      . rintro rfl
        cases hdigit
      . rintro rfl
        cases hdigit
  unfold scanYear
  split
  . next s hs => exact absurd rfl (hsign _ _ hs).1
  . next s hs => exact absurd rfl (hsign _ _ hs).2
  . rw [hscan]
    rfl

theorem scanYear_yearText (hyear : year.natAbs < Nat.pow 2 63) (hrest : Text.Stops Char.isDigit rest) :
    scanYear (yearText year ++ rest) = some (year, rest) := by
  have hscan : scanNumber 1 (padded 4 year.natAbs ++ rest).length (padded 4 year.natAbs ++ rest) =
      some (year.natAbs, rest) := by
    apply scanNumber_padded
    . exact List.length_pos_iff.mpr padded_ne_nil
    . rw [List.length_append]
      omega
    . exact hyear
    . exact hrest
  unfold yearText
  split
  . next hfour =>
    simp at hfour
    rw [scanYear_padded (by omega) hrest, Int.toNat_of_nonneg hfour.1]
  . rw [List.cons_append]
    split
    . next hnegative =>
      simp only [scanYear, hscan, Option.map_some]
      have : -(year.natAbs : Int) = year := by
        omega
      rw [this]
    . next hpositive =>
      simp only [scanYear, hscan, Option.map_some]
      have : (year.natAbs : Int) = year := by
        omega
      rw [this]

theorem trimStart_yearText : Text.trimStart (yearText year ++ rest) = yearText year ++ rest := by
  apply Text.trimStart_of_stops
  unfold yearText
  split
  . exact stops_isBlank_padded rest
  . rw [List.cons_append, Text.stops_cons]
    split <;> rfl

theorem scanDate_dateText {t : Instant} (hyear : t.date.year.natAbs < Nat.pow 2 63)
    (hmonth : t.date.month < 100) (hday : t.date.day < 100) (hrest : Text.Stops Char.isDigit rest) :
    scanDate Text.trimStart (t.dateText ++ rest) =
      some ({ year := t.date.year, month := t.date.month, day := t.date.day }, rest) := by
  have hminus : ∀ s, Text.Stops Char.isDigit ('-' :: s) := by
    simp
  have hgap : ∀ s, Text.trimStart ('-' :: s) = '-' :: s := by
    intro s
    apply Text.trimStart_of_stops
    rw [Text.stops_cons]
    rfl
  unfold scanDate dateText
  dsimp only
  simp only [List.append_assoc, List.cons_append, trimStart_yearText,
    scanYear_yearText hyear (hminus _), Option.bind_eq_bind, Option.bind_some, hgap, scanChar, if_true,
    trimStart_padded, scanNumber_twoDigits hmonth (hminus _), scanNumber_twoDigits hday hrest]
  rfl

end Dates

/-! ## Times of day -/

def wholeClockText (hour minute second : Nat) : List Char :=
  padded 2 hour ++ ':' :: padded 2 minute ++ ':' :: padded 2 second

section Clock

variable {f : Fields} {hour minute second nanos : Nat} {rest s : List Char}

theorem scanClock_wholeClockText (hhour : hour < 100) (hminute : minute < 100) (hsecond : second < 100)
    (hrest : Text.Stops Char.isDigit rest) :
    scanClock Text.trimStart f (wholeClockText hour minute second ++ rest) =
      some ({ f with hour, minute, second }, rest) := by
  have hcolon : ∀ s, Text.Stops Char.isDigit (':' :: s) := by
    simp
  have hgap : ∀ s, Text.trimStart (':' :: s) = ':' :: s := by
    intro s
    apply Text.trimStart_of_stops
    rw [Text.stops_cons]
    rfl
  unfold scanClock wholeClockText
  simp only [List.append_assoc, List.cons_append, trimStart_padded,
    scanNumber_twoDigits hhour (hcolon _), Option.bind_eq_bind, Option.bind_some, hgap, scanChar,
    if_true, scanNumber_twoDigits hminute (hcolon _), scanNumber_twoDigits hsecond hrest]
  rfl

theorem scanFraction_padded {width n : Nat} (hwidth : 0 < width ∧ width ≤ 9) (hn : n < 10 ^ width)
    (hrest : Text.Stops Char.isDigit rest) :
    scanFraction ('.' :: (padded width n ++ rest)) = some (n * Nat.pow 10 (9 - width), rest) := by
  have hlength := length_padded_of_lt hwidth.1 hn
  have hlt : 10 ^ width ≤ 10 ^ 9 := Nat.pow_le_pow_right (by decide) hwidth.2
  have hscan : scanNumber 1 9 (padded width n ++ rest) = some (n, rest) := by
    apply scanNumber_padded
    . omega
    . omega
    . simp
      omega
    . exact hrest
  have hdrop : rest.dropWhile Char.isDigit = rest := Text.dropWhile_of_stops (s := []) nofun hrest
  have hread : (padded width n ++ rest).length - rest.length = width := by
    rw [List.length_append, hlength, Nat.add_sub_cancel]
  unfold scanFraction
  simp only [hscan, Option.map_some, hdrop, hread]

theorem scanFraction_fractionText (hnanos : nanos < 1000000000) :
    scanFraction (fractionText nanos ++ ['Z']) = some (nanos, ['Z']) := by
  have hrest : Text.Stops Char.isDigit ['Z'] := by
    simp
  unfold fractionText
  split
  . next hzero =>
    rw [hzero]
    rfl
  . split
    . next hmillis =>
      rw [List.cons_append, scanFraction_padded (by decide) (by omega) hrest]
      simp
      omega
    . split
      . next hmicros =>
        rw [List.cons_append, scanFraction_padded (by decide) (by omega) hrest]
        simp
        omega
      . rw [List.cons_append, scanFraction_padded (by decide) (by omega) hrest]
        simp

theorem stops_isDigit_fractionText : Text.Stops Char.isDigit (fractionText nanos ++ ['Z']) := by
  unfold fractionText
  split
  . simp
  . split
    . simp
    . split <;> simp

theorem lt_of_scanFraction (h : scanFraction s = some (nanos, rest)) : nanos < 1000000000 := by
  unfold scanFraction at h
  split at h
  . next digits =>
    rw [Option.map_eq_some_iff] at h
    obtain ⟨⟨n, rest'⟩, hscan, heq⟩ := h
    injection heq with hnanos _
    obtain ⟨hn, hplaces⟩ := lt_of_scanNumber hscan
    rw [← hnanos]
    calc n * 10 ^ (9 - (digits.length - rest'.length))
      _ < 10 ^ (digits.length - rest'.length) * 10 ^ (9 - (digits.length - rest'.length)) := by
        exact Nat.mul_lt_mul_of_pos_right hn (Nat.pow_pos (by decide))
      _ = 10 ^ 9 := by
        rw [← Nat.pow_add, Nat.add_sub_cancel' hplaces]
  . injection h with h
    injection h with hnanos _
    omega

end Clock

/-! ## Points in time -/

/-- What a clock and a calendar can show. The leap second ends a minute. -/
structure IsProper (t : Instant) : Prop where
  inCalendar : t.inCalendar = true
  nanos : t.nanos < 2000000000
  leap : 1000000000 ≤ t.nanos → t.seconds % 60 = 59

section Reading

variable {t : Instant} {f : Fields} {offset : Int} {s rest : List Char}

theorem inCalendar_iff :
    t.inCalendar = true ↔ Date.InCalendar (t.seconds / secondsPerDay) := by
  simp only [inCalendar, Bool.and_eq_true, decide_eq_true_eq, Date.InCalendar]
  simp only [secondsPerDay]
  omega

def Fields.date (f : Fields) : Date :=
  { year := f.year, month := f.month, day := f.day }

theorem ofFields_eq_some_iff :
    ofFields f offset = some t ↔
      (f.date.isValid = true ∧ f.hour ≤ 23 ∧ f.minute ≤ 59 ∧ f.second ≤ 60) ∧
      t.seconds = f.date.toDays * secondsPerDay +
        (f.hour * 3600 + f.minute * 60 + (f.second - f.second / 60) : Nat) - offset ∧
      t.nanos = f.nanos + f.second / 60 * 1000000000 ∧
      t.inCalendar = true := by
  unfold ofFields
  dsimp only
  split
  . next hvalid =>
    simp only [Bool.and_eq_true, decide_eq_true_eq, and_assoc] at hvalid
    constructor
    . intro h
      split at h
      . next hcalendar =>
        injection h with h
        subst h
        exact ⟨hvalid, rfl, rfl, hcalendar⟩
      . cases h
    . rintro ⟨_, hseconds, hnanos, hcalendar⟩
      obtain ⟨seconds, nanos⟩ := t
      dsimp only at hseconds hnanos
      rw [hseconds, hnanos] at hcalendar ⊢
      exact if_pos hcalendar
  . next hinvalid =>
    simp only [Bool.and_eq_true, decide_eq_true_eq, and_assoc] at hinvalid
    constructor
    . nofun
    . rintro ⟨hvalid, _⟩
      exact absurd hvalid hinvalid

def fields (t : Instant) : Fields :=
  let second := (t.seconds % secondsPerDay).toNat
  { year := t.date.year
    month := t.date.month
    day := t.date.day
    hour := second / 3600
    minute := second / 60 % 60
    second := second % 60 + t.nanos / 1000000000
    nanos := t.nanos % 1000000000 }

theorem ofFields_fields (h : t.IsProper) : ofFields t.fields 0 = some t := by
  obtain ⟨hdays, hvalid⟩ := Date.toDays_ofDays (inCalendar_iff.mp h.inCalendar)
  have hdate : t.fields.date.toDays = t.seconds / secondsPerDay := hdays
  have hnanos := h.nanos
  have hleap := h.leap
  rw [ofFields_eq_some_iff, hdate]
  simp only [fields, secondsPerDay]
  refine ⟨⟨hvalid, ?_, ?_, ?_⟩, ?_, ?_, h.inCalendar⟩
  all_goals
    omega

theorem isProper_of_ofFields (hnanos : f.nanos < 1000000000) (hoffset : offset % 60 = 0)
    (h : ofFields f offset = some t) : t.IsProper := by
  obtain ⟨⟨_, hhour, hminute, hsecond⟩, hseconds, hfraction, hcalendar⟩ := ofFields_eq_some_iff.mp h
  unfold secondsPerDay at hseconds
  refine ⟨hcalendar, ?_, ?_⟩
  . omega
  . intro hleap
    omega

theorem clockText_eq :
    t.clockText =
      wholeClockText t.fields.hour t.fields.minute t.fields.second ++ fractionText t.fields.nanos := by
  simp [clockText, wholeClockText, fields]

theorem toList_rfc3339 :
    t.rfc3339.toList =
      t.dateText ++ 'T' :: (wholeClockText t.fields.hour t.fields.minute t.fields.second ++
        (fractionText t.fields.nanos ++ ['Z'])) := by
  simp [rfc3339, clockText_eq]

theorem readRelaxed_rfc3339 (h : t.IsProper) : readRelaxed t.rfc3339.toList = some t := by
  have hread := ofFields_fields h
  obtain ⟨⟨hvalid, hhour, hminute, hsecond⟩, _⟩ := ofFields_eq_some_iff.mp hread
  simp only [Date.isValid, Bool.and_eq_true, decide_eq_true_eq, and_assoc] at hvalid
  obtain ⟨hfirst, hlast, _, hmonth, _, hday⟩ := hvalid
  have hyear : t.date.year.natAbs < Nat.pow 2 63 := by
    have hfirst : -262143 ≤ t.date.year := hfirst
    have hlast : t.date.year ≤ 262142 := hlast
    simp
    omega
  have hday : t.date.day < 100 := by
    have := Date.daysInMonth_le t.fields.date.year t.fields.date.month
    have : t.date.day ≤ Date.daysInMonth t.fields.date.year t.fields.date.month := hday
    omega
  have hmark : ∀ s, Text.Stops Char.isDigit ('T' :: s) := by
    simp
  have hnanos : t.fields.nanos < 1000000000 := Nat.mod_lt _ (by decide)
  rw [toList_rfc3339]
  unfold readRelaxed
  rw [scanDate_dateText hyear (Nat.lt_of_le_of_lt hmonth (by decide)) hday (hmark _)]
  simp only [Option.bind_eq_bind, Option.bind_some, scanMark, decide_true, Bool.true_or, if_true]
  rw [scanClock_wholeClockText (by omega) (by omega) (by omega) stops_isDigit_fractionText]
  simp only [Option.bind_some, scanFraction_fractionText hnanos]
  exact hread

theorem emod_of_scanOffset {separator : List Char → Option (List Char)}
    (h : scanOffset separator s = some (offset, rest)) : offset % 60 = 0 := by
  unfold scanOffset at h
  split at h
  . cases h
  . split at h
    . injection h with h
      injection h with hoffset _
      omega
    . split at h
      . simp only [Option.bind_eq_bind, Option.bind_eq_some_iff] at h
        obtain ⟨⟨hours, s₁⟩, _, s₂, _, _, _, ⟨minutes, s₃⟩, _, h⟩ := h
        injection h with h
        injection h with hoffset _
        dsimp only at hoffset
        split at hoffset <;> omega
      . cases h

theorem isProper_of_readRelaxed (h : readRelaxed s = some t) : t.IsProper := by
  simp only [readRelaxed, Option.bind_eq_bind, Option.bind_eq_some_iff] at h
  obtain ⟨_, _, _, _, _, _, ⟨nanos, _⟩, hfraction, h⟩ := h
  have hnanos := lt_of_scanFraction hfraction
  split at h
  . simp only [Option.bind_eq_some_iff] at h
    obtain ⟨⟨offset, _⟩, hoffset, _, _, h⟩ := h
    injection hoffset with hoffset
    injection hoffset with hoffset _
    subst hoffset
    exact isProper_of_ofFields hnanos rfl h
  . simp only [Option.bind_eq_some_iff] at h
    obtain ⟨⟨offset, _⟩, hoffset, _, _, h⟩ := h
    exact isProper_of_ofFields hnanos (emod_of_scanOffset hoffset) h

end Reading

end Instant
end StrategyDesk
