import StrategyDesk.Calendar.Date

/-!
This module contains that the numbering of days is read back. An era of 400 years falls into
centuries, cycles of four years and years, each of which may be a day shorter than those before it.
-/

namespace StrategyDesk
namespace Date

/--
How many centuries, cycles, years and days have passed of an era. A year has a last day more only if
it ends with a leap day.
-/
structure Passed (dayOfEra century cycle year day : Int) : Prop where
  eq : dayOfEra = 36524 * century + 1461 * cycle + 365 * year + day
  centuries : 0 ≤ century ∧ century ≤ 3
  cycles : 0 ≤ cycle ∧ cycle ≤ 24
  years : 0 ≤ year ∧ year ≤ 3
  days : 0 ≤ day
  last : day ≤ 364 ∨ day = 365 ∧ year = 3 ∧ (cycle ≤ 23 ∨ century = 3)

theorem exists_passed {dayOfEra : Int} (h : 0 ≤ dayOfEra ∧ dayOfEra < 146097) :
    ∃ century cycle year day, Passed dayOfEra century cycle year day := by
  obtain ⟨century, hcentury⟩ : ∃ n, n = min (dayOfEra / 36524) 3 := ⟨_, rfl⟩
  obtain ⟨cycle, hcycle⟩ : ∃ n, n = (dayOfEra - 36524 * century) / 1461 := ⟨_, rfl⟩
  obtain ⟨year, hyear⟩ : ∃ n, n = min ((dayOfEra - 36524 * century - 1461 * cycle) / 365) 3 :=
    ⟨_, rfl⟩
  refine ⟨century, cycle, year, dayOfEra - 36524 * century - 1461 * cycle - 365 * year, ?_⟩
  constructor <;> omega

variable {dayOfEra century cycle year day : Int}

theorem Passed.yearOfEra_eq (h : Passed dayOfEra century cycle year day) :
    (dayOfEra - dayOfEra / 1460 + dayOfEra / 36524 - dayOfEra / 146096) / 365 =
      100 * century + 4 * cycle + year := by
  obtain ⟨heq, hcentury, hcycle, hyear, hday, hlast⟩ := h
  have hera : dayOfEra / 146096 =
      if century = 3 ∧ cycle = 24 ∧ year = 3 ∧ day = 365 then 1 else 0 := by
    split <;> omega
  have hcenturies : dayOfEra / 36524 = century + dayOfEra / 146096 := by
    split at hera <;> omega
  have hcycles : dayOfEra / 1460 =
      25 * century + cycle + if 1460 ≤ 24 * century + cycle + 365 * year + day then 1 else 0 := by
    split <;> omega
  split at hera <;> split at hcycles <;> omega

theorem Passed.leapDays_eq (h : Passed dayOfEra century cycle year day) :
    365 * (100 * century + 4 * cycle + year) + (100 * century + 4 * cycle + year) / 4 -
      (100 * century + 4 * cycle + year) / 100 = dayOfEra - day := by
  obtain ⟨heq, hcentury, hcycle, hyear, hday, hlast⟩ := h
  omega

def ofYear (year day : Int) : Date :=
  let month := (5 * day + 2) / 153
  let dayOfMonth := (day - (153 * month + 2) / 5 + 1).toNat
  if month < 10 then { year, month := (month + 3).toNat, day := dayOfMonth }
  else { year := year + 1, month := (month - 9).toNat, day := dayOfMonth }

theorem ofDays_eq {days era : Int} (h : Passed dayOfEra century cycle year day)
    (hdays : days = era * 146097 + dayOfEra - 719468) :
    ofDays days = ofYear (100 * century + 4 * cycle + year + era * 400) day := by
  have hera : (days + 719468) / 146097 = era ∧ (days + 719468) % 146097 = dayOfEra := by
    obtain ⟨heq, hcentury, hcycle, hyear, hday, hlast⟩ := h
    omega
  unfold ofDays
  dsimp only
  rw [hera.1, hera.2, h.yearOfEra_eq, h.leapDays_eq, Int.sub_sub_self]
  rfl

theorem toDays_ofYear {yearOfEra era : Int} (hyear : 0 ≤ yearOfEra ∧ yearOfEra < 400)
    (hday : 0 ≤ day ∧ day ≤ 365) :
    (ofYear (yearOfEra + era * 400) day).toDays =
      era * 146097 + (yearOfEra * 365 + yearOfEra / 4 - yearOfEra / 100 + day) - 719468 := by
  have hera : (yearOfEra + era * 400) / 400 = era ∧ (yearOfEra + era * 400) % 400 = yearOfEra := by
    omega
  obtain ⟨month, hmonth⟩ : ∃ n, n = (5 * day + 2) / 153 := ⟨_, rfl⟩
  have hbounds : 0 ≤ month ∧ month ≤ 11 ∧ 0 ≤ day - (153 * month + 2) / 5 := by
    omega
  unfold ofYear
  dsimp only
  rw [← hmonth]
  split
  . have hlate : ¬(month + 3).toNat ≤ 2 := by
      omega
    have hback : (((month + 3).toNat : Nat) : Int) - 3 = month := by
      omega
    unfold toDays
    dsimp only
    rw [if_neg hlate, if_neg hlate, hback, hera.1, hera.2]
    omega
  . have hearly : (month - 9).toNat ≤ 2 := by
      omega
    have hback : (((month - 9).toNat : Nat) : Int) + 9 = month := by
      omega
    unfold toDays
    dsimp only
    rw [if_pos hearly, if_pos hearly, hback, Int.add_sub_cancel, hera.1, hera.2]
    omega

theorem isLeapYear_iff {year : Int} :
    isLeapYear year = true ↔ year % 4 = 0 ∧ (year % 100 ≠ 0 ∨ year % 400 = 0) := by
  simp [isLeapYear]

theorem daysInMonth_le (year : Int) (month : Nat) : daysInMonth year month ≤ 31 := by
  unfold daysInMonth
  split
  . split <;> decide
  all_goals
    decide

theorem day_le_daysInMonth_ofYear {year : Int} (hday : 0 ≤ day ∧ day ≤ 365)
    (hleap : day = 365 → isLeapYear (year + 1) = true) :
    1 ≤ (ofYear year day).month ∧ (ofYear year day).month ≤ 12 ∧ 1 ≤ (ofYear year day).day ∧
      (ofYear year day).day ≤ daysInMonth (ofYear year day).year (ofYear year day).month := by
  obtain ⟨month, hmonth⟩ : ∃ n, n = (5 * day + 2) / 153 := ⟨_, rfl⟩
  have hmonths : month = 11 ∨ month = 0 ∨ month = 1 ∨ month = 2 ∨ month = 3 ∨ month = 4 ∨ month = 5 ∨
      month = 6 ∨ month = 7 ∨ month = 8 ∨ month = 9 ∨ month = 10 := by
    omega
  unfold ofYear
  dsimp only
  rw [← hmonth]
  rcases hmonths with rfl | hmonths
  . -- February, which has a last day in some years only
    by_cases hlast : day = 365
    . simp [daysInMonth, hleap hlast]
      omega
    . simp [daysInMonth]
      split <;> omega
  . rcases hmonths with rfl | rfl | rfl | rfl | rfl | rfl | rfl | rfl | rfl | rfl | rfl
    all_goals
      simp [daysInMonth]
      omega

theorem year_ofYear {year : Int} (hday : 0 ≤ day) :
    (ofYear year day).year = if day < 306 then year else year + 1 := by
  unfold ofYear
  dsimp only
  split
  . rw [if_pos (by omega)]
  . rw [if_neg (by omega)]

def InCalendar (days : Int) : Prop :=
  ({ year := firstYear, month := 1, day := 1 } : Date).toDays ≤ days ∧
    days < ({ year := lastYear + 1, month := 1, day := 1 } : Date).toDays

theorem inCalendar_iff {days : Int} : InCalendar days ↔ -96465292 ≤ days ∧ days < 95026237 :=
  Iff.rfl

theorem toDays_ofDays {days : Int} (h : InCalendar days) :
    (ofDays days).toDays = days ∧ (ofDays days).isValid = true := by
  obtain ⟨hfirst, hlast⟩ := inCalendar_iff.mp h
  have hdayOfEra : 0 ≤ (days + 719468) % 146097 ∧ (days + 719468) % 146097 < 146097 := by
    omega
  obtain ⟨century, cycle, year, day, hpassed⟩ := exists_passed hdayOfEra
  obtain ⟨era, hera⟩ : ∃ n, n = (days + 719468) / 146097 := ⟨_, rfl⟩
  have hsplit : days = era * 146097 + (days + 719468) % 146097 - 719468 := by
    omega
  rw [ofDays_eq hpassed hsplit]
  have hleapDays := hpassed.leapDays_eq
  obtain ⟨heq, hcentury, hcycle, hyear, hday, hlastDay⟩ := hpassed
  obtain ⟨yearOfEra, hyearOfEra⟩ : ∃ n, n = 100 * century + 4 * cycle + year := ⟨_, rfl⟩
  rw [← hyearOfEra] at hleapDays ⊢
  have hdays : 0 ≤ day ∧ day ≤ 365 := by
    omega
  constructor
  . rw [toDays_ofYear (by omega) hdays]
    omega
  . have hleap : day = 365 → isLeapYear (yearOfEra + era * 400 + 1) = true := by
      intro hday
      rw [isLeapYear_iff]
      omega
    obtain ⟨hmonth, hmonth', hday, hday'⟩ := day_le_daysInMonth_ofYear hdays hleap
    have hyears : firstYear ≤ (ofYear (yearOfEra + era * 400) day).year ∧
        (ofYear (yearOfEra + era * 400) day).year ≤ lastYear := by
      -- only the first and the last era reach beyond the calendar
      have heras : era = -656 ∨ era = 655 ∨ -655 ≤ era ∧ era ≤ 654 := by
        omega
      have hcenturies : century = 0 ∨ century = 1 ∨ century = 2 ∨ century = 3 := by
        omega
      rw [year_ofYear hdays.1]
      unfold firstYear lastYear
      clear hday' hleap hlastDay hleapDays hmonth hmonth'
      rcases heras with rfl | rfl | heras
      . rcases hcenturies with rfl | rfl | rfl | rfl <;> split <;> omega
      . rcases hcenturies with rfl | rfl | rfl | rfl <;> split <;> omega
      . split <;> omega
    simp [isValid, hyears, hmonth, hmonth', hday, hday']

end Date
end StrategyDesk
