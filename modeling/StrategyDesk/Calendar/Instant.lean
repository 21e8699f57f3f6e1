import StrategyDesk.Calendar.Date

/-!
This module contains points in time, their order and their written forms.
-/

namespace StrategyDesk

/--
A point in time: seconds since 1970-01-01 00:00:00 UTC and a fraction in nanoseconds. A fraction of
a whole second or more lies in the leap second after the given one.
-/
structure Instant where
  seconds : Int
  nanos : Nat := 0
  deriving Repr, DecidableEq

namespace Instant

instance : LT Instant where
  lt a b := a.seconds < b.seconds ∨ a.seconds = b.seconds ∧ a.nanos < b.nanos

instance : LE Instant where
  le a b := a.seconds < b.seconds ∨ a.seconds = b.seconds ∧ a.nanos ≤ b.nanos

instance : DecidableLT Instant := fun a b =>
  inferInstanceAs (Decidable (a.seconds < b.seconds ∨ a.seconds = b.seconds ∧ a.nanos < b.nanos))

instance : DecidableLE Instant := fun a b =>
  inferInstanceAs (Decidable (a.seconds < b.seconds ∨ a.seconds = b.seconds ∧ a.nanos ≤ b.nanos))

def secondsPerDay : Int := 86400

def date (t : Instant) : Date :=
  Date.ofDays (t.seconds / secondsPerDay)

def inCalendar (t : Instant) : Bool :=
  ({ year := Date.firstYear, month := 1, day := 1 } : Date).toDays * secondsPerDay ≤ t.seconds &&
    t.seconds < ({ year := Date.lastYear + 1, month := 1, day := 1 } : Date).toDays * secondsPerDay

/-- The point in time a number of seconds before. Time within a leap second counts as elapsed. -/
def before (t : Instant) (seconds : Int) : Instant :=
  if seconds = 0 then t
  else { seconds := t.seconds - seconds + t.nanos / 1000000000, nanos := t.nanos % 1000000000 }

def padded (width n : Nat) : List Char :=
  let ds := Nat.toDigits 10 n
  List.replicate (width - ds.length) '0' ++ ds

def yearText (year : Int) : List Char :=
  if 0 ≤ year && year ≤ 9999 then padded 4 year.toNat
  else (if year < 0 then '-' else '+') :: padded 4 year.natAbs

def dateText (t : Instant) : List Char :=
  let d := t.date
  yearText d.year ++ '-' :: padded 2 d.month ++ '-' :: padded 2 d.day

def fractionText (nanos : Nat) : List Char :=
  if nanos = 0 then []
  else if nanos % 1000000 = 0 then '.' :: padded 3 (nanos / 1000000)
  else if nanos % 1000 = 0 then '.' :: padded 6 (nanos / 1000)
  else '.' :: padded 9 nanos

def clockText (t : Instant) : List Char :=
  let second := (t.seconds % secondsPerDay).toNat
  let leap := t.nanos / 1000000000
  padded 2 (second / 3600) ++ ':' :: padded 2 (second / 60 % 60) ++
    ':' :: padded 2 (second % 60 + leap) ++ fractionText (t.nanos % 1000000000)

def text (t : Instant) : String :=
  String.ofList (t.dateText ++ ' ' :: t.clockText ++ [' ', 'U', 'T', 'C'])

def rfc3339 (t : Instant) : String :=
  String.ofList (t.dateText ++ 'T' :: t.clockText ++ ['Z'])

end Instant
end StrategyDesk
