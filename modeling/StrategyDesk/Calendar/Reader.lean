import StrategyDesk.Calendar.Instant
import StrategyDesk.Decimal.Integer
import StrategyDesk.Text.Blank

/-!
This module contains the reading of points in time: the strict and the relaxed form of RFC 3339,
dates with and without a time of day, and Unix seconds.
-/

namespace StrategyDesk
namespace Instant

structure Fields where
  year : Int
  month : Nat
  day : Nat
  hour : Nat := 0
  minute : Nat := 0
  second : Nat := 0
  nanos : Nat := 0

def ofFields (f : Fields) (offset : Int) : Option Instant :=
  let date : Date := { year := f.year, month := f.month, day := f.day }
  if date.isValid && f.hour ≤ 23 && f.minute ≤ 59 && f.second ≤ 60 then
    let leap := f.second / 60
    let second : Nat := f.hour * 3600 + f.minute * 60 + (f.second - leap)
    let t : Instant :=
      { seconds := date.toDays * secondsPerDay + second - offset
        nanos := f.nanos + leap * 1000000000 }
    if t.inCalendar then some t else none
  else
    none

def scanNumber (min max : Nat) (s : List Char) : Option (Nat × List Char) :=
  let ds := (s.take max).takeWhile Char.isDigit
  let n := Decimal.valueOf ds
  if ds.length < min || Nat.pow 2 63 ≤ n then none else some (n, s.drop ds.length)

def scanChar (c : Char) : List Char → Option (List Char)
  | [] => none
  | d :: s => if d = c then some s else none

def scanYear (s : List Char) : Option (Int × List Char) :=
  match s with
  | '-' :: s => (scanNumber 1 s.length s).map fun (n, s) => (-(n : Int), s)
  | '+' :: s => (scanNumber 1 s.length s).map fun (n, s) => ((n : Int), s)
  | s => (scanNumber 1 4 s).map fun (n, s) => ((n : Int), s)

def scanFraction (s : List Char) : Option (Nat × List Char) :=
  match s with
  | '.' :: s =>
    (scanNumber 1 9 s).map fun (n, rest) =>
      (n * Nat.pow 10 (9 - (s.length - rest.length)), rest.dropWhile Char.isDigit)
  | s => some (0, s)

def scanStrictDate (s : List Char) : Option (Fields × List Char) := do
  let (year, s) ← scanNumber 4 4 s
  let s ← scanChar '-' s
  let (month, s) ← scanNumber 2 2 s
  let s ← scanChar '-' s
  let (day, s) ← scanNumber 2 2 s
  return ({ year, month, day }, s)

def scanDate (gap : List Char → List Char) (s : List Char) : Option (Fields × List Char) := do
  let (year, s) ← scanYear (Text.trimStart s)
  let s ← scanChar '-' (gap s)
  let (month, s) ← scanNumber 1 2 (Text.trimStart s)
  let s ← scanChar '-' (gap s)
  let (day, s) ← scanNumber 1 2 (Text.trimStart s)
  return ({ year, month, day }, s)

def scanStrictClock (f : Fields) (s : List Char) : Option (Fields × List Char) := do
  let (hour, s) ← scanNumber 2 2 s
  let s ← scanChar ':' s
  let (minute, s) ← scanNumber 2 2 s
  let s ← scanChar ':' s
  let (second, s) ← scanNumber 2 2 s
  let (nanos, s) ← scanFraction s
  return ({ f with hour, minute, second, nanos }, s)

def scanClock (gap : List Char → List Char) (f : Fields) (s : List Char) :
    Option (Fields × List Char) := do
  let (hour, s) ← scanNumber 1 2 (Text.trimStart s)
  let s ← scanChar ':' (gap s)
  let (minute, s) ← scanNumber 1 2 (Text.trimStart s)
  let s ← scanChar ':' (gap s)
  let (second, s) ← scanNumber 1 2 (Text.trimStart s)
  return ({ f with hour, minute, second }, s)

def scanMark : List Char → Option (List Char)
  | c :: s => if c = 'T' || c = 't' || c = ' ' then some s else none
  | [] => none

def isHourDigit (c : Char) : Bool :=
  '0' ≤ c && c ≤ '5'

def scanOffset (separator : List Char → Option (List Char)) (s : List Char) :
    Option (Int × List Char) := do
  match s with
  | [] => none
  | c :: s =>
    if c = 'Z' || c = 'z' then
      return (0, s)
    else if c = '+' || c = '-' || c = '−' then
      let (hours, s) ← scanNumber 2 2 s
      let s ← separator s
      guard (s.head?.any isHourDigit)
      let (minutes, s) ← scanNumber 2 2 s
      let offset : Int := hours * 3600 + minutes * 60
      return (if c = '+' then offset else -offset, s)
    else
      none

def readStrict (s : List Char) : Option Instant := do
  let (f, s) ← scanStrictDate s
  let s ← scanMark s
  let (f, s) ← scanStrictClock f s
  let (offset, s) ← scanOffset (scanChar ':') s
  guard (s.isEmpty && offset.natAbs < 86400)
  ofFields f offset

/-- The relaxed form of RFC 3339, with blanks between its parts and `UTC` as the name of a zone. -/
def readRelaxed (s : List Char) : Option Instant := do
  let (f, s) ← scanDate Text.trimStart s
  let s ← scanMark s
  let (f, s) ← scanClock Text.trimStart f s
  let (nanos, s) ← scanFraction s
  let s := Text.trimStart s
  let (offset, s) ←
    if Text.sameLetters (s.take 3) ['U', 'T', 'C'] then
      some (0, s.drop 3)
    else
      scanOffset (fun s => some (s.dropWhile fun c => c == ':' || Text.isBlank c)) s
  guard (Text.allBlank s && offset.natAbs < 86400)
  ofFields { f with nanos } offset

def readDateTime (mark : List Char → Option (List Char)) (s : List Char) : Option Instant := do
  let (f, s) ← scanDate id s
  let s ← mark s
  let (f, s) ← scanClock id f s
  guard s.isEmpty
  ofFields f 0

def readDate (s : List Char) : Option Instant := do
  let (f, s) ← scanDate id s
  guard s.isEmpty
  ofFields f 0

def readUnixSeconds (s : List Char) : Option Instant := do
  let t : Instant := { seconds := ← (Decimal.readInteger s).toOption }
  guard t.inCalendar
  return t

/--
The point in time that a text stands for: RFC 3339, a date with a time of day, a date alone, or
seconds since 1970. Blanks around it do not count.
-/
def read? (s : List Char) : Option Instant :=
  let s := Text.trim s
  readStrict s <|>
  readDateTime (fun s => some (Text.trimStart s)) s <|>
  readDateTime (scanChar 'T') s <|>
  readDate s <|>
  readUnixSeconds s

end Instant
end StrategyDesk
