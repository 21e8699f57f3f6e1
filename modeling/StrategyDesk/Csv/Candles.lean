import StrategyDesk.Calendar.Reader
import StrategyDesk.Calendar.Window
import StrategyDesk.Candle
import StrategyDesk.Csv.Record
import StrategyDesk.Failure

/-!
This module contains the reading of candles from comma-separated text. The first record names the
columns: time, open, high, low, close, volume. Each other record is a candle. Candles outside of the
window are left out, the others come in the order of their times, and of several with one time the
first in the text counts.
-/

namespace StrategyDesk
namespace Csv

namespace Record

def failure (r : Record) (reason : String) : Failure :=
  .candleData s!"line {r.line}: {reason}"

def checkWidth (r : Record) (width : Nat) : Except Failure Unit :=
  if r.fields.length = width then .ok ()
  else
    .error (.candleData
      (s!"CSV parse error: CSV error: record {r.index} (line: {r.line}, byte: {r.byte}): " ++
        s!"found record with {r.fields.length} fields, " ++
        s!"but the previous record has {width} fields"))

def time (r : Record) : Except Failure Instant :=
  match r.fields[0]? with
  | none => .error (r.failure "missing time column")
  | some raw =>
    match Instant.read? raw.toList with
    | some t => .ok t
    | none => .error (r.failure s!"invalid time '{raw}'")

def number (r : Record) (column : Nat) (name : String) : Except Failure Float :=
  match r.fields[column]? with
  | none => .error (r.failure s!"missing {name} column")
  | some raw =>
    let s := Text.trim raw.toList
    match Decimal.read? s with
    | some x => .ok x
    | none => .error (r.failure s!"invalid {name} value '{raw}': {Decimal.complaint s}")

/-- The candle of a record if it lies in the window. Outside of it only the time has to be right. -/
def candle? (r : Record) (width : Nat) (w : Window) : Except Failure (Option (Candle Float)) := do
  r.checkWidth width
  let time ← r.time
  if w.contains time then
    return some {
      time
      openPrice := ← r.number 1 "open"
      high := ← r.number 2 "high"
      low := ← r.number 3 "low"
      close := ← r.number 4 "close"
      volume := ← r.number 5 "volume" }
  else
    return none

end Record

def firstOfEachTime : List (Candle Float) → List (Candle Float)
  | [] => []
  | c :: cs => c :: (firstOfEachTime cs).dropWhile fun d => d.time == c.time

def inOrder (cs : List (Candle Float)) : List (Candle Float) :=
  firstOfEachTime (cs.mergeSort fun c d => decide (c.time ≤ d.time))

def candlesOfRecords (w : Window) : List Record → Except Failure (List (Candle Float))
  | [] => .ok []
  | names :: rows => do
    let cs ← rows.mapM (·.candle? names.fields.length w)
    return inOrder (cs.filterMap id)

def readCandles (s : List Char) (w : Window) : Except Failure (List (Candle Float)) :=
  candlesOfRecords w (records s)

end Csv
end StrategyDesk
