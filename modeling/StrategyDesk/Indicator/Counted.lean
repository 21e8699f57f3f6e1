import StrategyDesk.Count
import StrategyDesk.Rule.Evaluation
import StrategyDesk.Strategy.Config

/-!
This module contains indicators as they are computed place by place. Periods and places are counts
of 64 bits, and every sum of them is looked after.
-/

namespace StrategyDesk
namespace Counted

open Arithmetic Candle Indicator

variable {α : Type}

/-! ## Warm-up -/

def minCandles : Indicator α → Except Fault Nat
  | .sma period | .ema period | .bollinger period _ => return period
  | .rsi period | .atr period => Count.add period 1
  | .macd fast slow signal => return (← Count.add (max fast slow) signal) - 1
  | .stochastic kPeriod dPeriod => return (← Count.add kPeriod dPeriod) - 1
  | .vwap => return 1

def requiredCandles (cfg : Config α) : Except Fault Nat := do
  let counts ← cfg.indicators.mapM fun ki => minCandles ki.indicator
  return counts.foldl max 1

/-! ## Series -/

def none (ind : Indicator α) : Series α where
  indicator := ind
  offset := 0
  points := #[]

def aligned (ind : Indicator α) (cs : List (Candle α)) (offset : Nat)
    (readings : List (Reading α)) : Except Fault (Series α) := do
  let covered ← Place.onwards cs offset
  let points := (covered.zip readings).map fun (c, reading) => { time := c.time, reading }
  return { indicator := ind, offset, points := points.toArray }

variable [Arithmetic α]

/-! ## Averages -/

def start (p : Nat) (xs : List α) : Except Fault α :=
  return sum (← Place.upTo xs p) / ofNat p

def room (xs : List α) (p : Nat) : Except Fault Nat := do
  Count.add (← Count.sub xs.length p) 1

def exponential (p : Nat) (xs : List α) : Except Fault (List α) :=
  if p = 0 || xs.length < p then
    return []
  else do
    let first ← start p xs
    let _ ← room xs p
    let step average x := (x - average) * (2 / (ofNat p + 1)) + average
    return Average.running step first (← Place.onwards xs p)

def sma (period : Nat) (cs : List (Candle α)) : Except Fault (Series α) := do
  let values := Average.plain period (closes cs)
  if values.isEmpty then
    return none (.sma period)
  else
    aligned (.sma period) cs (← Count.sub period 1) (values.map .simple)

def ema (period : Nat) (cs : List (Candle α)) : Except Fault (Series α) := do
  let values ← exponential period (closes cs)
  if values.isEmpty then
    return none (.ema period)
  else
    aligned (.ema period) cs (← Count.sub period 1) (values.map .simple)

def macdAt (fast slow : Nat) (short long : List α) (i : Nat) : Except Fault α := do
  let x ← Place.entry short (← Count.sub (← Count.add i 1) fast)
  let y ← Place.entry long (← Count.sub (← Count.add i 1) slow)
  return x - y

def macdReading (signal : Nat) (line : List α) (average : α) (i : Nat) :
    Except Fault (Reading α) := do
  let x ← Place.entry line (← Count.sub (← Count.add i signal) 1)
  return .macd x average (x - average)

def macd (fast slow signal : Nat) (cs : List (Candle α)) : Except Fault (Series α) :=
  if fast = 0 || slow = 0 || signal = 0 then
    return none (.macd fast slow signal)
  else do
    let short ← exponential fast (closes cs)
    let long ← exponential slow (closes cs)
    if short.isEmpty || long.isEmpty then
      return none (.macd fast slow signal)
    else
      let first ← Count.sub (max fast slow) 1
      let line ← (List.range' first (cs.length - first)).mapM (macdAt fast slow short long)
      let averages ← exponential signal line
      if averages.isEmpty then
        return none (.macd fast slow signal)
      else
        let readings ← averages.zipIdx.mapM fun (average, i) => macdReading signal line average i
        aligned (.macd fast slow signal) cs (← Count.sub (← Count.add first signal) 1) readings

def bollinger (period : Nat) (k : α) (cs : List (Candle α)) : Except Fault (Series α) :=
  if period = 0 || cs.length < period then
    return none (.bollinger period k)
  else do
    let readings := (Average.windows period (closes cs)).map (bandsAround k)
    aligned (.bollinger period k) cs (← Count.sub period 1) readings

/-! ## Changes from candle to candle -/

def pairOf (window : List (Candle α)) : Except Fault (Candle α × Candle α) :=
  return (← Place.entry window 0, ← Place.entry window 1)

def changes (cs : List (Candle α)) : Except Fault (List (Candle α × Candle α)) :=
  (Average.windows 2 cs).mapM pairOf

def gainOf (pair : Candle α × Candle α) : α :=
  let change := pair.2.close - pair.1.close
  if 0 < change then change else 0

def lossOf (pair : Candle α × Candle α) : α :=
  let change := pair.2.close - pair.1.close
  if change < 0 then -change else 0

def weigh (p before : Nat) (average x : α) : α :=
  (average * ofNat before + x) / ofNat p

def strengths (p before : Nat) (gains losses : List α) (gain loss : α) :
    List Nat → Except Fault (List α)
  | [] => return []
  | i :: is => do
    let gain := weigh p before gain (← Place.entry gains i)
    let loss := weigh p before loss (← Place.entry losses i)
    return relativeStrength gain loss :: (← strengths p before gains losses gain loss is)

def rsi (period : Nat) (cs : List (Candle α)) : Except Fault (Series α) :=
  if period = 0 then
    return none (.rsi period)
  else do
    if cs.length < (← Count.add period 1) then
      return none (.rsi period)
    else
      let _ ← Count.sub cs.length 1
      let pairs ← changes cs
      let gains := pairs.map gainOf
      let losses := pairs.map lossOf
      let gain ← start period gains
      let loss ← start period losses
      let _ ← room gains period
      let before ← Count.sub period 1
      let later ← strengths period before gains losses gain loss
        (List.range' period (gains.length - period))
      aligned (.rsi period) cs period ((relativeStrength gain loss :: later).map .simple)

def atr (period : Nat) (cs : List (Candle α)) : Except Fault (Series α) :=
  if period = 0 then
    return none (.atr period)
  else do
    if cs.length < (← Count.add period 1) then
      return none (.atr period)
    else
      let ranges := (← changes cs).map fun (before, c) => c.trueRange before.close
      let first ← start period ranges
      let _ ← room ranges period
      let before ← Count.sub period 1
      let values := Average.running (weigh period before) first (← Place.onwards ranges period)
      aligned (.atr period) cs period (values.map .simple)

/-! ## Ranges -/

def percentK (window : List (Candle α)) : Except Fault α := do
  let low := lowest (window.map Candle.low)
  let high := highest (window.map Candle.high)
  let last ← Place.entry window (← Count.sub window.length 1)
  return if high == low then 50 else (last.close - low) / (high - low) * 100

def stochasticReading (dPeriod : Nat) (ks : List α) (d : α) (i : Nat) :
    Except Fault (Reading α) := do
  let k ← Place.entry ks (← Count.sub (← Count.add i dPeriod) 1)
  return .stochastic k d

def stochastic (kPeriod dPeriod : Nat) (cs : List (Candle α)) : Except Fault (Series α) :=
  if kPeriod = 0 || dPeriod = 0 || cs.length < kPeriod then
    return none (.stochastic kPeriod dPeriod)
  else do
    let ks ← (Average.windows kPeriod cs).mapM percentK
    let ds := Average.plain dPeriod ks
    if ds.isEmpty then
      return none (.stochastic kPeriod dPeriod)
    else
      let readings ← ds.zipIdx.mapM fun (d, i) => stochasticReading dPeriod ks d i
      let offset ← Count.sub (← Count.add (← Count.sub kPeriod 1) dPeriod) 1
      aligned (.stochastic kPeriod dPeriod) cs offset readings

/-! ## Volume -/

def vwap (cs : List (Candle α)) : Except Fault (Series α) :=
  match (turnovers cs).findIdx? fun (_, volume) => !(volume == 0) with
  | .none => return none .vwap
  | some offset => aligned .vwap cs offset ((vwapValues cs).map .simple)

/-! ## All indicators -/

def compute (ind : Indicator α) (cs : List (Candle α)) : Except Fault (Series α) :=
  match ind with
  | .sma period => sma period cs
  | .ema period => ema period cs
  | .rsi period => rsi period cs
  | .macd fast slow signal => macd fast slow signal cs
  | .bollinger period k => bollinger period k cs
  | .stochastic kPeriod dPeriod => stochastic kPeriod dPeriod cs
  | .atr period => atr period cs
  | .vwap => vwap cs

def computeAll (indicators : List (KeyedIndicator α)) (cs : List (Candle α)) :
    Except Fault (SeriesSet α) :=
  indicators.mapM fun ki => return (ki.key, ← compute ki.indicator cs)

end Counted
end StrategyDesk
