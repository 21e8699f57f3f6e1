import StrategyDesk.Arithmetic
import StrategyDesk.Failure

/-!
This module contains the technical indicators and their parameters, and the binding of an indicator
to the key by which rules name it.
-/

namespace StrategyDesk

inductive Indicator (α : Type) where
  | sma (period : Nat)
  | ema (period : Nat)
  | rsi (period : Nat)
  | macd (fast slow signal : Nat)
  | bollinger (period : Nat) (k : α)
  | stochastic (kPeriod dPeriod : Nat)
  | atr (period : Nat)
  | vwap
  deriving Repr

namespace Indicator

variable {α : Type}

def minCandles : Indicator α → Nat
  | .sma period | .ema period | .bollinger period _ => period
  | .rsi period | .atr period => period + 1
  | .macd fast slow signal => max fast slow + signal - 1
  | .stochastic kPeriod dPeriod => kPeriod + dPeriod - 1
  | .vwap => 1

def name : Indicator α → String
  | .sma .. => "SMA"
  | .ema .. => "EMA"
  | .rsi .. => "RSI"
  | .macd .. => "MACD"
  | .bollinger .. => "BOLLINGER"
  | .stochastic .. => "STOCHASTIC"
  | .atr .. => "ATR"
  | .vwap => "VWAP"

def periods : Indicator α → List (String × Nat)
  | .sma period | .ema period | .rsi period | .atr period | .bollinger period _ =>
    [("period", period)]
  | .macd fast slow signal => [("fast", fast), ("slow", slow), ("signal", signal)]
  | .stochastic kPeriod dPeriod => [("k_period", kPeriod), ("d_period", dPeriod)]
  | .vwap => []

variable [Arithmetic α]

def complaint? : Indicator α → Option Failure
  | .macd fast slow _ =>
    if slow ≤ fast then
      some (.invalid "MACD fast"
        s!"fast period ({fast}) must be shorter than slow period ({slow})")
    else
      none
  | .bollinger _ k =>
    if !Arithmetic.isFinite k || decide (k ≤ 0) then
      some (.invalid "BOLLINGER k" "band multiplier must be a positive number")
    else
      none
  | _ => none

def validate (ind : Indicator α) : Except Failure Unit :=
  match ind.periods.find? fun p => p.2 == 0 with
  | some (period, _) => .error (.invalid s!"{ind.name} {period}" "must be at least 1")
  | none =>
    match ind.complaint? with
    | some failure => .error failure
    | none => .ok ()

def text : Indicator α → String
  | .sma period => s!"SMA({period})"
  | .ema period => s!"EMA({period})"
  | .rsi period => s!"RSI({period})"
  | .atr period => s!"ATR({period})"
  | .macd fast slow signal => s!"MACD({fast},{slow},{signal})"
  | .bollinger period k => s!"BOLLINGER({period},{Arithmetic.text k})"
  | .stochastic kPeriod dPeriod => s!"STOCHASTIC({kPeriod},{dPeriod})"
  | .vwap => "VWAP"

end Indicator

structure KeyedIndicator (α : Type) where
  key : String
  indicator : Indicator α
  deriving Repr

namespace KeyedIndicator

variable {α : Type}

def trimmedKey (ki : KeyedIndicator α) : String :=
  Text.trimmed ki.key

def validate [Arithmetic α] (ki : KeyedIndicator α) : Except Failure Unit :=
  let key := Text.trim ki.key.toList
  if key.isEmpty then
    .error (.invalid "indicator key" "must not be empty")
  else if key.any fun c => c == '.' || Text.isBlank c then
    .error (.invalid "indicator key" s!"'{ki.key}' must not contain '.' or whitespace")
  else
    ki.indicator.validate

end KeyedIndicator
end StrategyDesk
