import StrategyDesk.Indicator.Basic
import StrategyDesk.Scan

/-!
This module contains the reading of indicators: a name and, in parentheses, its parameters.
-/

namespace StrategyDesk

inductive IndicatorFamily where
  | sma
  | ema
  | rsi
  | atr
  | macd
  | bollinger
  | stochastic
  | vwap
  deriving Repr, DecidableEq

namespace IndicatorFamily

def ofName? : String → Option IndicatorFamily
  | "SMA" => some .sma
  | "EMA" => some .ema
  | "RSI" => some .rsi
  | "ATR" => some .atr
  | "MACD" => some .macd
  | "BOLLINGER" | "BB" => some .bollinger
  | "STOCHASTIC" | "STOCH" => some .stochastic
  | "VWAP" => some .vwap
  | _ => none

def arity : IndicatorFamily → Nat
  | .sma | .ema | .rsi | .atr => 1
  | .macd => 3
  | .bollinger | .stochastic => 2
  | .vwap => 0

end IndicatorFamily

namespace Indicator

def periodOf (name : String) (x : Float) : Except Problem Nat :=
  if Binary64.isWhole x && decide (1 ≤ x) then .ok (Binary64.toCount x)
  else .error (.unusablePeriod name x)

def ofArguments (name : String) (family : IndicatorFamily) (args : List Float) :
    Except Problem (Indicator Float) :=
  match family, args with
  | .sma, [p] => return .sma (← periodOf name p)
  | .ema, [p] => return .ema (← periodOf name p)
  | .rsi, [p] => return .rsi (← periodOf name p)
  | .atr, [p] => return .atr (← periodOf name p)
  | .macd, [fast, slow, signal] =>
    return .macd (← periodOf name fast) (← periodOf name slow) (← periodOf name signal)
  | .bollinger, [p, k] => return .bollinger (← periodOf name p) k
  | .stochastic, [k, d] => return .stochastic (← periodOf name k) (← periodOf name d)
  | .vwap, [] => return .vwap
  | _, _ => .error (.wrongArity name family.arity args.length)

end Indicator

namespace Scan

def numbers (s : List Char) : Except Fault (List Float × List Char) :=
  match h : number s with
  | .error e => .error e
  | .ok (x, rest) =>
    match hc : Text.trimStart rest with
    | ',' :: tail => do
      have : tail.length < s.length := by
        have h₁ := length_le_of_number h
        have h₂ := trimStart_length rest
        simp only [hc, List.length_cons] at h₂
        omega
      let (xs, rest) ← numbers tail
      return (x :: xs, rest)
    | rest => .ok ([x], rest)
termination_by s.length

def arguments (s : List Char) : Except Fault (List Float × List Char) :=
  match Text.trimStart s with
  | '(' :: s =>
    match Text.trimStart s with
    | ')' :: s => .ok ([], s)
    | s => do
      let (xs, s) ← numbers s
      let s ← char ')' s
      return (xs, s)
  | s => .ok ([], s)

def indicator (s : List Char) : Except Fault (Indicator Float × List Char) := do
  let start := Text.trimStart s
  let (name, s) ← word .expectedIndicatorName start
  let (args, s) ← arguments s
  let name := String.ofList (Text.upperAscii name)
  let made := match IndicatorFamily.ofName? name with
    | some family => Indicator.ofArguments name family args
    | none => .error (.unknownIndicator name)
  let ind ← made.mapError fun problem => { problem, rest := start }
  return (ind, s)

end Scan

def Indicator.parse (s : List Char) : Except ParseError (Indicator Float) :=
  Scan.whole Scan.indicator s

end StrategyDesk
