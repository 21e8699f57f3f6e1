import StrategyDesk.Decimal.Format
import StrategyDesk.Text.Word

/-!
This module contains the errors of reading rules and indicators: what was wrong and where.
-/

namespace StrategyDesk

inductive Lookahead where
  | word (s : List Char)
  | char (c : Char)
  | endOfInput
  deriving Repr, DecidableEq

namespace Lookahead

def ofText (s : List Char) : Lookahead :=
  match Text.leadingWord s, s with
  | c :: w, _ => .word (c :: w)
  | [], c :: _ => .char c
  | [], [] => .endOfInput

def text : Lookahead → String
  | .word s => String.ofList s
  | .char c => c.toString
  | .endOfInput => "end of input"

end Lookahead

inductive Problem where
  | expectedField (found : Lookahead)
  | expectedSubField (found : Lookahead)
  | expectedIndicatorName (found : Lookahead)
  | expectedOperator (found : Lookahead)
  | expectedNumber
  | expectedChar (expected : Char) (found : Option Char)
  | trailingInput (found : Lookahead)
  | wrongArity (name : String) (expected found : Nat)
  | unusablePeriod (name : String) (value : Float)
  | unknownIndicator (name : String)
  | described (reason : String)

namespace Problem

def message : Problem → String
  | .expectedField found => s!"expected indicator field, found '{found.text}'"
  | .expectedSubField found => s!"expected sub-field, found '{found.text}'"
  | .expectedIndicatorName found => s!"expected indicator name, found '{found.text}'"
  | .expectedOperator found =>
    "expected operator (>, <, >=, <=, ==, crosses_above, crosses_below), " ++
      s!"found '{found.text}'"
  | .expectedNumber => "expected number"
  | .expectedChar expected (some found) => s!"expected '{expected}', found '{found}'"
  | .expectedChar expected none => s!"expected '{expected}', found end of input"
  | .trailingInput found => s!"unexpected trailing input '{found.text}'"
  | .wrongArity name expected found => s!"{name} takes {expected} parameter(s), found {found}"
  | .unusablePeriod name value =>
    s!"{name} periods must be whole numbers >= 1, found {Decimal.plain value}"
  | .unknownIndicator name =>
    s!"unknown indicator '{name}' " ++
      "(expected SMA, EMA, RSI, MACD, BOLLINGER, STOCHASTIC, ATR, VWAP)"
  | .described reason => reason

end Problem

/-- A problem and its position, counted in bytes from the start of the text. -/
structure ParseError where
  problem : Problem
  position : Nat

namespace ParseError

def message (e : ParseError) : String :=
  s!"parse error at position {e.position}: {e.problem.message}"

def withContext (e : ParseError) (input : String) : String :=
  let caret := String.ofList (List.replicate e.position ' ' ++ ['^'])
  s!"{input}\n{caret}\n{e.message}"

def shift (e : ParseError) (n : Nat) : ParseError :=
  { e with position := e.position + n }

end ParseError
end StrategyDesk
