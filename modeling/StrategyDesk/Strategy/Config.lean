import StrategyDesk.Indicator.Basic
import StrategyDesk.Rule.Basic
import StrategyDesk.Strategy.Kind
import StrategyDesk.Text.Bytes

/-!
This module contains what a user may set of a strategy: what it trades, by which rules, and how much
it may risk.
-/

namespace StrategyDesk

variable {α : Type}

structure Risk (α : Type) where
  positionSize : α
  maxDrawdown : α
  stopLoss : Option α
  takeProfit : Option α
  deriving Repr

namespace Risk

variable [Arithmetic α]

def checkPercent (field : String) (value : α) (max : Nat) : Except Failure Unit :=
  if decide (0 < value) && decide (value ≤ Arithmetic.ofNat max) then .ok ()
  else .error (.invalid field s!"{Arithmetic.text value} is outside (0, {max}]")

def validate (r : Risk α) : Except Failure Unit := do
  checkPercent "positionSizePercent" r.positionSize 100
  checkPercent "maxDrawdownPercent" r.maxDrawdown 100
  r.stopLoss.forM fun percent => checkPercent "stopLossPercent" percent 100
  r.takeProfit.forM fun percent => checkPercent "takeProfitPercent" percent 1000

end Risk

structure Config (α : Type) where
  name : String
  description : Option String
  kind : StrategyKind
  symbols : List String
  timeframe : Timeframe
  indicators : List (KeyedIndicator α)
  rules : RuleSet α
  risk : Risk α
  deriving Repr

namespace Config

def readSymbols (s : List Char) : List String :=
  ((Text.segments ',' s).map Text.trim).filter (!·.isEmpty) |>.map String.ofList

def checkSymbols (seen : List String) : List String → Except Failure Unit
  | [] => .ok ()
  | symbol :: rest =>
    let symbol := Text.trimmed symbol
    if symbol = "" then
      .error (.invalid "symbols" "symbol must not be empty")
    else if seen.contains symbol then
      .error (.invalid "symbols" s!"duplicate symbol '{symbol}'")
    else
      checkSymbols (symbol :: seen) rest

def checkIndicators [Arithmetic α] (seen : List String) :
    List (KeyedIndicator α) → Except Failure Unit
  | [] => .ok ()
  | ki :: rest => do
    ki.validate
    if seen.contains ki.trimmedKey then
      throw (.invalid "indicators" s!"duplicate indicator key '{ki.key}'")
    checkIndicators (ki.trimmedKey :: seen) rest

def validate [Arithmetic α] (cfg : Config α) : Except Failure Unit := do
  if (Text.trim cfg.name.toList).length < 3 then
    throw (.invalid "name" "must be at least 3 characters")
  if cfg.symbols.isEmpty then
    throw (.invalid "symbols" "at least one symbol is required")
  checkSymbols [] cfg.symbols
  checkIndicators [] cfg.indicators
  cfg.rules.validate
  cfg.risk.validate

def requiredCandles (cfg : Config α) : Nat :=
  (cfg.indicators.map fun ki => ki.indicator.minCandles).foldl max 1

/-- The keys named by rules that no indicator has. Such rules never hold. -/
def unresolvedKeys (cfg : Config α) : List String :=
  cfg.rules.referencedKeys.filter fun key => !cfg.indicators.any fun ki => ki.trimmedKey == key

end Config
end StrategyDesk
