import StrategyDesk.Json.Form
import StrategyDesk.Strategy.Config

/-!
This module contains the forms of strategy configurations in JSON.
-/

namespace StrategyDesk

open Json JsonForm

instance : JsonForm Comparison := .ofNames Comparison.symbol Comparison.ofSymbol?

instance : JsonForm StrategyKind := .ofNames StrategyKind.name StrategyKind.ofName?

instance : JsonForm Timeframe := .ofNames Timeframe.name Timeframe.ofName?

instance : JsonForm (Rule Float) where
  toJson r :=
    .record [member "field" r.field, member "operator" r.comparison, member "value" r.value]
  ofJson? void j := do
    let fs ← j.fields? ["field", "operator", "value"] void
    return {
      field := ← fs.required "field"
      comparison := ← fs.required "operator"
      value := ← fs.required "value" }

instance : JsonForm (RuleSet Float) where
  toJson rs := .record [member "entry" rs.entry, member "exit" rs.exit]
  ofJson? void j := do
    let fs ← j.fields? ["entry", "exit"] void
    return { entry := ← fs.required "entry", exit := ← fs.required "exit" }

namespace Indicator

def kinds : List String :=
  ["sma", "ema", "rsi", "macd", "bollinger", "stochastic", "atr", "vwap"]

def members : Indicator Float → List (String × Option Json)
  | .sma period => [member "kind" "sma", member "period" period]
  | .ema period => [member "kind" "ema", member "period" period]
  | .rsi period => [member "kind" "rsi", member "period" period]
  | .macd fast slow signal =>
    [member "kind" "macd", member "fast" fast, member "slow" slow, member "signal" signal]
  | .bollinger period k => [member "kind" "bollinger", member "period" period, member "k" k]
  | .stochastic kPeriod dPeriod =>
    [member "kind" "stochastic", member "k_period" kPeriod, member "d_period" dPeriod]
  | .atr period => [member "kind" "atr", member "period" period]
  | .vwap => [member "kind" "vwap"]

def memberNames : String → List String
  | "sma" | "ema" | "rsi" | "atr" => ["period"]
  | "macd" => ["fast", "slow", "signal"]
  | "bollinger" => ["period", "k"]
  | "stochastic" => ["k_period", "d_period"]
  | _ => []

def ofKind? (kind : String) (fs : Fields) : Option (Indicator Float) :=
  match kind with
  | "sma" => return .sma (← fs.required "period")
  | "ema" => return .ema (← fs.required "period")
  | "rsi" => return .rsi (← fs.required "period")
  | "macd" =>
    return .macd (← fs.required "fast") (← fs.required "slow") (← fs.required "signal")
  | "bollinger" => return .bollinger (← fs.required "period") (← fs.required "k")
  | "stochastic" => return .stochastic (← fs.required "k_period") (← fs.required "d_period")
  | "atr" => return .atr (← fs.required "period")
  | "vwap" => some .vwap
  | _ => none

def kindOf? : Json → Option String
  | .string s => some s
  | .int n => if 0 ≤ n then kinds[n.toNat]? else none
  | _ => none

def ofFields? (fs : Fields) : Option (Indicator Float) := do
  ofKind? (← kindOf? (← fs.values.lookup "kind")) fs

end Indicator

/-- The kind of an indicator that stands alone cannot be given by its number. -/
instance : JsonForm (Indicator Float) where
  toJson ind := .record ind.members
  ofJson? void j := do
    let (kind, content) ← j.tagged? "kind"
    Indicator.ofKind? kind (← content.fields? (Indicator.memberNames kind) void)

instance : JsonForm (KeyedIndicator Float) where
  toJson ki := .record (member "key" ki.key :: ki.indicator.members)
  ofJson?
    | void, .object values => do
      let fs : Fields := { values, void }
      return { key := ← fs.required "key", indicator := ← Indicator.ofFields? fs }
    | _, _ => none

instance : JsonForm (Risk Float) where
  toJson r := .record [
    member "positionSizePercent" r.positionSize,
    member "maxDrawdownPercent" r.maxDrawdown,
    memberIf "stopLossPercent" r.stopLoss,
    memberIf "takeProfitPercent" r.takeProfit]
  ofJson? void j := do
    let fs ← j.fields?
      ["positionSizePercent", "maxDrawdownPercent", "stopLossPercent", "takeProfitPercent"] void
    return {
      positionSize := ← fs.required "positionSizePercent"
      maxDrawdown := ← fs.required "maxDrawdownPercent"
      stopLoss := ← fs.optional "stopLossPercent"
      takeProfit := ← fs.optional "takeProfitPercent" }

namespace Config

def fieldNames : List String :=
  ["name", "description", "type", "symbols", "timeframe", "indicators", "rules", "risk"]

def members (cfg : Config Float) : List (String × Option Json) := [
  member "name" cfg.name,
  memberIf "description" cfg.description,
  member "type" cfg.kind,
  member "symbols" cfg.symbols,
  member "timeframe" cfg.timeframe,
  member "indicators" cfg.indicators,
  member "rules" cfg.rules,
  member "risk" cfg.risk]

def ofFields? (fs : Fields) : Option (Config Float) := do
  return {
    name := ← fs.required "name"
    description := ← fs.optional "description"
    kind := ← fs.required "type"
    symbols := ← fs.required "symbols"
    timeframe := ← fs.required "timeframe"
    indicators := ← fs.required "indicators"
    rules := ← fs.required "rules"
    risk := ← fs.required "risk" }

end Config

instance : JsonForm (Config Float) where
  toJson cfg := .record cfg.members
  ofJson? void j := do Config.ofFields? (← j.fields? Config.fieldNames void)

end StrategyDesk
