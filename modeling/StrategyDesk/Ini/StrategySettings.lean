import StrategyDesk.Indicator.Parser
import StrategyDesk.Ini.Lookup
import StrategyDesk.Rule.Parser
import StrategyDesk.Strategy.Config

/-!
This module contains the reading of strategies from settings files. It is checked first that all
settings are there that must not be left out.
-/

namespace StrategyDesk
namespace Ini

structure Refusal where
  failure : Failure
  notice : Option String := none

namespace Document

def checkTexts (d : Document) (sectionName : String) : List String → Except Failure Unit
  | [] => .ok ()
  | key :: rest => do
    discard (d.text sectionName key)
    d.checkTexts sectionName rest

def checkIndicators (d : Document) : Except Failure Unit :=
  match d.keys "indicators" with
  | [] => .error (.configMissing "indicators" "<any>")
  | keys => d.checkTexts "indicators" keys

def checkStrategy (d : Document) : Except Failure Unit := do
  d.checkTexts "strategy" ["name", "symbols", "entry_rules"]
  discard (d.number "strategy" "position_size")
  discard (d.number "strategy" "max_drawdown")
  discard (d.number? "strategy" "stop_loss")
  discard (d.number? "strategy" "take_profit")
  d.checkIndicators

def plainly {β : Type} (x : Except Failure β) : Except Refusal β :=
  x.mapError fun failure => { failure }

def parsed {β : Type} (what raw : String) (x : Except ParseError β) : Except Refusal β :=
  x.mapError fun e => {
    failure := .ruleParse e
    notice := some s!"error: failed to parse {what}:\n{e.withContext raw}" }

def readIndicators (d : Document) : List String → Except Refusal (List (KeyedIndicator Float))
  | [] => .ok []
  | key :: rest => do
    let raw ← plainly (d.text "indicators" key)
    let indicator ← parsed s!"indicator '{key}'" raw (Indicator.parse raw.toList)
    return { key, indicator } :: (← d.readIndicators rest)

def readRules (key raw : String) : Except Refusal (List (Rule Float)) :=
  parsed key raw (Rule.parseList raw.toList)

def readExitRules (d : Document) : Except Refusal (List (Rule Float)) :=
  match d.filled? "strategy" "exit_rules" with
  | none => .ok []
  | some raw => readRules "exit_rules" raw

def named {β : Type} (d : Document) (key : String) (read : String → Except Failure β)
    (default : β) : Except Refusal β :=
  match d.filled? "strategy" key with
  | none => .ok default
  | some raw =>
    plainly ((read raw).mapError fun e => .configInvalid "strategy" key e.message)

def description? (d : Document) : Option String :=
  (d.filled? "strategy" "description").map Text.trimmed

def readStrategy (d : Document) : Except Refusal (Config Float) := do
  plainly d.checkStrategy
  let indicators ← d.readIndicators (d.keys "indicators")
  let entry ← readRules "entry_rules" (← plainly (d.text "strategy" "entry_rules"))
  let exit ← d.readExitRules
  let name ← plainly (d.text "strategy" "name")
  let kind ← d.named "type" StrategyKind.read .custom
  let symbols ← plainly (d.text "strategy" "symbols")
  let timeframe ← d.named "timeframe" Timeframe.read .hour1
  let cfg : Config Float := {
    name := Text.trimmed name
    description := d.description?
    kind
    symbols := Config.readSymbols symbols.toList
    timeframe
    indicators
    rules := { entry, exit }
    risk := {
      positionSize := ← plainly (d.number "strategy" "position_size")
      maxDrawdown := ← plainly (d.number "strategy" "max_drawdown")
      stopLoss := ← plainly (d.number? "strategy" "stop_loss")
      takeProfit := ← plainly (d.number? "strategy" "take_profit") } }
  plainly cfg.validate
  return cfg

end Document
end Ini
end StrategyDesk
