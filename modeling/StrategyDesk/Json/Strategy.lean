import StrategyDesk.Json.Config
import StrategyDesk.Json.Trading
import StrategyDesk.Strategy.Basic

/-!
This module contains the forms of strategies and of their events in JSON. A strategy that is read
back is checked as a new one is.
-/

namespace StrategyDesk

open Json JsonForm

instance : JsonForm Status := .ofNames Status.name Status.ofName?

namespace Change

def members : Change → List (String × Option Json)
  | .created ownerId => [member "owner_id" ownerId]
  | .backtestCompleted passed totalTrades profitability => [
      member "passed" passed,
      member "total_trades" totalTrades,
      member "profitability" profitability]
  | .backtestFailed reason => [member "reason" reason]
  | .configurationUpdated stale => [member "backtest_stale" stale]
  | .backtestStarted | .activated | .paused | .stopped => []

def memberNames : String → List String
  | "created" => ["owner_id"]
  | "backtest_completed" => ["passed", "total_trades", "profitability"]
  | "backtest_failed" => ["reason"]
  | "configuration_updated" => ["backtest_stale"]
  | _ => []

def ofFields? (kind : String) (fs : Fields) : Option Change :=
  match kind with
  | "created" => return .created (← fs.required "owner_id")
  | "backtest_started" => some .backtestStarted
  | "backtest_completed" =>
    return .backtestCompleted (← fs.required "passed") (← fs.required "total_trades")
      (← fs.required "profitability")
  | "backtest_failed" => return .backtestFailed (← fs.required "reason")
  | "activated" => some .activated
  | "paused" => some .paused
  | "stopped" => some .stopped
  | "configuration_updated" => return .configurationUpdated (← fs.required "backtest_stale")
  | _ => none

end Change

instance : JsonForm Event where
  toJson e := .record (
    member "event" e.change.name :: member "strategy_id" e.strategyId :: e.change.members ++
      [member "at" e.time])
  ofJson? void j := do
    let (kind, content) ← j.tagged? "event"
    let fs ← content.fields? ("strategy_id" :: Change.memberNames kind ++ ["at"]) void
    return {
      strategyId := ← fs.required "strategy_id"
      change := ← Change.ofFields? kind fs
      time := ← fs.required "at" }

namespace Strategy

inductive DecodeError where
  | malformed
  | refused (failure : Failure)

def toJson (s : Strategy) : Json := .record (
  [member "id" s.id, member "ownerId" s.ownerId] ++ s.config.members ++ [
    member "status" s.status,
    memberIf "backtestResults" s.result,
    memberIf "lastBacktestedAt" s.testedAt,
    memberIf "reconfiguredAt" s.reconfiguredAt,
    memberIf "activatedAt" s.activatedAt,
    memberIf "stoppedAt" s.stoppedAt,
    member "createdAt" s.createdAt,
    member "updatedAt" s.updatedAt,
    member "version" s.version])

/--
The strategy that is made up of the members of an object, unchecked. The members of the
configuration stand among the others; in them an empty object counts as no content, too.
-/
def ofMembers? (members : List (String × Json)) : Option Strategy := do
  let fs : Fields := { values := members, void := .null }
  return {
    id := ← fs.required "id"
    ownerId := ← fs.required "ownerId"
    config := ← Config.ofFields? { fs with void := .nullOrEmpty }
    status := ← fs.required "status"
    result := ← fs.optional "backtestResults"
    testedAt := ← fs.optional "lastBacktestedAt"
    reconfiguredAt := ← fs.optional "reconfiguredAt"
    activatedAt := ← fs.optional "activatedAt"
    stoppedAt := ← fs.optional "stoppedAt"
    createdAt := ← fs.required "createdAt"
    updatedAt := ← fs.required "updatedAt"
    version := ← fs.withDefault "version" 0
    pending := [] }

def ofJson (j : Json) : Except DecodeError Strategy :=
  match j with
  | .object members =>
    match ofMembers? members with
    | none => .error .malformed
    | some s =>
      match (do checkId s.id; s.config.validate : Except Failure Unit) with
      | .ok () => .ok s
      | .error failure => .error (.refused failure)
  | _ => .error .malformed

end Strategy
end StrategyDesk
