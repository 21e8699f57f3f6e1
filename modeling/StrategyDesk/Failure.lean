import StrategyDesk.ParseError
import StrategyDesk.Strategy.Status

/-!
This module contains what can go wrong on the desk, with the message and the exit code of each kind
of failure.
-/

namespace StrategyDesk

inductive Failure where
  | invalid (field reason : String)
  | badTransition (status : Status) (operation : Operation)
  | notFound (id : String)
  | conflict (id : String) (expected found : Nat)
  | candleData (reason : String)
  | orderSubmission (reason : String)
  | repository (reason : String)
  | eventPublish (reason : String)
  | simulation (reason : String)
  | timeout (operation : String) (milliseconds : Nat)
  | configParse (file reason : String)
  | configMissing (sectionName key : String)
  | configInvalid (sectionName key reason : String)
  | ruleParse (error : ParseError)
  | inputOutput (reason : String)

namespace Failure

def message : Failure → String
  | .invalid field reason => s!"invalid {field}: {reason}"
  | .badTransition status operation =>
    s!"cannot {operation.phrase} strategy in status {status.name}"
  | .notFound id => s!"strategy {id} not found"
  | .conflict id expected found =>
    s!"strategy {id} was modified concurrently (expected version {expected}, found {found})"
  | .candleData reason => s!"candle data error: {reason}"
  | .orderSubmission reason => s!"order submission error: {reason}"
  | .repository reason => s!"repository error: {reason}"
  | .eventPublish reason => s!"event publish error: {reason}"
  | .simulation reason => s!"simulation error: {reason}"
  | .timeout operation milliseconds => s!"{operation} timed out after {milliseconds}ms"
  | .configParse file reason => s!"config parse error in {file}: {reason}"
  | .configMissing sectionName key => s!"missing config key [{sectionName}] {key}"
  | .configInvalid sectionName key reason =>
    s!"invalid config value [{sectionName}] {key}: {reason}"
  | .ruleParse error => error.message
  | .inputOutput reason => reason

def exitCode : Failure → Nat
  | .inputOutput .. | .timeout .. => 1
  | .configParse .. | .configMissing .. | .configInvalid .. => 2
  | .candleData .. | .repository .. | .eventPublish .. | .orderSubmission .. | .notFound ..
  | .conflict .. => 3
  | .ruleParse .. | .invalid .. => 4
  | .badTransition .. | .simulation .. => 5

end Failure
end StrategyDesk
