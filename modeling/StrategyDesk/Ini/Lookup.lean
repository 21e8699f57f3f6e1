import StrategyDesk.Calendar.Reader
import StrategyDesk.Failure
import StrategyDesk.Ini.Document

/-!
This module contains the looking up of settings by their kinds: texts, numbers, whole numbers and
times. A setting that is blank counts as left out.
-/

namespace StrategyDesk
namespace Ini
namespace Document

def filled? (d : Document) (sectionName key : String) : Option String :=
  (d.get? sectionName key).filter fun raw => !Text.allBlank raw.toList

def text (d : Document) (sectionName key : String) : Except Failure String :=
  match d.filled? sectionName key with
  | some raw => .ok raw
  | none => .error (.configMissing sectionName key)

def number? (d : Document) (sectionName key : String) : Except Failure (Option Float) :=
  match d.filled? sectionName key with
  | none => .ok none
  | some raw =>
    let s := Text.trim raw.toList
    match Decimal.read? s with
    | some x => .ok (some x)
    | none =>
      .error (.configInvalid sectionName key s!"'{raw}' is not a number: {Decimal.complaint s}")

def number (d : Document) (sectionName key : String) : Except Failure Float := do
  match ← d.number? sectionName key with
  | some x => return x
  | none => throw (.configMissing sectionName key)

def integer (d : Document) (sectionName key : String) (default : Int) : Except Failure Int :=
  match d.filled? sectionName key with
  | none => .ok default
  | some raw =>
    match Decimal.readInteger (Text.trim raw.toList) with
    | .ok n => .ok n
    | .error e =>
      .error (.configInvalid sectionName key s!"'{raw}' is not an integer: {e.message}")

def time? (d : Document) (sectionName key : String) : Except Failure (Option Instant) :=
  match d.filled? sectionName key with
  | none => .ok none
  | some raw =>
    match Instant.read? raw.toList with
    | some t => .ok (some t)
    | none => .error (.configInvalid sectionName key s!"'{raw}' is not a date or timestamp")

end Document
end Ini
end StrategyDesk
