import StrategyDesk.Arithmetic
import StrategyDesk.Failure

/-!
This module contains trading rules. A rule compares one output of an indicator with a constant; a
rule set says when to enter a position (all entry rules hold) and when to leave it (any exit rule
holds).
-/

namespace StrategyDesk

structure FieldRef where
  key : String
  sub : Option String
  deriving Repr, DecidableEq

namespace FieldRef

def ofText (s : String) : FieldRef :=
  let s := Text.trim s.toList
  let key := String.ofList (Text.trim (s.takeWhile (· ≠ '.')))
  match s.dropWhile (· ≠ '.') with
  | [] => { key, sub := none }
  | _ :: sub => { key, sub := some (String.ofList (Text.trim sub)) }

def isProper (f : FieldRef) : Bool :=
  f.key != "" && f.sub != some ""

end FieldRef

inductive Comparison where
  | greater
  | less
  | greaterOrEqual
  | lessOrEqual
  | equal
  | crossesAbove
  | crossesBelow
  deriving Repr, DecidableEq

namespace Comparison

def all : List Comparison :=
  [.greaterOrEqual, .lessOrEqual, .equal, .greater, .less, .crossesAbove, .crossesBelow]

def symbol : Comparison → String
  | .greater => ">"
  | .less => "<"
  | .greaterOrEqual => ">="
  | .lessOrEqual => "<="
  | .equal => "=="
  | .crossesAbove => "crosses_above"
  | .crossesBelow => "crosses_below"

def isCrossover : Comparison → Bool
  | .crossesAbove | .crossesBelow => true
  | _ => false

def ofSymbol? (s : String) : Option Comparison :=
  all.find? fun c => c.symbol == s

def read (s : String) : Except Failure Comparison :=
  match all.find? fun c => Text.sameLetters c.symbol.toList (Text.trim s.toList) with
  | some c => .ok c
  | none => .error (.invalid "rule operator" s!"unknown operator '{s}'")

theorem mem_all (c : Comparison) : c ∈ all := by
  cases c <;> simp [all]

theorem ofSymbol?_symbol (c : Comparison) : ofSymbol? c.symbol = some c := by
  cases c <;> decide

end Comparison

structure Rule (α : Type) where
  field : String
  comparison : Comparison
  value : α
  deriving Repr

namespace Rule

variable {α : Type}

def fieldRef (r : Rule α) : FieldRef :=
  FieldRef.ofText r.field

variable [Arithmetic α]

def validate (r : Rule α) : Except Failure Unit :=
  if !r.fieldRef.isProper then
    .error (.invalid "rule field" s!"'{r.field}' must name an indicator field")
  else if !Arithmetic.isFinite r.value then
    .error (.invalid "rule value" s!"threshold for '{r.field}' must be a finite number")
  else
    .ok ()

def text (r : Rule α) : String :=
  s!"{r.field} {r.comparison.symbol} {Arithmetic.text r.value}"

end Rule

structure RuleSet (α : Type) where
  entry : List (Rule α)
  exit : List (Rule α)
  deriving Repr

namespace RuleSet

variable {α : Type}

def all (rs : RuleSet α) : List (Rule α) :=
  rs.entry ++ rs.exit

def validate [Arithmetic α] (rs : RuleSet α) : Except Failure Unit := do
  if rs.entry.isEmpty then
    throw (.invalid "entry rules" "at least one entry rule is required")
  rs.all.forM Rule.validate

def referencedKeys (rs : RuleSet α) : List String :=
  (rs.all.map fun r => r.fieldRef.key).eraseDups

end RuleSet
end StrategyDesk
