import StrategyDesk.Rule.Basic
import StrategyDesk.Scan

/-!
This module contains the reading of rules. A rule is a field, a comparison and a number; the rules
of a list are divided by semicolons, and blank pieces of a list are passed over.
-/

namespace StrategyDesk

/--
What follows the symbol of a comparison at the start of a text. The case of letters does not count,
and a symbol that is a word must not be part of a longer word.
-/
def Comparison.strip? (c : Comparison) (s : List Char) : Option (List Char) :=
  let symbol := c.symbol.toList
  let rest := s.drop symbol.length
  if Text.sameLetters (s.take symbol.length) symbol &&
      !(c.isCrossover && rest.head?.any Text.isWordChar) then
    some rest
  else
    none

namespace Scan

def field (s : List Char) : Except Fault (String × List Char) := do
  let (key, s) ← word .expectedField s
  match s with
  | '.' :: s =>
    let (sub, s) ← word .expectedSubField s
    return (String.ofList (key ++ '.' :: sub), s)
  | s => return (String.ofList key, s)

def comparison (s : List Char) : Except Fault (Comparison × List Char) :=
  let s := Text.trimStart s
  match Comparison.all.findSome? fun c => (c.strip? s).map fun rest => (c, rest) with
  | some scanned => .ok scanned
  | none => .error { problem := .expectedOperator (.ofText s), rest := s }

def rule (s : List Char) : Except Fault (Rule Float × List Char) := do
  let (field, s) ← field s
  let (comparison, s) ← comparison s
  let (value, s) ← number s
  return ({ field, comparison, value }, s)

end Scan

namespace Rule

def parse (s : List Char) : Except ParseError (Rule Float) :=
  Scan.whole Scan.rule s

def parsePieces (offset : Nat) : List (List Char) → Except ParseError (List (Rule Float))
  | [] => .ok []
  | piece :: rest => do
    let next := offset + Text.byteLength piece + 1
    if Text.allBlank piece then
      parsePieces next rest
    else
      let rule ← (parse piece).mapError (·.shift offset)
      let rules ← parsePieces next rest
      return rule :: rules

def parseList (s : List Char) : Except ParseError (List (Rule Float)) :=
  parsePieces 0 (Text.segments ';' s)

end Rule
end StrategyDesk
