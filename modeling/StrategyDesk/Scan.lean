import StrategyDesk.Decimal.Reader
import StrategyDesk.ParseError
import StrategyDesk.Text.Blank
import StrategyDesk.Text.Bytes

/-!
This module contains the scanners that rules and indicators are read with. A scanner takes a piece
off the start of a text and says what is left; it never reads on past a piece that it refuses.
-/

namespace StrategyDesk
namespace Scan

/-- A problem, and what was left of the text where it was noticed. -/
structure Fault where
  problem : Problem
  rest : List Char

def Fault.toParseError (f : Fault) (input : List Char) : ParseError where
  problem := f.problem
  position := Text.byteLength input - Text.byteLength f.rest

def word (expected : Lookahead → Problem) (s : List Char) : Except Fault (List Char × List Char) :=
  let s := Text.trimStart s
  match Text.leadingWord s with
  | [] => .error { problem := expected (.ofText s), rest := s }
  | w => .ok (w, s.dropWhile Text.isWordChar)

def number (s : List Char) : Except Fault (Float × List Char) :=
  let s := Text.trimStart s
  let (negative, digits) := Decimal.splitSign s
  let (places, rest) := Decimal.splitPlaces digits
  if places.isEmpty then
    .error { problem := .expectedNumber, rest := s }
  else
    .ok (places.toFloat negative 0, rest)

def char (c : Char) (s : List Char) : Except Fault (List Char) :=
  match Text.trimStart s with
  | [] => .error { problem := .expectedChar c none, rest := [] }
  | d :: s =>
    if d = c then .ok s
    else .error { problem := .expectedChar c (some d), rest := d :: s }

def endOfInput (s : List Char) : Except Fault Unit :=
  match Text.trimStart s with
  | [] => .ok ()
  | s => .error { problem := .trailingInput (.ofText s), rest := s }

def whole {α : Type} (scanner : List Char → Except Fault (α × List Char)) (input : List Char) :
    Except ParseError α :=
  Except.mapError (·.toParseError input) do
    let (x, rest) ← scanner input
    endOfInput rest
    return x

theorem trimStart_length (s : List Char) : (Text.trimStart s).length ≤ s.length :=
  (List.dropWhile_sublist _).length_le

theorem splitSign_length (s : List Char) : (Decimal.splitSign s).2.length ≤ s.length := by
  unfold Decimal.splitSign
  split <;> simp

theorem length_le_of_number {s rest : List Char} {x : Float} (h : number s = .ok (x, rest)) :
    rest.length ≤ s.length := by
  have h₁ := trimStart_length s
  have h₂ := splitSign_length (Text.trimStart s)
  have h₃ := Decimal.splitPlaces_length (Decimal.splitSign (Text.trimStart s)).2
  simp only [number] at h
  split at h
  · simp at h
  · simp only [Except.ok.injEq, Prod.mk.injEq] at h
    rw [← h.2]
    omega

end Scan
end StrategyDesk
