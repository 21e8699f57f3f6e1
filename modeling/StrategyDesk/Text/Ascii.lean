/-!
This module contains the comparison of texts up to the case of ASCII letters. Letters outside of
ASCII are compared as they are.
-/

namespace StrategyDesk.Text

def sameLetters (s t : List Char) : Bool :=
  s.map Char.toLower == t.map Char.toLower

def upperAscii (s : List Char) : List Char :=
  s.map Char.toUpper

theorem length_eq_of_sameLetters {s t : List Char} (h : sameLetters s t) : s.length = t.length := by
  simpa using congrArg List.length (eq_of_beq h)

end StrategyDesk.Text
