import StrategyDesk.Text.Alphanumeric

/-!
This module contains the characters that words are made of, and the reading of the word at the start
of a text.
-/

namespace StrategyDesk.Text

def inRanges (ranges : List (Nat × Nat)) (n : Nat) : Bool :=
  ranges.any fun (first, last) => first ≤ n && n ≤ last

/-- Whether a character is a letter or a number in the sense of Unicode. -/
def isAlphanumeric (c : Char) : Bool :=
  let n := c.toNat
  if n < 0x80 then c.isAlphanum
  else if n < 0x1000 then inRanges Alphanumeric.scripts n
  else if n < 0x10000 then inRanges Alphanumeric.extendedScripts n
  else inRanges Alphanumeric.supplementary n

def isWordChar (c : Char) : Bool :=
  isAlphanumeric c || c == '_'

def leadingWord (s : List Char) : List Char :=
  s.takeWhile isWordChar

theorem leadingWord_append_dropWhile (s : List Char) :
    leadingWord s ++ s.dropWhile isWordChar = s := by
  simp [leadingWord]

end StrategyDesk.Text
