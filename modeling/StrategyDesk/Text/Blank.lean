/-!
This module contains the blank characters, those of the Unicode property `White_Space`, and the
trimming of texts by them.
-/

namespace StrategyDesk.Text

def isBlank (c : Char) : Bool :=
  let n := c.toNat
  (0x9 ≤ n && n ≤ 0xD) || n == 0x20 || n == 0x85 || n == 0xA0 || n == 0x1680 ||
    (0x2000 ≤ n && n ≤ 0x200A) || n == 0x2028 || n == 0x2029 || n == 0x202F || n == 0x205F ||
    n == 0x3000

def trimStart (s : List Char) : List Char :=
  s.dropWhile isBlank

def trimEnd (s : List Char) : List Char :=
  (trimStart s.reverse).reverse

def trim (s : List Char) : List Char :=
  trimEnd (trimStart s)

def allBlank (s : List Char) : Bool :=
  s.all isBlank

def trimmed (s : String) : String :=
  String.ofList (trim s.toList)

end StrategyDesk.Text
