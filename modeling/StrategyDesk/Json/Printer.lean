import StrategyDesk.Decimal.Format
import StrategyDesk.Json.Value

/-!
This module contains the writing of JSON texts, on one line and indented.
-/

namespace StrategyDesk
namespace Json

def hexDigit (n : Nat) : Char :=
  Nat.digitChar n

def escaped (c : Char) : List Char :=
  if c = '"' then ['\\', '"']
  else if c = '\\' then ['\\', '\\']
  else if c = '\x08' then ['\\', 'b']
  else if c = '\x0c' then ['\\', 'f']
  else if c = '\n' then ['\\', 'n']
  else if c = '\r' then ['\\', 'r']
  else if c = '\t' then ['\\', 't']
  else if c < ' ' then
    ['\\', 'u', '0', '0', hexDigit (c.toNat / 16), hexDigit (c.toNat % 16)]
  else [c]

def quoted (s : String) : List Char :=
  '"' :: s.toList.flatMap escaped ++ ['"']

def intText (n : Int) : List Char :=
  Decimal.withSign (n < 0) (Decimal.digitsOf n.natAbs)

def floatText (x : Float) : List Char :=
  match Binary64.ofFloat x with
  | .finite negative mantissa exponent => Decimal.marked negative mantissa exponent
  | _ => ['n', 'u', 'l', 'l']

def joined (separator : List Char) : List (List Char) → List Char
  | [] => []
  | [piece] => piece
  | piece :: rest => piece ++ separator ++ joined separator rest

structure Layout where
  lineBreak : Nat → List Char
  colon : List Char

namespace Layout

def compact : Layout where
  lineBreak _ := []
  colon := [':']

def indented : Layout where
  lineBreak depth := '\n' :: List.replicate (2 * depth) ' '
  colon := [':', ' ']

def enclose (layout : Layout) (depth : Nat) (first last : Char) (pieces : List (List Char)) :
    List Char :=
  if pieces.isEmpty then
    [first, last]
  else
    let between := ',' :: layout.lineBreak (depth + 1)
    first :: layout.lineBreak (depth + 1) ++ joined between pieces ++
      layout.lineBreak depth ++ [last]

end Layout

mutual

def print (layout : Layout) (depth : Nat) : Json → List Char
  | .null => ['n', 'u', 'l', 'l']
  | .bool true => ['t', 'r', 'u', 'e']
  | .bool false => ['f', 'a', 'l', 's', 'e']
  | .int n => intText n
  | .float x => floatText x
  | .string s => quoted s
  | .array elements => layout.enclose depth '[' ']' (printElements layout (depth + 1) elements)
  | .object members =>
    layout.enclose depth '\x7b' '\x7d' (printMembers layout (depth + 1) members)

def printElements (layout : Layout) (depth : Nat) : List Json → List (List Char)
  | [] => []
  | element :: rest => print layout depth element :: printElements layout depth rest

def printMembers (layout : Layout) (depth : Nat) : List (String × Json) → List (List Char)
  | [] => []
  | (name, value) :: rest =>
    (quoted name ++ layout.colon ++ print layout depth value) :: printMembers layout depth rest

end

def compact (j : Json) : String :=
  String.ofList (j.print .compact 0)

def pretty (j : Json) : String :=
  String.ofList (j.print .indented 0)

end Json
end StrategyDesk
