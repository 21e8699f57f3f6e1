import StrategyDesk.Decimal.Reader
import StrategyDesk.Json.Value

/-!
This module contains the reading of JSON texts.
-/

namespace StrategyDesk
namespace Json

def isBlank (c : Char) : Bool :=
  c == ' ' || c == '\n' || c == '\r' || c == '\t'

def skipBlanks (s : List Char) : List Char :=
  s.dropWhile isBlank

def hexValue? (c : Char) : Option Nat :=
  if c.isDigit then some (c.toNat - '0'.toNat)
  else if 'a' ≤ c && c ≤ 'f' then some (c.toNat - 'a'.toNat + 10)
  else if 'A' ≤ c && c ≤ 'F' then some (c.toNat - 'A'.toNat + 10)
  else none

def scanHex (s : List Char) : Option (Nat × List Char) :=
  match s with
  | a :: b :: c :: d :: s => do
    let digits ← [a, b, c, d].mapM hexValue?
    return (digits.foldl (fun n d => 16 * n + d) 0, s)
  | _ => none

def scanEscape (s : List Char) : Option (Char × List Char) :=
  match s with
  | '"' :: s => some ('"', s)
  | '\\' :: s => some ('\\', s)
  | '/' :: s => some ('/', s)
  | 'b' :: s => some ('\x08', s)
  | 'f' :: s => some ('\x0c', s)
  | 'n' :: s => some ('\n', s)
  | 'r' :: s => some ('\r', s)
  | 't' :: s => some ('\t', s)
  | 'u' :: s => do
    let (high, s) ← scanHex s
    if high < 0xd800 || 0xe000 ≤ high then
      return (Char.ofNat high, s)
    else if high < 0xdc00 then
      match s with
      | '\\' :: 'u' :: s =>
        let (low, s) ← scanHex s
        guard (0xdc00 ≤ low && low < 0xe000)
        return (Char.ofNat (0x10000 + (high - 0xd800) * 0x400 + (low - 0xdc00)), s)
      | _ => none
    else
      none
  | _ => none

def scanString : Nat → List Char → Option (List Char × List Char)
  | 0, _ => none
  | fuel + 1, s =>
    match s with
    | [] => none
    | '"' :: s => some ([], s)
    | '\\' :: s => do
      let (c, s) ← scanEscape s
      let (cs, s) ← scanString fuel s
      return (c :: cs, s)
    | c :: s => do
      guard (' ' ≤ c)
      let (cs, s) ← scanString fuel s
      return (c :: cs, s)

def scanNumber (s : List Char) : Option (Json × List Char) := do
  let (negative, s) := match s with
    | '-' :: s => (true, s)
    | s => (false, s)
  let (whole, s) := Decimal.splitDigits s
  guard (!whole.isEmpty && (whole.length = 1 || whole.head? != some '0'))
  let (fraction, s) ← match s with
    | '.' :: s =>
      let (ds, s) := Decimal.splitDigits s
      if ds.isEmpty then none else some (some ds, s)
    | s => some (none, s)
  let (power, s) ← match s with
    | c :: t =>
      if c = 'e' || c = 'E' then
        let (minus, t) := Decimal.splitSign t
        let (ds, t) := Decimal.splitDigits t
        let n : Int := Decimal.valueOf ds
        if ds.isEmpty then none else some (some (if minus then -n else n), t)
      else
        some (none, s)
    | [] => some (none, s)
  let n := Decimal.valueOf whole
  match fraction, power with
  | none, none =>
    if negative && 0 < n && n ≤ Nat.pow 2 63 then
      return (.int (-n), s)
    else if !negative && n < Nat.pow 2 64 then
      return (.int n, s)
    else
      return (.float (Decimal.toFloat negative n 0), s)
  | _, _ =>
    let places := fraction.getD []
    let digits := Decimal.valueOf (whole ++ places)
    return (.float (Decimal.toFloat negative digits (power.getD 0 - places.length)), s)

def lastMembers (members : List (String × Json)) : List (String × Json) :=
  members.foldr
    (fun member rest => if rest.any (·.1 == member.1) then rest else member :: rest) []

mutual

def scanValue : Nat → List Char → Option (Json × List Char)
  | 0, _ => none
  | fuel + 1, s =>
    match skipBlanks s with
    | 'n' :: 'u' :: 'l' :: 'l' :: s => some (.null, s)
    | 't' :: 'r' :: 'u' :: 'e' :: s => some (.bool true, s)
    | 'f' :: 'a' :: 'l' :: 's' :: 'e' :: s => some (.bool false, s)
    | '"' :: s => (scanString (s.length + 1) s).map fun (cs, s) => (.string (String.ofList cs), s)
    | '[' :: s =>
      match skipBlanks s with
      | ']' :: s => some (.array [], s)
      | s => (scanElements fuel s).map fun (elements, s) => (.array elements, s)
    | '\x7b' :: s =>
      match skipBlanks s with
      | '\x7d' :: s => some (.object [], s)
      | s => (scanMembers fuel s).map fun (members, s) => (.object (lastMembers members), s)
    | s => scanNumber s

def scanElements : Nat → List Char → Option (List Json × List Char)
  | 0, _ => none
  | fuel + 1, s => do
    let (element, s) ← scanValue fuel s
    match skipBlanks s with
    | ',' :: s =>
      let (elements, s) ← scanElements fuel s
      return (element :: elements, s)
    | ']' :: s => return ([element], s)
    | _ => none

def scanMembers : Nat → List Char → Option (List (String × Json) × List Char)
  | 0, _ => none
  | fuel + 1, s =>
    match skipBlanks s with
    | '"' :: s => do
      let (name, s) ← scanString (s.length + 1) s
      match skipBlanks s with
      | ':' :: s =>
        let (value, s) ← scanValue fuel s
        let member := (String.ofList name, value)
        match skipBlanks s with
        | ',' :: s =>
          let (members, s) ← scanMembers fuel s
          return (member :: members, s)
        | '\x7d' :: s => return ([member], s)
        | _ => none
      | _ => none
    | _ => none

end

def read? (s : List Char) : Option Json := do
  let (j, s) ← scanValue (2 * s.length + 2) s
  guard (skipBlanks s).isEmpty
  return j

end Json
end StrategyDesk
