import StrategyDesk.Text.Blank

/-!
This module contains the records that comma-separated text consists of. A record ends with a line,
unless the line ends within quotes; lines with nothing on them are passed over. Quotes count only
around a whole field, and a quote within such a field is written twice.
-/

namespace StrategyDesk
namespace Csv

structure Record where
  fields : List String
  index : Nat
  line : Nat
  byte : Nat
  deriving Repr, DecidableEq

inductive Place where
  | recordStart
  | fieldStart
  | plain
  | quoted
  | quote
  deriving Repr, DecidableEq

structure Cursor where
  place : Place
  field : List Char
  fields : List String
  index : Nat
  line : Nat
  byte : Nat
  currentLine : Nat
  currentByte : Nat

namespace Cursor

def start : Cursor where
  place := .recordStart
  field := []
  fields := []
  index := 0
  line := 1
  byte := 0
  currentLine := 1
  currentByte := 0

def advance (k : Cursor) (c : Char) : Cursor :=
  { k with
    currentLine := if c = '\n' then k.currentLine + 1 else k.currentLine
    currentByte := k.currentByte + c.utf8Size }

def push (k : Cursor) (c : Char) (place : Place) : Cursor :=
  { k with place, field := c :: k.field }

def fieldText (k : Cursor) : String :=
  String.ofList (Text.trim k.field.reverse)

def endField (k : Cursor) : Cursor :=
  { k with place := .fieldStart, field := [], fields := k.fieldText :: k.fields }

def record (k : Cursor) : Record where
  fields := (k.fieldText :: k.fields).reverse
  index := k.index
  line := k.line
  byte := k.byte

def next (k : Cursor) : Cursor :=
  { k with
    place := .recordStart
    field := []
    fields := []
    index := k.index + 1
    line := k.currentLine
    byte := k.currentByte }

def isLineEnd (c : Char) : Bool :=
  c == '\n' || c == '\r'

def step (k : Cursor) (c : Char) : Cursor × Option Record :=
  let after := k.advance c
  let plain : Cursor × Option Record :=
    if c = ',' then (after.endField, none)
    else if isLineEnd c then (after.next, some k.record)
    else (after.push c .plain, none)
  match k.place with
  | .recordStart =>
    if isLineEnd c then (after, none)
    else if c = '"' then ({ after with place := .quoted }, none)
    else plain
  | .fieldStart => if c = '"' then ({ after with place := .quoted }, none) else plain
  | .plain => plain
  | .quoted =>
    if c = '"' then ({ after with place := .quote }, none) else (after.push c .quoted, none)
  | .quote => if c = '"' then (after.push c .quoted, none) else plain

def records (k : Cursor) : List Char → List Record
  | [] => if k.place = .recordStart then [] else [k.record]
  | c :: s =>
    let (k, record) := k.step c
    record.toList ++ k.records s

end Cursor

/-- A mark at the start of a text that tells the order of bytes and counts three of them. -/
def byteOrderMark : Char := '\ufeff'

def records (s : List Char) : List Record :=
  match s with
  | [] => []
  | c :: rest =>
    if c = byteOrderMark then
      Cursor.start.advance c |>.records rest
    else
      Cursor.start.records s

end Csv
end StrategyDesk
