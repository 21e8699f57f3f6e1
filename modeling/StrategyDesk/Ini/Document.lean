import StrategyDesk.Text.Blank
import StrategyDesk.Text.Bytes

/-!
This module contains settings files: lines with a key and a value, grouped into sections. The number
sign starts a comment anywhere in a line, and the blanks around keys, values and names of sections
do not count. The case of letters does.
-/

namespace StrategyDesk
namespace Ini

structure Entry where
  sectionName : String
  key : String
  value : Option String
  deriving Repr, DecidableEq

structure Document where
  entries : List Entry
  deriving Repr, DecidableEq

namespace Document

def find? (d : Document) (sectionName key : String) : Option Entry :=
  d.entries.find? fun e => e.sectionName == sectionName && e.key == key

def get? (d : Document) (sectionName key : String) : Option String :=
  (d.find? sectionName key).bind Entry.value

def keys (d : Document) (sectionName : String) : List String :=
  let keys := (d.entries.filter fun e => e.sectionName == sectionName).map Entry.key
  keys.eraseDups.mergeSort fun a b => decide (a ≤ b)

end Document

inductive LineProblem where
  | openSection
  | noKey
  deriving Repr, DecidableEq

inductive Line where
  | empty
  | header (name : String)
  | entry (key : String) (value : Option String)
  deriving Repr, DecidableEq

def defaultSection : String := "default"

def isDelimiter (c : Char) : Bool :=
  c == '=' || c == ':'

def content (s : List Char) : List Char :=
  Text.trim (s.takeWhile fun c => c != '#')

def beforeLast? (c : Char) (s : List Char) : Option (List Char) :=
  match s.reverse.dropWhile fun d => d != c with
  | [] => none
  | _ :: before => some before.reverse

def trimmedText (s : List Char) : String :=
  String.ofList (Text.trim s)

def Line.read (s : List Char) : Except LineProblem Line :=
  match content s with
  | [] => .ok .empty
  | '[' :: s =>
    match beforeLast? ']' s with
    | some name => .ok (.header (trimmedText name))
    | none => .error .openSection
  | s =>
    match s.takeWhile (!isDelimiter ·), s.dropWhile (!isDelimiter ·) with
    | [], _ => .error .noKey
    | key, [] => .ok (.entry (trimmedText key) none)
    | key, _ :: value => .ok (.entry (trimmedText key) (some (trimmedText value)))

structure ReadProblem where
  line : Nat
  problem : LineProblem
  deriving Repr, DecidableEq

def ReadProblem.message (p : ReadProblem) : String :=
  match p.problem with
  | .openSection =>
    s!"line {p.line}: Found opening bracket for section name but no closing bracket"
  | .noKey => s!"line {p.line}:0: Key cannot be empty"

def readLines (number : Nat) (sectionName : String) (entries : List Entry) :
    List (List Char) → Except ReadProblem Document
  | [] => .ok { entries }
  | s :: rest =>
    match Line.read s with
    | .error problem => .error { line := number, problem }
    | .ok .empty => readLines (number + 1) sectionName entries rest
    | .ok (.header name) => readLines (number + 1) name entries rest
    | .ok (.entry key value) =>
      readLines (number + 1) sectionName ({ sectionName, key, value } :: entries) rest

def Document.read (s : List Char) : Except ReadProblem Document :=
  readLines 1 defaultSection [] (Text.segments '\n' s)

end Ini
end StrategyDesk
