import StrategyDesk.Decimal.Integer

/-!
This module contains the reading of command line arguments. A command is given by its name, and what
it works on by options after it; options that all commands share may come before it as well. The
value of an option follows it or is attached to it. It is looked at when the next option is read, so
that asking for help does not hide a value that is wrong.
-/

namespace StrategyDesk
namespace CommandLine

inductive Refusal where
  | misuse
  | help
  deriving Repr, DecidableEq

def Refusal.exitCode : Refusal → Nat
  | .misuse => 2
  | .help => 0

inductive Parameter where
  | strategy
  | config
  | data
  | start
  | stop
  | capital
  | json
  | ticks
  | logLevel
  | logJson
  deriving Repr, DecidableEq

namespace Parameter

def name : Parameter → String
  | .strategy => "strategy"
  | .config => "config"
  | .data => "data"
  | .start => "start"
  | .stop => "end"
  | .capital => "capital"
  | .json => "json"
  | .ticks => "ticks"
  | .logLevel => "log-level"
  | .logJson => "log-json"

def letter? : Parameter → Option Char
  | .strategy => some 's'
  | .config => some 'c'
  | .data => some 'd'
  | _ => none

def takesValue : Parameter → Bool
  | .json | .logJson => false
  | _ => true

def maxTicks : Int := Nat.pow 2 32 - 1

def readTicks? (raw : String) : Option Nat :=
  match Decimal.readInteger raw.toList with
  | .ok n => if 0 ≤ n && n ≤ maxTicks then some n.toNat else none
  | .error _ => none

def accepts (p : Parameter) (raw : String) : Bool :=
  match p with
  | .strategy | .config | .data => raw != ""
  | .capital => (Decimal.read? raw.toList).isSome
  | .ticks => (readTicks? raw).isSome
  | .start | .stop | .json | .logLevel | .logJson => true

def shared : List Parameter := [.logLevel, .logJson]

end Parameter

inductive Verb where
  | validate
  | backtest
  | live
  deriving Repr, DecidableEq

namespace Verb

def all : List Verb := [.validate, .backtest, .live]

def name : Verb → String
  | .validate => "validate"
  | .backtest => "backtest"
  | .live => "live"

def ofName? (s : String) : Option Verb :=
  all.find? fun verb => verb.name == s

def parameters : Verb → List Parameter
  | .validate => .strategy :: Parameter.shared
  | .backtest =>
    [.strategy, .config, .data, .start, .stop, .capital, .json] ++ Parameter.shared
  | .live => [.strategy, .config, .data, .ticks] ++ Parameter.shared

end Verb

inductive Token where
  | endOfOptions
  | long (name : String) (value : Option String)
  | short (letters : List Char)
  | word (s : String)
  deriving Repr, DecidableEq

def Token.read (s : String) : Token :=
  match s.toList with
  | '-' :: '-' :: [] => .endOfOptions
  | '-' :: '-' :: s =>
    .long (String.ofList (s.takeWhile (· != '=')))
      (match s.dropWhile (· != '=') with
        | [] => none
        | _ :: value => some (String.ofList value))
  | '-' :: c :: s => .short (c :: s)
  | _ => .word s

structure Reading where
  parameters : List Parameter
  given : List (Parameter × String)
  pending : Option (Parameter × Option String)

namespace Reading

def start (parameters : List Parameter) : Reading where
  parameters
  given := []
  pending := none

def give (k : Reading) (p : Parameter) (raw : String) : Except Refusal Reading :=
  if p.accepts raw && (k.given.lookup p).isNone then
    .ok { k with given := (p, raw) :: k.given, pending := none }
  else
    .error .misuse

def settle (k : Reading) : Except Refusal Reading :=
  match k.pending with
  | none => .ok k
  | some (_, none) => .error .misuse
  | some (p, some raw) => k.give p raw

def parameter (k : Reading) (p : Parameter) (attached : Option String) :
    Except Refusal Reading := do
  let k ← k.settle
  match attached with
  | none => if p.takesValue then return { k with pending := some (p, none) } else k.give p ""
  | some raw => if p.takesValue then k.give p raw else throw .misuse

def help (k : Reading) : Except Refusal Reading := do
  discard k.settle
  throw .help

def long (k : Reading) (name : String) (value : Option String) : Except Refusal Reading :=
  match k.parameters.find? fun p => p.name == name with
  | some p => k.parameter p value
  | none => if name == "help" && value.isNone then k.help else .error .misuse

def short (k : Reading) : List Char → Except Refusal Reading
  | [] => .ok k
  | c :: s =>
    match k.parameters.find? fun p => p.letter? == some c with
    | some p =>
      let value := match s with
        | '=' :: value => value
        | _ => s
      k.parameter p (if s.isEmpty then none else some (String.ofList value))
    | none => if c = 'h' then k.help else .error .misuse

def awaitsValue (k : Reading) : Bool :=
  match k.pending with
  | some (_, none) => true
  | _ => false

def word (k : Reading) (s : String) : Except Refusal Reading :=
  match k.pending with
  | some (p, none) => .ok { k with pending := some (p, some s) }
  | _ => .error .misuse

def text? (k : Reading) (p : Parameter) : Option String :=
  k.given.lookup p

def isGiven (k : Reading) (p : Parameter) : Bool :=
  (k.given.lookup p).isSome

end Reading

structure Overrides where
  data : Option String := none
  start : Option String := none
  stop : Option String := none
  capital : Option Float := none

inductive Action where
  | validate (strategy : String)
  | backtest (strategy : String) (config : Option String) (overrides : Overrides) (json : Bool)
  | live (strategy : String) (config : Option String) (data : Option String) (ticks : Nat)

def Action.ofReading (verb : Verb) (k : Reading) : Except Refusal Action :=
  match k.text? .strategy with
  | none => .error .misuse
  | some strategy =>
    .ok <| match verb with
      | .validate => .validate strategy
      | .backtest =>
        let overrides := {
          data := k.text? .data
          start := k.text? .start
          stop := k.text? .stop
          capital := (k.text? .capital).bind fun raw => Decimal.read? raw.toList }
        .backtest strategy (k.text? .config) overrides (k.isGiven .json)
      | .live =>
        let ticks := ((k.text? .ticks).bind Parameter.readTicks?).getD 1
        .live strategy (k.text? .config) (k.text? .data) ticks

def readAfterVerb (verb : Verb) (k : Reading) : List String → Except Refusal Action
  | [] => do Action.ofReading verb (← k.settle)
  | s :: rest => do
    match Token.read s with
    | .endOfOptions =>
      if rest.isEmpty then Action.ofReading verb (← k.settle) else throw .misuse
    | .long name value => readAfterVerb verb (← k.long name value) rest
    | .short letters => readAfterVerb verb (← k.short letters) rest
    | .word s => readAfterVerb verb (← k.word s) rest

def helpVerb : String := "help"

def helpAbout : List String → Refusal
  | [] => .help
  | [s] => if (Verb.ofName? s).isSome || s == helpVerb then .help else .misuse
  | _ => .misuse

def readArguments (k : Reading) : List String → Except Refusal Action
  | [] => .error .misuse
  | s :: rest => do
    match Token.read s with
    | .endOfOptions => throw .misuse
    | .long name value => readArguments (← k.long name value) rest
    | .short letters => readArguments (← k.short letters) rest
    | .word s =>
      if k.awaitsValue then
        readArguments (← k.word s) rest
      else if s == helpVerb then
        throw (helpAbout rest)
      else
        match Verb.ofName? s with
        | none => throw .misuse
        | some verb =>
          let command ← readAfterVerb verb (.start verb.parameters) rest
          discard k.settle
          return command

def Action.read (arguments : List String) : Except Refusal Action :=
  readArguments (.start Parameter.shared) arguments

end CommandLine
end StrategyDesk
