import StrategyDesk.CommandLine.Identifier
import StrategyDesk.CommandLine.Session

/-!
The program: it reads its arguments, carries out what they ask for and ends with the exit code of
that.
-/

namespace StrategyDesk
namespace CommandLine

def readErrorOf : IO.Error → ReadError
  | .noFileOrDirectory .. => .notFound
  | .inappropriateType _ 21 _ => .isDirectory
  | .inappropriateType .. => .notDirectory
  | e => .described (toString e)

def readTextFile (path : String) : IO (Except ReadError String) := do
  match ← (IO.FS.readBinFile path).toBaseIO with
  | .error e => return .error (readErrorOf e)
  | .ok bytes =>
    match String.fromUTF8? bytes with
    | some s => return .ok s
    | none => return .error .notText

/-- The time of day. A file that is made now shows it as the time of its last change. -/
def clockTime : IO Instant := do
  let (_, path) ← IO.FS.createTempFile
  let made := (← path.metadata).modified
  IO.FS.removeFile path
  return { seconds := made.sec, nanos := made.nsec.toNat }

def freshIdentifier : IO String := do
  let group : IO Nat := IO.rand 0 (Nat.pow 2 48 - 1)
  return randomIdentifier (← group) (← group) (← group) (← group) (← group)

def outsideWorld : Outside IO where
  readText := readTextFile
  say := IO.println
  remark := IO.eprintln
  now := clockTime
  freshId := freshIdentifier
  wait seconds := IO.sleep (UInt32.ofNat (min (1000 * seconds) (Nat.pow 2 32 - 1)))

def usage : List String := [
  "Rules-based strategy backtester and paper trader",
  "",
  "Commands:",
  "  validate --strategy FILE",
  "  backtest --strategy FILE [--config FILE] [--data DIRECTORY] [--start TIME] [--end TIME]",
  "           [--capital AMOUNT] [--json]",
  "  live     --strategy FILE [--config FILE] [--data DIRECTORY] [--ticks COUNT]",
  "",
  "Options of all commands:",
  "  --log-level LEVEL, --log-json, --help"]

def runProgram (arguments : List String) : IO UInt32 := do
  match Action.read arguments with
  | .ok action =>
    match ← action.run outsideWorld with
    | .ok code => return UInt32.ofNat code
    | .error _ =>
      IO.eprintln "error: a count is out of range"
      return 101
  | .error refusal =>
    usage.forM IO.eprintln
    return UInt32.ofNat refusal.exitCode

end CommandLine
end StrategyDesk

def main (arguments : List String) : IO UInt32 :=
  StrategyDesk.CommandLine.runProgram arguments
