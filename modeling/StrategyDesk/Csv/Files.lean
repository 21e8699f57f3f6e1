import StrategyDesk.Csv.Candles
import StrategyDesk.FileTree
import StrategyDesk.Market.Request

/-!
This module contains the finding of the file that holds the candles of a symbol. The name of the
file is the symbol, with or without the timeframe; the former is looked for first.
-/

namespace StrategyDesk
namespace Csv

def fileStem (symbol : String) : String :=
  String.ofList ((Text.trim symbol.toList).map fun c => if c = '/' then '-' else c)

def candlePaths (directory symbol : String) (timeframe : Timeframe) : String × String :=
  let stem := fileStem symbol
  (joinPath directory s!"{stem}_{timeframe.name}.csv", joinPath directory s!"{stem}.csv")

variable {m : Type → Type} [Monad m]

def readFirst (readText : String → m (Except ReadError String)) :
    List String → m (Except Failure (Option String))
  | [] => return .ok none
  | path :: rest => do
    match ← readText path with
    | .ok s => return .ok (some s)
    | .error .notFound => readFirst readText rest
    | .error e => return .error (.candleData s!"failed to read {path}: {e.message}")

def fetchCandles (readText : String → m (Except ReadError String)) (directory : String)
    (q : CandleRequest) : m (Except Failure (List (Candle Float))) := do
  let (specific, general) := candlePaths directory q.symbol q.timeframe
  match ← readFirst readText [specific, general] with
  | .error f => return .error f
  | .ok (some s) => return readCandles s.toList q.window
  | .ok none =>
    return .error (.candleData
      s!"no candle file for {q.symbol} (tried {specific} and {general})")

end Csv
end StrategyDesk
