import StrategyDesk.Decimal.Format
import StrategyDesk.Live.Tick

/-!
This module contains what is printed about strategies, backtests and ticks.
-/

namespace StrategyDesk
namespace CommandLine

def padded (width : Nat) (s : String) : String :=
  s ++ String.ofList (List.replicate (width - s.length) ' ')

def heading (cfg : Config Float) : List String :=
  [s!"Strategy:   {cfg.name} ({cfg.kind.name})",
    "Symbols:    " ++ ", ".intercalate cfg.symbols,
    s!"Timeframe:  {cfg.timeframe.name}",
    "Indicators:"]

def indicatorLine (ki : KeyedIndicator Float) (warmUp : Nat) : String :=
  s!"  {padded 12 ki.key} {padded 20 ki.indicator.text} warm-up {warmUp}"

def ruleLines (rules : RuleSet Float) : List String :=
  "Entry (all): " :: (rules.entry.map fun r => s!"  {r.text}") ++
  "Exit (any):  " :: (rules.exit.map fun r => s!"  {r.text}")

def warnings (cfg : Config Float) : List String :=
  cfg.unresolvedKeys.map fun key =>
    s!"warning: rule field '{key}' matches no indicator and will never be true"

def percent (x : Float) : String :=
  Decimal.twoPlaces x ++ "%"

def tradeLines (stats : TradeStats Float) : List String :=
  if stats.total = 0 then []
  else
    [s!"Profit factor:    {Decimal.twoPlaces stats.profitFactor}",
      s!"Largest win:      {Decimal.twoPlaces stats.largestWin}",
      s!"Largest loss:     {Decimal.twoPlaces stats.largestLoss}",
      s!"Average win:      {Decimal.twoPlaces stats.averageWin}",
      s!"Average loss:     {Decimal.twoPlaces stats.averageLoss}"]

def resultLines (r : BacktestResult Float) : List String :=
  (r.error.toList.map fun e => s!"Error:            {e}") ++
  [s!"Initial capital:  {Decimal.twoPlaces r.initialCapital}",
    s!"Final capital:    {Decimal.twoPlaces r.finalCapital}",
    s!"Profitability:    {percent r.profitability}",
    s!"Trades:           {r.totalTrades} ({r.winningTrades} won, {r.losingTrades} lost)",
    s!"Win rate:         {percent r.winRate}",
    s!"Max drawdown:     {percent r.maxDrawdown}"] ++
  tradeLines r.stats

def summary (s : Strategy) : List String :=
  ["", s!"Strategy {s.config.name} [{s.id}]", s!"Status:           {s.status.name}"] ++
  (s.result.map resultLines).getD []

def tickLine (number : Nat) (r : Live.Report) : String :=
  s!"tick {number}: {r.pairs} pairs, {r.signals} signals, {r.failures} failures, " ++
    s!"{r.timedOut} timed out"

end CommandLine
end StrategyDesk
