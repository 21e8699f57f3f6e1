import StrategyDesk.Json.Form
import StrategyDesk.Signal

/-!
This module contains the forms of candles, trades, backtest results and signals in JSON.
-/

namespace StrategyDesk

open Json JsonForm

instance : JsonForm (Candle Float) where
  toJson c := .record [
    member "time" c.time,
    member "open" c.openPrice,
    member "high" c.high,
    member "low" c.low,
    member "close" c.close,
    member "volume" c.volume]
  ofJson? void j := do
    let fs ← j.fields? ["time", "open", "high", "low", "close", "volume"] void
    return {
      time := ← fs.required "time"
      openPrice := ← fs.required "open"
      high := ← fs.required "high"
      low := ← fs.required "low"
      close := ← fs.required "close"
      volume := ← fs.required "volume" }

instance : JsonForm ExitReason := .ofNames ExitReason.name ExitReason.ofName?

instance : JsonForm (Trade Float) where
  toJson t := .record [
    member "symbol" t.symbol,
    member "entryPrice" t.entryPrice,
    member "exitPrice" t.exitPrice,
    member "quantity" t.quantity,
    member "profit" t.profit,
    member "profitPercent" t.profitPercent,
    member "entryTime" t.entryTime,
    member "exitTime" t.exitTime,
    member "exitReason" t.exitReason]
  ofJson? void j := do
    let fs ← j.fields?
      ["symbol", "entryPrice", "exitPrice", "quantity", "profit", "profitPercent", "entryTime",
        "exitTime", "exitReason"] void
    return {
      symbol := ← fs.required "symbol"
      entryPrice := ← fs.required "entryPrice"
      exitPrice := ← fs.required "exitPrice"
      quantity := ← fs.required "quantity"
      profit := ← fs.required "profit"
      profitPercent := ← fs.required "profitPercent"
      entryTime := ← fs.required "entryTime"
      exitTime := ← fs.required "exitTime"
      exitReason := ← fs.required "exitReason" }

instance : JsonForm (BacktestResult Float) where
  toJson r := .record [
    member "initialCapital" r.initialCapital,
    member "finalCapital" r.finalCapital,
    member "totalTrades" r.totalTrades,
    member "winningTrades" r.winningTrades,
    member "losingTrades" r.losingTrades,
    member "winRate" r.winRate,
    member "profitability" r.profitability,
    member "maxDrawdown" r.maxDrawdown,
    member "trades" r.trades,
    memberIf "error" r.error]
  ofJson? void j := do
    let fs ← j.fields?
      ["initialCapital", "finalCapital", "totalTrades", "winningTrades", "losingTrades", "winRate",
        "profitability", "maxDrawdown", "trades", "error"] void
    return {
      initialCapital := ← fs.required "initialCapital"
      finalCapital := ← fs.required "finalCapital"
      totalTrades := ← fs.required "totalTrades"
      winningTrades := ← fs.required "winningTrades"
      losingTrades := ← fs.required "losingTrades"
      winRate := ← fs.required "winRate"
      profitability := ← fs.required "profitability"
      maxDrawdown := ← fs.required "maxDrawdown"
      trades := ← fs.required "trades"
      error := ← fs.optional "error" }

instance : JsonForm (Sizing Float) where
  toJson s := .record [
    member "positionSizePercent" s.positionSize,
    member "referencePrice" s.referencePrice,
    memberIf "stopLoss" s.stopLoss,
    memberIf "takeProfit" s.takeProfit]
  ofJson? void j := do
    let fs ← j.fields? ["positionSizePercent", "referencePrice", "stopLoss", "takeProfit"] void
    return {
      positionSize := ← fs.required "positionSizePercent"
      referencePrice := ← fs.required "referencePrice"
      stopLoss := ← fs.optional "stopLoss"
      takeProfit := ← fs.optional "takeProfit" }

instance : JsonForm Unit :=
  .ofNames (fun _ => "buy") fun s => if s = "buy" then some () else none

instance : JsonForm (Signal Float) where
  toJson s := .record [
    member "strategyId" s.strategyId,
    member "symbol" s.symbol,
    member "side" (),
    member "sizing" s.sizing,
    member "generatedAt" s.generatedAt]
  ofJson? void j := do
    let fs ← j.fields? ["strategyId", "symbol", "side", "sizing", "generatedAt"] void
    let () ← fs.required "side"
    return {
      strategyId := ← fs.required "strategyId"
      symbol := ← fs.required "symbol"
      sizing := ← fs.required "sizing"
      generatedAt := ← fs.required "generatedAt" }

end StrategyDesk
