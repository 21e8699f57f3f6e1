import StrategyDesk.Arithmetic
import StrategyDesk.Calendar.Instant

/-!
This module contains long positions, the prices that protect them, and the trades they end in.
-/

namespace StrategyDesk

inductive ExitReason where
  | stopLoss
  | takeProfit
  | exitSignal
  | endOfWindow
  deriving Repr, DecidableEq

namespace ExitReason

def all : List ExitReason := [.stopLoss, .takeProfit, .exitSignal, .endOfWindow]

def name : ExitReason → String
  | .stopLoss => "stop_loss"
  | .takeProfit => "take_profit"
  | .exitSignal => "exit_signal"
  | .endOfWindow => "end_of_window"

def ofName? (s : String) : Option ExitReason :=
  all.find? fun reason => reason.name == s

theorem ofName?_name (reason : ExitReason) : ofName? reason.name = some reason := by
  cases reason <;> decide

end ExitReason

variable {α : Type} [Arithmetic α]

def stopLossPrice (entry percent : α) : α :=
  entry * (1 - percent / 100)

def takeProfitPrice (entry percent : α) : α :=
  entry * (1 + percent / 100)

structure Trade (α : Type) where
  symbol : String
  entryPrice : α
  exitPrice : α
  quantity : α
  profit : α
  profitPercent : α
  entryTime : Instant
  exitTime : Instant
  exitReason : ExitReason
  deriving Repr

namespace Trade

def proceeds (t : Trade α) : α :=
  t.quantity * t.exitPrice

def isWinner (t : Trade α) : Bool :=
  (0 : α) < t.profit

end Trade

structure Position (α : Type) where
  symbol : String
  entryPrice : α
  quantity : α
  entryTime : Instant
  stopLoss : Option α
  takeProfit : Option α
  deriving Repr

namespace Position

def enter (symbol : String) (price notional : α) (time : Instant)
    (stopLossPercent takeProfitPercent : Option α) : Position α where
  symbol
  entryPrice := price
  quantity := notional / price
  entryTime := time
  stopLoss := stopLossPercent.map (stopLossPrice price)
  takeProfit := takeProfitPercent.map (takeProfitPrice price)

def notional (p : Position α) : α :=
  p.quantity * p.entryPrice

def hitsStopLoss (p : Position α) (price : α) : Bool :=
  p.stopLoss.any fun level => price ≤ level

def hitsTakeProfit (p : Position α) (price : α) : Bool :=
  p.takeProfit.any fun level => level ≤ price

def close (p : Position α) (price : α) (time : Instant) (reason : ExitReason) : Trade α where
  symbol := p.symbol
  entryPrice := p.entryPrice
  exitPrice := price
  quantity := p.quantity
  profit := p.quantity * (price - p.entryPrice)
  profitPercent := (price - p.entryPrice) / p.entryPrice * 100
  entryTime := p.entryTime
  exitTime := time
  exitReason := reason

end Position
end StrategyDesk
