import StrategyDesk.Position

/-!
This module contains the measures of how well trading went. Percentages run from 0 to 100.
-/

namespace StrategyDesk

open Arithmetic

structure Drawdown (α : Type) where
  peak : α
  greatest : α
  deriving Repr

variable {α : Type} [Arithmetic α]

namespace Drawdown

def start (capital : α) : Drawdown α where
  peak := capital
  greatest := 0

def record (d : Drawdown α) (capital : α) : Drawdown α :=
  if d.peak < capital then
    { d with peak := capital }
  else if 0 < d.peak then
    let fall := (d.peak - capital) / d.peak * 100
    if d.greatest < fall then { d with greatest := fall } else d
  else
    d

end Drawdown

def winRate (winning total : Nat) : α :=
  if total = 0 then 0 else ofNat winning / ofNat total * 100

def profitability (initial final : α) : α :=
  if 0 < initial then (final - initial) / initial * 100 else 0

structure TradeStats (α : Type) where
  total : Nat
  winning : Nat
  losing : Nat
  grossProfit : α
  grossLoss : α
  largestWin : α
  largestLoss : α
  deriving Repr

namespace TradeStats

def empty : TradeStats α where
  total := 0
  winning := 0
  losing := 0
  grossProfit := 0
  grossLoss := 0
  largestWin := 0
  largestLoss := 0

def record (s : TradeStats α) (t : Trade α) : TradeStats α :=
  if t.isWinner then
    { s with
      total := s.total + 1
      winning := s.winning + 1
      grossProfit := s.grossProfit + t.profit
      largestWin := greatest s.largestWin t.profit }
  else
    { s with
      total := s.total + 1
      losing := s.losing + 1
      grossLoss := s.grossLoss + abs t.profit
      largestLoss := greatest s.largestLoss (abs t.profit) }

def ofTrades (trades : List (Trade α)) : TradeStats α :=
  trades.foldl record empty

def winRate (s : TradeStats α) : α :=
  StrategyDesk.winRate s.winning s.total

def profitFactor (s : TradeStats α) : α :=
  if 0 < s.grossLoss then s.grossProfit / s.grossLoss
  else if 0 < s.grossProfit then infinity
  else 0

def averageWin (s : TradeStats α) : α :=
  if 0 < s.winning then s.grossProfit / ofNat s.winning else 0

def averageLoss (s : TradeStats α) : α :=
  if 0 < s.losing then s.grossLoss / ofNat s.losing else 0

theorem total_foldl_record (s : TradeStats α) (trades : List (Trade α)) :
    (trades.foldl record s).total = s.total + trades.length := by
  induction trades generalizing s with
  | nil => rfl
  | cons t trades ih =>
    rw [List.foldl_cons, ih]
    unfold record
    split <;> simp <;> omega

theorem total_ofTrades (trades : List (Trade α)) :
    (ofTrades trades).total = trades.length := by
  rw [ofTrades, total_foldl_record]
  simp [empty]

end TradeStats
end StrategyDesk
