import TradingOS.PaperTrading.PositionAccounting

namespace TradingOS.PaperTrading

open Lib

/-- The replay in floats: `round` gives the float nearest to a rational, and each operation rounds
its own result. -/
structure FloatLedger where
  round : ℚ → ℚ

namespace FloatLedger

variable (F : FloatLedger) (pos : SymbolPosition) (t : PaperTrade)

def fillPrice : ℚ := F.round t.fillPrice

/-- A quantity as the operand of a float operation. -/
def quantity (n : ℤ) : ℚ := F.round (|n| : ℤ)

def extend : SymbolPosition :=
  let newQty := pos.netQuantity + t.signedQuantity
  { pos with
    tradeCount := pos.tradeCount + 1
    averageCost :=
      if newQty ≠ 0 then
        F.round (F.round (F.round (pos.averageCost * F.quantity pos.netQuantity) +
          F.round (F.fillPrice t * F.quantity t.signedQuantity)) / F.quantity newQty)
      else pos.averageCost
    netQuantity := newQty }

def closed : RealizedClose :=
  let closingQty := min |t.signedQuantity| |pos.netQuantity|
  let direction : ℚ := if 0 < pos.netQuantity then 1 else -1
  { symbol := t.symbol
    quantity := closingQty
    entryPrice := pos.averageCost
    exitPrice := F.fillPrice t
    pnl :=
      F.round (F.round (direction * F.round (F.fillPrice t - pos.averageCost)) *
        F.quantity closingQty) }

def reduce : SymbolPosition :=
  let newQty := pos.netQuantity + t.signedQuantity
  { pos with
    tradeCount := pos.tradeCount + 1
    realizedPnl := F.round (pos.realizedPnl + (F.closed pos t).pnl)
    netQuantity := newQty
    averageCost :=
      if newQty ≠ 0 ∧ ¬ (0 < newQty ↔ 0 < newQty - t.signedQuantity) then F.fillPrice t
      else pos.averageCost }

def fill : SymbolPosition × Option RealizedClose :=
  if pos.extends? t then (F.extend pos t, none) else (F.reduce pos t, some (F.closed pos t))

def book (ledger : Ledger) : Ledger :=
  ((ledger.1.setdefault t.symbol (.opening t)).modify t.symbol fun pos ↦ (F.fill pos t).1,
    ledger.2 ++ (F.fill (ledger.entry t) t).2.toList)

def replayLedger (trades : List PaperTrade) : Ledger :=
  trades.foldl (fun ledger t ↦ F.book t ledger) (Table.empty, [])

/-- Where nothing is rounded the replay is the one over the rationals. -/
theorem replayLedger_exact (trades : List PaperTrade) :
    FloatLedger.replayLedger ⟨id⟩ trades = PaperTrading.replayLedger trades := by
  have hfill (pos : SymbolPosition) (t : PaperTrade) : FloatLedger.fill ⟨id⟩ pos t = pos.fill t := by
    have hclosed : FloatLedger.closed ⟨id⟩ pos t = pos.closed t := by
      have hquantity : (0 : ℤ) ≤ min |t.signedQuantity| |pos.netQuantity| :=
        le_min (abs_nonneg _) (abs_nonneg _)
      simp only [closed, SymbolPosition.closed, quantity, fillPrice, id_eq, abs_of_nonneg hquantity]
    simp only [fill, SymbolPosition.fill, extend, SymbolPosition.extend, reduce,
      SymbolPosition.reduce, quantity, fillPrice, id_eq, hclosed]
  have hbook : (fun ledger t ↦ FloatLedger.book ⟨id⟩ t ledger) = Ledger.book := by
    funext ledger t
    simp only [book, Ledger.book, hfill]
  rw [replayLedger, hbook, PaperTrading.replayLedger]

end FloatLedger

end TradingOS.PaperTrading
