import TradingOS.Lib.Lists
import TradingOS.PaperTrading.PositionAccounting

namespace TradingOS.PaperTrading

open Lib

def futuresMarginPct : ℚ := 18 / 100

structure MarginLine where
  symbol : String
  instrumentType : InstrumentType
  netQuantity : ℤ
  notional : ℚ
  marginRequired : ℚ
  deriving DecidableEq

def computeMarginLine (pos : SymbolPosition) (lastPrice : ℚ) : MarginLine :=
  let notional := |pos.netQuantity| * lastPrice
  { symbol := pos.symbol
    instrumentType := pos.instrumentType
    netQuantity := pos.netQuantity
    notional := notional
    marginRequired :=
      if pos.netQuantity = 0 then 0
      else
        match pos.instrumentType with
        | .equity => 0
        | .future => notional * futuresMarginPct
        | .ce | .pe => if 0 < pos.netQuantity then 0 else notional }

structure MarginSummary where
  totalMarginBlocked : ℚ
  lines : List MarginLine
  deriving DecidableEq

/-- An open symbol without a price is skipped. -/
def computeMarginSummary (positions : Table String SymbolPosition)
    (lastPrices : String → Option ℚ) : MarginSummary :=
  let lines := positions.rows.filterMap fun r ↦
    if r.2.netQuantity ≠ 0 then (lastPrices r.1).map (computeMarginLine r.2) else none
  ⟨(lines.map MarginLine.marginRequired).sum, lines⟩

def unrealized (positions : Table String SymbolPosition) (lastPrices : String → Option ℚ) : ℚ :=
  (positions.rows.filterMap fun r ↦
    if r.2.netQuantity ≠ 0 then
      (lastPrices r.1).map fun price ↦ (price - r.2.averageCost) * (r.2.netQuantity : ℚ)
    else none).sum

def computeEquityFromPositions (capitalAllocated : ℚ) (positions : Table String SymbolPosition)
    (lastPrices : String → Option ℚ) : ℚ :=
  capitalAllocated + (positions.values.map SymbolPosition.realizedPnl).sum +
    unrealized positions lastPrices - (computeMarginSummary positions lastPrices).totalMarginBlocked

/-- Prices the flat symbols too, and agrees with the quotes on the open ones. -/
def Prices (positions : Table String SymbolPosition) (lastPrices : String → Option ℚ)
    (price : String → ℚ) : Prop :=
  ∀ s pos, positions.get? s = some pos → pos.netQuantity ≠ 0 → lastPrices s = some (price s)

variable {positions : Table String SymbolPosition} {lastPrices : String → Option ℚ}
  {price : String → ℚ}

theorem realized_add_unrealized (h : Prices positions lastPrices price) :
    (positions.values.map SymbolPosition.realizedPnl).sum + unrealized positions lastPrices =
      positions.total fun s pos ↦ pos.worth (price s) := by
  have hopen : unrealized positions lastPrices =
      positions.total fun s pos ↦ (price s - pos.averageCost) * pos.netQuantity := by
    refine sum_filterMap_eq fun r hr ↦ ?_
    by_cases hflat : r.2.netQuantity = 0
    · simp [hflat]
    · rw [if_pos hflat, h r.1 r.2 (positions.get?_eq_some.mpr hr) hflat]
      rfl
  have hrealized : (positions.values.map SymbolPosition.realizedPnl).sum =
      positions.total fun _ pos ↦ pos.realizedPnl := by
    rw [Table.values, List.map_map]
    rfl
  rw [hopen, hrealized, ← Table.total_add]
  rfl

/-- For every ledger of fills: each symbol's position carries the net of its signed fills, is
worth what those fills have earned at any price, and has realized what its closes say; and
the account's equity is its capital and what the whole ledger has earned at the last prices,
less the margin. -/
theorem mark_to_market_conserved (trades : List PaperTrade) :
    (∀ t ∈ trades, ∃ pos, (replayLedger trades).1.get? t.symbol = some pos) ∧
    (∀ s pos, (replayLedger trades).1.get? s = some pos →
      pos.netQuantity = ((tradesOf s trades).map PaperTrade.signedQuantity).sum ∧
      (∀ p, pos.realizedPnl + (p - pos.averageCost) * pos.netQuantity =
        ((tradesOf s trades).map fun t ↦ (t.signedQuantity : ℚ) * (p - t.fillPrice)).sum) ∧
      (((replayLedger trades).2.filter fun c ↦ c.symbol = s).map RealizedClose.pnl).sum =
        pos.realizedPnl) ∧
    ∀ capitalAllocated lastPrices price, Prices (replayLedger trades).1 lastPrices price →
      computeEquityFromPositions capitalAllocated (replayLedger trades).1 lastPrices =
        capitalAllocated +
          (trades.map fun t ↦ (t.signedQuantity : ℚ) * (price t.symbol - t.fillPrice)).sum -
          (computeMarginSummary (replayLedger trades).1 lastPrices).totalMarginBlocked := by
  have hrec := replayLedger_reconciles trades
  refine ⟨fun t ht ↦ ?_, fun s pos hpos ↦ ?_, fun capitalAllocated lastPrices price hprices ↦ ?_⟩
  · refine Option.ne_none_iff_exists'.mp fun hnone ↦ ?_
    have hmem : t ∈ tradesOf t.symbol trades := List.mem_filter.mpr ⟨ht, by simp⟩
    rw [(hrec.keys t.symbol hnone).1] at hmem
    cases hmem
  · obtain ⟨hnet, hworth, hcloses⟩ := hrec.positions s pos hpos
    exact ⟨hnet, hworth, hcloses⟩
  · have hequity := realized_add_unrealized hprices
    rw [total_worth_replayLedger] at hequity
    rw [computeEquityFromPositions, add_assoc, hequity, settlement]

def reversedFuture : List PaperTrade :=
  [⟨"NIFTY-F", .future, .buy, 10, 100⟩, ⟨"NIFTY-F", .future, .sell, 4, 110⟩,
    ⟨"NIFTY-F", .future, .sell, 9, 105⟩]

theorem mark_to_market_conserved_reversedFuture :
    computeEquityFromPositions 1000 (replayLedger reversedFuture).1 (fun _ ↦ some 90) =
      1000 + (10 * (90 - 100) + -4 * (90 - 110) + -9 * (90 - 105)) - 3 * 90 * (18 / 100) := by
  have hprices : Prices (replayLedger reversedFuture).1 (fun _ ↦ some 90) fun _ ↦ 90 :=
    fun _ _ _ _ ↦ rfl
  rw [(mark_to_market_conserved reversedFuture).2.2 1000 _ _ hprices]
  decide +kernel

end TradingOS.PaperTrading
