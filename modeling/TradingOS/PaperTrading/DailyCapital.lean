import TradingOS.PaperTrading.AccountEquity
import TradingOS.PaperTrading.PositionRange
import TradingOS.Risk.PositionSizing

namespace TradingOS.PaperTrading

open Lib Lib.Runs

/-- A leg of the plan that a version of an F&O strategy keeps. -/
structure OptionLeg where
  symbol : String
  optionType : InstrumentType
  side : Side
  quantity : ℤ

structure LegOrder where
  strategyId : StrategyId
  symbol : String
  optionType : InstrumentType
  side : Side
  quantity : ℤ

/-- What a cycle has still to do: a strategy, or a leg of one. -/
inductive CycleJob
  | strategy (strategyId : StrategyId) (strategy : Strategy)
  | leg (order : LegOrder)

/-- The paper account through its daily cycles. -/
structure DailyDesk where
  capitalAllocated : ℚ
  capital_nonneg : 0 ≤ capitalAllocated
  rows : List PaperRow
  jobs : List CycleJob
  capitalPerStrategy : ℚ

inductive DailyEvent
  | cycle (strategies : List (StrategyId × Strategy)) (lastPrices : String → Option ℚ)
  | equity (outcome : BacktestOutcome) (volatility : Option ℚ) (executes : Bool) (sellPrice : ℚ)
  | options (outcome : BacktestOutcome) (legs : List OptionLeg)
  | leg (fillPrice : Option ℚ)
  | skipped

def Side.closing : Side → Side
  | .buy => .sell
  | .sell => .buy

/-- The legs that `_process_fno_strategy` executes, on the net quantities of the strategy. -/
def legOrders (strategyId : StrategyId) (net : String → ℤ) (outcome : BacktestOutcome)
    (legs : List OptionLeg) : List LegOrder :=
  let isOpen (leg : OptionLeg) : Bool := net leg.symbol ≠ 0
  let orders : List LegOrder :=
    match outcome.entriesExits.getLast? with
    | none => []
    | some latest =>
      if outcome.passed = false then []
      else if latest.entry ∧ ¬ legs.all isOpen then
        (legs.filter fun leg ↦ ¬ isOpen leg).map fun leg ↦
          ⟨strategyId, leg.symbol, leg.optionType, leg.side, leg.quantity⟩
      else if latest.exit ∧ legs.any isOpen then
        (legs.filter isOpen).map fun leg ↦
          ⟨strategyId, leg.symbol, leg.optionType, leg.side.closing, |net leg.symbol|⟩
      else []
  orders.filter (0 < ·.quantity)

/-- A fill in full. -/
def PaperOrder.filledAt (order : PaperOrder) (price : ℚ) : PaperRow :=
  ⟨order.strategyId, order.quantity, ⟨order.symbol, .equity, order.side, order.quantity, price⟩⟩

def LegOrder.filledAt (order : LegOrder) (price : ℚ) : PaperRow :=
  ⟨order.strategyId, order.quantity,
    ⟨order.symbol, order.optionType, order.side, order.quantity, price⟩⟩

/-- `closes[-1].close`. -/
def BacktestOutcome.lastPrice (outcome : BacktestOutcome) : ℚ := outcome.closeCurve.getLast?.getD 0

/-- `sizes[symbol].shares` of the one symbol that is sized. -/
def sharesOf (symbol : String) (volatility : Option ℚ) (lastPrice totalCapital : ℚ) : Option ℤ :=
  ((Risk.computePositionSizes [(symbol, volatility)] (fun _ ↦ lastPrice) totalCapital).lookup
    symbol).map Risk.PositionSizeResult.shares

namespace DailyDesk

variable (desk : DailyDesk)

def ledger : Ledger := replayLedger (desk.rows.map PaperRow.trade)

def positions : Table String SymbolPosition := desk.ledger.1

def net (strategyId : StrategyId) (symbol : String) : ℤ :=
  netQuantity ((desk.rows.filter (·.strategyId = strategyId)).map PaperRow.trade) symbol

/-- An equity strategy with what it has read of its own trades. -/
def read (strategyId : StrategyId) (symbol : String) : DailyRead :=
  ⟨strategyId, symbol, desk.net strategyId symbol⟩

def decide (strategyId : StrategyId) (symbol : String) (outcome : BacktestOutcome)
    (volatility : Option ℚ) : Except StrategyCycleResult PaperOrder :=
  (desk.read strategyId symbol).decide outcome
    (sharesOf symbol volatility outcome.lastPrice desk.capitalPerStrategy)

/-- What an order of an equity strategy is filled at: a buy at the price it was sized with. -/
def fillPrice (order : PaperOrder) (outcome : BacktestOutcome) (sellPrice : ℚ) : ℚ :=
  match order.side with
  | .buy => outcome.lastPrice
  | .sell => sellPrice

/-- A cycle takes the place of one that was broken off. The symbols of contracts are not those of
shares, and no price is negative. -/
def step (isContract : String → Bool) (desk : DailyDesk) : DailyEvent → Option DailyDesk
  | .cycle strategies lastPrices =>
    if strategies = [] then some { desk with jobs := [] }
    else
      let equity := computeEquityFromPositions desk.capitalAllocated desk.positions lastPrices
      some
        { desk with
          jobs := strategies.map fun s ↦ .strategy s.1 s.2
          capitalPerStrategy := equity / strategies.length }
  | .equity outcome volatility executes sellPrice =>
    match desk.jobs with
    | .strategy strategyId strategy :: jobs =>
      match PaperBook.tradedSymbol strategy with
      | none => none
      | some symbol =>
        if isContract symbol ∨ sellPrice < 0 then none
        else
          match desk.decide strategyId symbol outcome volatility with
          | .error _ => some { desk with jobs := jobs }
          | .ok order =>
            let rows := if executes then [order.filledAt (fillPrice order outcome sellPrice)] else []
            some { desk with jobs := jobs, rows := desk.rows ++ rows }
    | _ => none
  | .options outcome legs =>
    match desk.jobs with
    | .strategy strategyId strategy :: jobs =>
      if strategy.assetClass ≠ "F&O" then none
      else
        some
          { desk with
            jobs := (legOrders strategyId (desk.net strategyId) outcome legs).map .leg ++ jobs }
    | _ => none
  | .leg fillPrice =>
    match desk.jobs with
    | .leg order :: jobs =>
      if ¬ isContract order.symbol ∨ order.optionType = .equity then none
      else
        some
          { desk with
            jobs := jobs
            rows := desk.rows ++ (fillPrice.map order.filledAt).toList }
    | _ => none
  | .skipped => some { desk with jobs := desk.jobs.tail }

def begin (capitalAllocated : ℚ) (h : 0 ≤ capitalAllocated) : DailyDesk :=
  ⟨capitalAllocated, h, [], [], 0⟩

end DailyDesk

/-- What has been paid for the shares that are held. -/
def SymbolPosition.equityCost (pos : SymbolPosition) : ℚ :=
  if pos.instrumentType = .equity then pos.averageCost * pos.netQuantity else 0

/-- What a position leaves of the capital. -/
def SymbolPosition.released (pos : SymbolPosition) : ℚ := pos.realizedPnl - pos.equityCost

namespace DailyDesk

variable (desk : DailyDesk)

def equityCost : ℚ := desk.positions.total fun _ pos ↦ pos.equityCost

def realized : ℚ := desk.positions.total fun _ pos ↦ pos.realizedPnl

/-- The shares held have cost no more than the capital and the realized profit. -/
def Backed : Prop := desk.equityCost ≤ desk.capitalAllocated + desk.realized

def uncommitted : ℚ := desk.capitalAllocated + desk.realized - desk.equityCost

/-- Shares and contracts have symbols of their own. -/
def Sorted (isContract : String → Bool) : Prop :=
  ∀ symbol pos, desk.positions.get? symbol = some pos →
    (pos.instrumentType = .equity ↔ ¬ isContract symbol)

end DailyDesk

section Booking

variable {pos : SymbolPosition} {t : PaperTrade} {desk : DailyDesk} {row : PaperRow}
  {isContract : String → Bool}

@[simp] theorem instrumentType_fill : (pos.fill t).1.instrumentType = pos.instrumentType := by
  simp only [SymbolPosition.fill]
  split <;> rfl

theorem released_fill_of_equity (h : pos.instrumentType = .equity) :
    (pos.fill t).1.released = pos.released - t.signedQuantity * t.fillPrice := by
  have hreleased (pos : SymbolPosition) (h : pos.instrumentType = .equity) :
      pos.released = pos.worth 0 := by
    simp only [SymbolPosition.released, SymbolPosition.equityCost, SymbolPosition.worth, h, if_true]
    ring
  rw [hreleased _ (instrumentType_fill.trans h), hreleased _ h, SymbolPosition.worth_fill]
  ring

theorem released_fill_of_contract (h : pos.instrumentType ≠ .equity) :
    (pos.fill t).1.released =
      pos.released + ((pos.fill t).2.toList.map RealizedClose.pnl).sum := by
  simp only [SymbolPosition.released, SymbolPosition.equityCost, instrumentType_fill, h, if_false,
    sub_zero, SymbolPosition.realizedPnl_fill]

theorem total_book (ledger : Ledger) (w : SymbolPosition → ℚ) (hw : w (.opening t) = 0) :
    (ledger.book t).1.total (fun _ pos ↦ w pos) =
      ledger.1.total (fun _ pos ↦ w pos) + (w ((ledger.entry t).fill t).1 - w (ledger.entry t)) := by
  have hget : (ledger.1.setdefault t.symbol (.opening t)).get? t.symbol = some (ledger.entry t) := by
    rw [Table.get?_setdefault, if_pos rfl]
    rfl
  rw [Ledger.book, Table.total_modify _ _ _ hget, Table.total_setdefault _ _ _ _ hw]

namespace DailyDesk

theorem uncommitted_eq : desk.uncommitted =
    desk.capitalAllocated + desk.positions.total fun _ pos ↦ pos.released := by
  have hadd := Table.total_add (fun _ pos ↦ pos.released) (fun _ pos ↦ SymbolPosition.equityCost pos)
    desk.positions
  simp only [SymbolPosition.released, sub_add_cancel] at hadd
  simp only [uncommitted, realized, equityCost, hadd, SymbolPosition.released]
  ring

theorem backed_iff : desk.Backed ↔ 0 ≤ desk.uncommitted := sub_nonneg.symm

theorem uncommitted_book {desk' : DailyDesk} (hrows : desk'.rows = desk.rows ++ [row])
    (hcapital : desk'.capitalAllocated = desk.capitalAllocated) :
    desk'.uncommitted = desk.uncommitted +
      (((desk.ledger.entry row.trade).fill row.trade).1.released -
        (desk.ledger.entry row.trade).released) := by
  rw [uncommitted_eq, uncommitted_eq, hcapital, positions, ledger, hrows, List.map_append,
    List.map_singleton, replayLedger_append, total_book _ _ (by
      simp [SymbolPosition.released, SymbolPosition.equityCost, SymbolPosition.opening]), ← add_assoc]
  rfl

theorem entry_equity_iff (h : desk.Sorted isContract)
    (ht : t.instrumentType = .equity ↔ ¬ isContract t.symbol) :
    (desk.ledger.entry t).instrumentType = .equity ↔ ¬ isContract t.symbol := by
  simp only [Ledger.entry]
  cases hget : desk.ledger.1.get? t.symbol with
  | none => exact ht
  | some pos => exact h t.symbol pos hget

theorem Sorted.book {desk' : DailyDesk} (h : desk.Sorted isContract)
    (hrows : desk'.rows = desk.rows ++ [row])
    (hrow : row.trade.instrumentType = .equity ↔ ¬ isContract row.trade.symbol) :
    desk'.Sorted isContract := by
  intro symbol pos hpos
  rw [positions, ledger, hrows, List.map_append, List.map_singleton, replayLedger_append,
    Ledger.get?_book] at hpos
  split at hpos
  · next hsymbol =>
    obtain rfl := Option.some.inj hpos
    rw [instrumentType_fill, hsymbol]
    exact entry_equity_iff h hrow
  · exact h symbol pos hpos

end DailyDesk

end Booking

theorem sharesOf_eq (symbol : String) (volatility : Option ℚ) (lastPrice totalCapital : ℚ) :
    sharesOf symbol volatility lastPrice totalCapital =
      some (if volatility.any (0 < ·) ∧ 0 < lastPrice then ⌊totalCapital / lastPrice⌋ else 0) := by
  rw [sharesOf, Risk.computePositionSizes_singleton]
  by_cases hvolatility : volatility.any (0 < ·)
  · simp [hvolatility]
  · simp [hvolatility]

/-- What makes `_process_strategy` size an entry, but for the position. -/
def BacktestOutcome.Enters (outcome : BacktestOutcome) : Prop :=
  outcome.passed ∧ (∃ latest, outcome.entriesExits.getLast? = some latest ∧ latest.entry) ∧
    2 ≤ outcome.closeCurve.length

theorem DailyRead.decide_of_enters {read : DailyRead} {outcome : BacktestOutcome} {shares : ℤ}
    (h : outcome.Enters) (hflat : read.netQuantity ≤ 0) (hshares : 0 < shares) :
    read.decide outcome (some shares) = .ok (read.order .buy shares) := by
  obtain ⟨hpassed, ⟨latest, hlatest, hentry⟩, hlength⟩ := h
  simp only [DailyRead.decide, hpassed, hlatest, hentry]
  rw [if_neg (by simp), if_pos (by simpa using hflat), if_neg (by omega),
    Option.getD_some, if_neg (by omega)]

theorem DailyRead.enters_of_decide {read : DailyRead} {outcome : BacktestOutcome}
    {shares : Option ℤ} {order : PaperOrder} (h : read.decide outcome shares = .ok order)
    (hbuy : order.side = .buy) : outcome.Enters := by
  simp only [DailyRead.decide] at h
  split at h
  · cases h
  · next hpassed =>
    split at h
    · cases h
    · next latest hlatest =>
      split_ifs at h with hentry hlength
      · exact ⟨by simpa using hpassed, ⟨latest, hlatest, hentry.1⟩, by omega⟩
      · obtain rfl := Except.ok.inj h
        cases hbuy

namespace DailyDesk

variable {desk t : DailyDesk} {isContract : String → Bool} {e : DailyEvent}

/-- A buy costs no more than the capital that no shares bind, and no contract is closed at a
greater loss. -/
def Affordable (desk : DailyDesk) : DailyEvent → DailyDesk → Prop
  | .equity outcome volatility executes _, _ =>
    match desk.jobs with
    | .strategy strategyId strategy :: _ =>
      ∀ symbol, PaperBook.tradedSymbol strategy = some symbol → executes → outcome.Enters →
        desk.net strategyId symbol ≤ 0 → volatility.any (0 < ·) → 0 < outcome.lastPrice →
        ⌊desk.capitalPerStrategy / outcome.lastPrice⌋ * outcome.lastPrice ≤ desk.uncommitted
    | _ => True
  | .leg (some fillPrice), _ =>
    match desk.jobs with
    | .leg order :: _ =>
      let trade := (order.filledAt fillPrice).trade
      0 ≤ desk.uncommitted +
        (((desk.ledger.entry trade).fill trade).2.toList.map RealizedClose.pnl).sum
    | _ => True
  | _, _ => True

theorem backed_of_rows {desk' : DailyDesk} (hrows : desk'.rows = desk.rows)
    (hcapital : desk'.capitalAllocated = desk.capitalAllocated) :
    desk'.Backed ↔ desk.Backed := by
  simp only [Backed, equityCost, realized, positions, ledger, hrows, hcapital]

theorem sorted_of_rows {desk' : DailyDesk} (hrows : desk'.rows = desk.rows) :
    desk'.Sorted isContract ↔ desk.Sorted isContract := by
  simp only [Sorted, positions, ledger, hrows]

/-- What the account does with an order of an equity strategy. -/
theorem backed_fill_of_equity {desk' : DailyDesk} {order : PaperOrder} {price : ℚ}
    (hsorted : desk.Sorted isContract) (hsymbol : ¬ isContract order.symbol)
    (hrows : desk'.rows = desk.rows ++ [order.filledAt price])
    (hcapital : desk'.capitalAllocated = desk.capitalAllocated) :
    desk'.Backed ↔ (order.filledAt price).trade.signedQuantity * price ≤ desk.uncommitted := by
  have htype : (desk.ledger.entry (order.filledAt price).trade).instrumentType = .equity :=
    (entry_equity_iff hsorted (iff_of_true rfl hsymbol)).mpr hsymbol
  rw [backed_iff, uncommitted_book hrows hcapital, released_fill_of_equity htype]
  have hprice : (order.filledAt price).trade.fillPrice = price := rfl
  rw [hprice, sub_sub_cancel_left, ← sub_eq_add_neg, sub_nonneg]

theorem backed_fill_of_contract {desk' : DailyDesk} {order : LegOrder} {price : ℚ}
    (hsorted : desk.Sorted isContract) (hsymbol : isContract order.symbol)
    (htype : order.optionType ≠ .equity)
    (hrows : desk'.rows = desk.rows ++ [order.filledAt price])
    (hcapital : desk'.capitalAllocated = desk.capitalAllocated) :
    desk'.Backed ↔ 0 ≤ desk.uncommitted +
      (((desk.ledger.entry (order.filledAt price).trade).fill (order.filledAt price).trade).2.toList.map
        RealizedClose.pnl).sum := by
  have hentry : (desk.ledger.entry (order.filledAt price).trade).instrumentType ≠ .equity := by
    intro he
    exact (entry_equity_iff hsorted
      (iff_of_false htype (not_not.mpr hsymbol))).mp he hsymbol
  rw [backed_iff, uncommitted_book hrows hcapital, released_fill_of_contract hentry,
    add_sub_cancel_left]

/-- What a step books. -/
inductive Books (isContract : String → Bool) (desk t : DailyDesk) (e : DailyEvent) : Prop
  | nothing : t.rows = desk.rows → (desk.Backed → desk.Affordable e t) → Books isContract desk t e
  | shares (order : PaperOrder) (price : ℚ) : ¬ isContract order.symbol →
      t.rows = desk.rows ++ [order.filledAt price] →
      (desk.Backed → ((order.filledAt price).trade.signedQuantity * price ≤ desk.uncommitted ↔
        desk.Affordable e t)) → Books isContract desk t e
  | contract (order : LegOrder) (price : ℚ) : isContract order.symbol → order.optionType ≠ .equity →
      t.rows = desk.rows ++ [order.filledAt price] →
      (desk.Affordable e t ↔ 0 ≤ desk.uncommitted +
        (((desk.ledger.entry (order.filledAt price).trade).fill
          (order.filledAt price).trade).2.toList.map RealizedClose.pnl).sum) →
      Books isContract desk t e

theorem signedQuantity_filledAt (read : DailyRead) (side : Side) (quantity : ℤ) (price : ℚ) :
    ((read.order side quantity).filledAt price).trade.signedQuantity =
      match side with
      | .buy => quantity
      | .sell => -quantity := rfl

/-- What is bought is what the capital of the strategy pays for at the last price. -/
theorem affordable_of_decide {strategyId : StrategyId} {strategy : Strategy} {jobs : List CycleJob}
    {symbol : String} {outcome : BacktestOutcome} {volatility : Option ℚ} {sellPrice : ℚ}
    {order : PaperOrder} (hjobs : desk.jobs = .strategy strategyId strategy :: jobs)
    (hsymbol : PaperBook.tradedSymbol strategy = some symbol) (hsell : 0 ≤ sellPrice)
    (horder : desk.decide strategyId symbol outcome volatility = .ok order) (h : desk.Backed) :
    (order.filledAt (fillPrice order outcome sellPrice)).trade.signedQuantity *
        fillPrice order outcome sellPrice ≤ desk.uncommitted ↔
      desk.Affordable (.equity outcome volatility true sellPrice) t := by
  rw [backed_iff] at h
  simp only [Affordable, hjobs, hsymbol, Option.some.injEq, forall_eq']
  rcases DailyRead.decide_eq_ok horder with ⟨hbuy, hshares, hflat⟩ | ⟨hsold, hlong⟩
  · have henters := DailyRead.enters_of_decide horder (by rw [hbuy]; rfl)
    rw [sharesOf_eq, Option.getD_some] at hshares hbuy
    split_ifs at hshares hbuy with hsized
    · subst hbuy
      rw [signedQuantity_filledAt]
      exact ⟨fun hle _ _ _ _ _ ↦ hle, fun hle ↦ hle trivial henters hflat hsized.1 hsized.2⟩
    · exact absurd hshares (lt_irrefl 0)
  · subst hsold
    refine iff_of_true ?_ fun _ _ hflat ↦ absurd hflat (not_le.mpr hlong)
    refine le_trans (mul_nonpos_of_nonpos_of_nonneg ?_ hsell) h
    rw [signedQuantity_filledAt, Int.cast_neg, neg_nonpos]
    exact_mod_cast hlong.le

/-- An order that is turned down would have cost nothing. -/
theorem affordable_of_error {strategyId : StrategyId} {strategy : Strategy} {jobs : List CycleJob}
    {symbol : String} {outcome : BacktestOutcome} {volatility : Option ℚ} {executes : Bool}
    {sellPrice : ℚ} {result : StrategyCycleResult}
    (hjobs : desk.jobs = .strategy strategyId strategy :: jobs)
    (hsymbol : PaperBook.tradedSymbol strategy = some symbol)
    (herror : desk.decide strategyId symbol outcome volatility = .error result) (h : desk.Backed) :
    desk.Affordable (.equity outcome volatility executes sellPrice) t := by
  rw [backed_iff] at h
  simp only [Affordable, hjobs, hsymbol, Option.some.injEq, forall_eq']
  intro _ henters hflat hvolatility hprice
  have hshares : ¬ 0 < ⌊desk.capitalPerStrategy / outcome.lastPrice⌋ := by
    intro hshares
    have hsized : sharesOf symbol volatility outcome.lastPrice desk.capitalPerStrategy =
        some ⌊desk.capitalPerStrategy / outcome.lastPrice⌋ := by
      rw [sharesOf_eq, if_pos ⟨hvolatility, hprice⟩]
    have hread : (desk.read strategyId symbol).netQuantity ≤ 0 := hflat
    rw [decide, hsized, DailyRead.decide_of_enters henters hread hshares] at herror
    cases herror
  have hcast : (⌊desk.capitalPerStrategy / outcome.lastPrice⌋ : ℚ) ≤ 0 := by
    exact_mod_cast not_lt.mp hshares
  exact le_trans (mul_nonpos_of_nonpos_of_nonneg hcast hprice.le) h

theorem step_cases (hstep : step isContract desk e = some t) :
    t.capitalAllocated = desk.capitalAllocated ∧ Books isContract desk t e := by
  cases e with
  | cycle strategies lastPrices =>
    simp only [step] at hstep
    split at hstep
    all_goals
      obtain rfl := Option.some.inj hstep
      exact ⟨rfl, .nothing rfl fun _ ↦ trivial⟩
  | equity outcome volatility executes sellPrice =>
    simp only [step] at hstep
    split at hstep
    · next strategyId strategy jobs hjobs =>
      split at hstep
      · cases hstep
      · next symbol hsymbol =>
        split at hstep
        · cases hstep
        · next hguard =>
          obtain ⟨hshare, hsell⟩ := not_or.mp hguard
          split at hstep
          · next herror =>
            obtain rfl := Option.some.inj hstep
            exact ⟨rfl, .nothing rfl (affordable_of_error hjobs hsymbol herror)⟩
          · next order horder =>
            obtain rfl := Option.some.inj hstep
            cases executes with
            | false =>
              refine ⟨rfl, .nothing (List.append_nil _) fun _ ↦ ?_⟩
              simp only [Affordable, hjobs]
              exact fun _ _ hexecutes ↦ absurd hexecutes Bool.false_ne_true
            | true =>
              refine ⟨rfl, .shares order _ ?_ rfl
                (affordable_of_decide hjobs hsymbol (not_lt.mp hsell) horder)⟩
              rcases DailyRead.decide_eq_ok horder with ⟨rfl, -⟩ | ⟨rfl, -⟩ <;> exact hshare
    · cases hstep
  | options outcome legs =>
    simp only [step] at hstep
    split at hstep
    · split at hstep
      · cases hstep
      · obtain rfl := Option.some.inj hstep
        exact ⟨rfl, .nothing rfl fun _ ↦ trivial⟩
    · cases hstep
  | leg fillPrice =>
    simp only [step] at hstep
    split at hstep
    · next order jobs hjobs =>
      split at hstep
      · cases hstep
      · next hguard =>
        obtain ⟨hsymbol, htype⟩ := not_or.mp hguard
        obtain rfl := Option.some.inj hstep
        cases fillPrice with
        | none => exact ⟨rfl, .nothing (List.append_nil _) fun _ ↦ trivial⟩
        | some price =>
          refine ⟨rfl, .contract order price (not_not.mp hsymbol) htype rfl ?_⟩
          simp only [Affordable, hjobs]
    · cases hstep
  | skipped =>
    obtain rfl := Option.some.inj hstep
    exact ⟨rfl, .nothing rfl fun _ ↦ trivial⟩

theorem step_sorted (h : desk.Sorted isContract) (hstep : step isContract desk e = some t) :
    t.Sorted isContract := by
  obtain ⟨-, hbooks⟩ := step_cases hstep
  cases hbooks with
  | nothing hrows _ => exact (sorted_of_rows hrows).mpr h
  | shares _ _ hsymbol hrows _ => exact h.book hrows (iff_of_true rfl hsymbol)
  | contract _ _ hsymbol htype hrows _ =>
    exact h.book hrows (iff_of_false htype (not_not.mpr hsymbol))

theorem step_backed_iff (hsorted : desk.Sorted isContract) (h : desk.Backed)
    (hstep : step isContract desk e = some t) : t.Backed ↔ desk.Affordable e t := by
  obtain ⟨hcapital, hbooks⟩ := step_cases hstep
  cases hbooks with
  | nothing hrows haffordable =>
    exact iff_of_true ((backed_of_rows hrows hcapital).mpr h) (haffordable h)
  | shares order price hsymbol hrows haffordable =>
    exact (backed_fill_of_equity hsorted hsymbol hrows hcapital).trans (haffordable h)
  | contract order price hsymbol htype hrows haffordable =>
    exact (backed_fill_of_contract hsorted hsymbol htype hrows hcapital).trans haffordable.symm

theorem sorted_begin (capitalAllocated : ℚ) (h : 0 ≤ capitalAllocated) :
    (begin capitalAllocated h).Sorted isContract := nofun

theorem backed_begin (capitalAllocated : ℚ) (h : 0 ≤ capitalAllocated) :
    (begin capitalAllocated h).Backed := by
  have hnothing : Backed ⟨capitalAllocated, h, [], [], 0⟩ ↔ 0 ≤ capitalAllocated + 0 := Iff.rfl
  exact hnothing.mpr (by rwa [add_zero])

/-- The shares held are paid for by the account's own money all along exactly if no entry is sized
above what is left of it. -/
theorem never_leveraged_iff (isContract : String → Bool) (capitalAllocated : ℚ)
    (h : 0 ≤ capitalAllocated) (events : List DailyEvent) :
    Along (step isContract) (fun _ _ t ↦ t.Backed) (begin capitalAllocated h) events ↔
      Along (step isContract) Affordable (begin capitalAllocated h) events := by
  refine along_state_iff_of_invariant (fun s e t hs ↦ step_sorted hs)
    (fun s e t hsorted hbacked ↦ step_backed_iff hsorted hbacked)
    (sorted_begin capitalAllocated h) (backed_begin capitalAllocated h)

/-- The last close of two is an entry. -/
def breakout : BacktestOutcome := ⟨true, none, [⟨true, false⟩], [90, 100]⟩

def reliance : StrategyId × Strategy := (1, ⟨"EQUITY", ["RELIANCE"], 0⟩)

def tcs : StrategyId × Strategy := (2, ⟨"EQUITY", ["TCS"], 0⟩)

/-- A first strategy buys with all of the capital, and then a second one joins. -/
def secondJoins : List DailyEvent :=
  [.cycle [reliance] fun _ ↦ none, .equity breakout (some 1) true 0,
    .cycle [reliance, tcs] fun _ ↦ some 100, .skipped]

theorem never_leveraged_iff_reliance :
    Along (step fun _ ↦ false) (fun _ _ t ↦ t.Backed) (begin 100000 (by decide +kernel))
      (secondJoins.take 2) := by
  refine (never_leveraged_iff (fun _ ↦ false) 100000 (by decide +kernel) _).mpr ?_
  refine (along_cons rfl).mpr ⟨trivial, ?_⟩
  cases hbuy : step _ _ (.equity breakout (some 1) true 0) with
  | none => exact along_cons_none hbuy
  | some t =>
    refine (along_cons hbuy).mpr ⟨fun _ _ _ _ _ _ _ ↦ ?_, trivial⟩
    decide +kernel

/-- The second strategy is given half of the equity, which is all in the shares of the first. -/
theorem second_strategy_overspends :
    ¬ Along (step fun _ ↦ false) (fun _ _ t ↦ t.Backed) (begin 100000 (by decide +kernel))
      (secondJoins ++ [.equity breakout (some 1) true 0]) := by
  intro h
  obtain ⟨_, hbacked⟩ := h.last
    (exec_eq_some.mp (Option.some_get (by decide +kernel)).symm)
  revert hbacked
  simp only [Backed]
  decide +kernel

end DailyDesk

end TradingOS.PaperTrading
