import Mathlib.Data.Rat.Floor
import Mathlib.Tactic.Linarith
import TradingOS.PaperTrading.AccountEquity
import TradingOS.PaperTrading.RoundedLedger

namespace TradingOS.PaperTrading

open Lib

abbrev AccountId := ℕ

/-- What the broker answers to the calls of `get_quote`, in their order. -/
abbrev QuoteSource := ℕ → String → Option ℚ

def openRows (rows : List (String × SymbolPosition)) : List (String × SymbolPosition) :=
  rows.filter fun r ↦ r.2.netQuantity ≠ 0

/-- One quote for each open symbol; one that fails leaves the symbol without a price. -/
def lastPricesFrom (quote : QuoteSource) : ℕ → List (String × SymbolPosition) → String → Option ℚ
  | _, [] => fun _ ↦ none
  | calls, (symbol, pos) :: rows =>
    if pos.netQuantity = 0 then lastPricesFrom quote calls rows
    else
      match quote calls symbol with
      | none => lastPricesFrom quote (calls + 1) rows
      | some price => Function.update (lastPricesFrom quote (calls + 1) rows) symbol (some price)

/-- A float computation over a replayed ledger. `sum` is what Python's `sum` gives of floats, and
`decimal` the decimal number that stands for a float in a `numeric` column. -/
structure FloatColumns extends FloatLedger where
  sum : List ℚ → ℚ
  decimal : ℚ → ℚ

namespace FloatColumns

variable (F : FloatColumns)

def computeMarginLine (pos : SymbolPosition) (lastPrice : ℚ) : MarginLine :=
  let notional := F.round (F.quantity pos.netQuantity * lastPrice)
  { symbol := pos.symbol
    instrumentType := pos.instrumentType
    netQuantity := pos.netQuantity
    notional := notional
    marginRequired :=
      if pos.netQuantity = 0 then 0
      else
        match pos.instrumentType with
        | .equity => 0
        | .future => F.round (notional * F.round futuresMarginPct)
        | .ce | .pe => if 0 < pos.netQuantity then 0 else notional }

def computeMarginSummary (positions : Table String SymbolPosition)
    (lastPrices : String → Option ℚ) : MarginSummary :=
  let lines := positions.rows.filterMap fun r ↦
    if r.2.netQuantity ≠ 0 then (lastPrices r.1).map (F.computeMarginLine r.2) else none
  ⟨F.sum (lines.map MarginLine.marginRequired), lines⟩

def realized (positions : Table String SymbolPosition) : ℚ :=
  F.sum (positions.values.map SymbolPosition.realizedPnl)

def unrealized (positions : Table String SymbolPosition) (lastPrices : String → Option ℚ) : ℚ :=
  F.sum (positions.rows.filterMap fun r ↦
    if r.2.netQuantity ≠ 0 then
      (lastPrices r.1).map fun price ↦
        F.round (F.round (price - r.2.averageCost) * F.round r.2.netQuantity)
    else none)

def cash (capitalAllocated : ℚ) (positions : Table String SymbolPosition) : ℚ :=
  F.round (F.round capitalAllocated + F.realized positions)

def computeEquityFromPositions (capitalAllocated : ℚ) (positions : Table String SymbolPosition)
    (lastPrices : String → Option ℚ) : ℚ :=
  F.round (F.round (F.cash capitalAllocated positions + F.unrealized positions lastPrices) -
    (F.computeMarginSummary positions lastPrices).totalMarginBlocked)

/-- Where nothing is rounded the equity is the one over the rationals. -/
theorem computeEquityFromPositions_exact (capitalAllocated : ℚ)
    (positions : Table String SymbolPosition) (lastPrices : String → Option ℚ) :
    computeEquityFromPositions ⟨⟨id⟩, List.sum, id⟩ capitalAllocated positions lastPrices =
      PaperTrading.computeEquityFromPositions capitalAllocated positions lastPrices := by
  have hline (pos : SymbolPosition) (price : ℚ) :
      computeMarginLine ⟨⟨id⟩, List.sum, id⟩ pos price = PaperTrading.computeMarginLine pos price := by
    obtain ⟨_, _, _, _, _, instrumentType⟩ := pos
    cases instrumentType <;> rfl
  have hmargin : computeMarginSummary ⟨⟨id⟩, List.sum, id⟩ positions lastPrices =
      PaperTrading.computeMarginSummary positions lastPrices := by
    simp only [computeMarginSummary, PaperTrading.computeMarginSummary, funext (hline _)]
  rw [computeEquityFromPositions, hmargin]
  rfl

end FloatColumns

/-- `n` lies within a half of `x`; a whole half is towards zero. -/
def Nearest (n : ℤ) (x : ℚ) : Prop :=
  |x - n| < 1 / 2 ∨ 0 ≤ x ∧ n - x = 1 / 2 ∨ x < 0 ∧ x - n = 1 / 2

theorem roundHalfAway_eq_iff {n : ℤ} {x : ℚ} : roundHalfAway x = n ↔ Nearest n x := by
  rw [roundHalfAway, Nearest, abs_lt]
  split
  · next hx =>
    rw [Int.floor_eq_iff]
    constructor
    · rintro ⟨hle, hlt⟩
      rcases hle.eq_or_lt with heq | hlt'
      · exact .inr (.inl ⟨hx, by linarith⟩)
      · exact .inl ⟨by linarith, by linarith⟩
    · rintro (⟨hlow, hhigh⟩ | ⟨-, htie⟩ | ⟨hneg, -⟩)
      · constructor <;> linarith
      · constructor <;> linarith
      · exact absurd hx (not_le.mpr hneg)
  · next hx =>
    rw [not_le] at hx
    rw [Int.ceil_eq_iff]
    constructor
    · rintro ⟨hlt, hle⟩
      rcases hle.eq_or_lt with heq | hlt'
      · exact .inr (.inr ⟨hx, by linarith⟩)
      · exact .inl ⟨by linarith, by linarith⟩
    · rintro (⟨hlow, hhigh⟩ | ⟨hnonneg, -⟩ | ⟨-, htie⟩)
      · constructor <;> linarith
      · exact absurd hx (not_lt.mpr hnonneg)
      · constructor <;> linarith

namespace FloatColumns

variable (F : FloatColumns)

/-- What a `Numeric(18, 2)` column keeps of a float, in hundredths. -/
def paise (x : ℚ) : ℤ := roundHalfAway (F.decimal x * 100)

def numeric (x : ℚ) : ℚ := F.paise x / 100

theorem numeric_eq_iff {F : FloatColumns} {equity cash unrealized margin : ℚ} :
    F.numeric equity = F.numeric cash + F.numeric unrealized - F.numeric margin ↔
      Nearest (F.paise cash + F.paise unrealized - F.paise margin) (F.decimal equity * 100) := by
  have hpaise : F.paise equity = F.paise cash + F.paise unrealized - F.paise margin ↔
      (F.paise equity : ℚ) = F.paise cash + F.paise unrealized - F.paise margin := by
    norm_cast
  rw [← roundHalfAway_eq_iff]
  refine Iff.trans ?_ hpaise.symm
  rw [numeric, numeric, numeric, numeric, ← add_div, ← sub_div, div_left_inj' (by norm_num)]

end FloatColumns

structure AccountEquitySnapshot where
  cash : ℚ
  realizedPnlCumulative : ℚ
  unrealizedPnl : ℚ
  marginBlocked : ℚ
  equity : ℚ
  deriving DecidableEq

structure AccountStore where
  capitalAllocated : AccountId → Option ℚ
  trades : AccountId → List PaperTrade
  snapshots : Table (AccountId × ℤ) AccountEquitySnapshot

def computeAccountEquity (F : FloatColumns) (capitalAllocated : ℚ) (trades : List PaperTrade)
    (quote : QuoteSource) (calls : ℕ) : ℚ :=
  let positions := (F.replayLedger trades).1
  F.computeEquityFromPositions capitalAllocated positions
    (lastPricesFrom quote calls positions.rows)

/-- `take_daily_snapshot`, whose own quotes come before those of the equity. -/
def takeDailySnapshot (F : FloatColumns) (store : AccountStore) (quote : QuoteSource)
    (accountId : AccountId) (asOf : ℤ) : AccountStore × Option AccountEquitySnapshot :=
  match store.capitalAllocated accountId with
  | none => (store, none)
  | some capitalAllocated =>
    let trades := store.trades accountId
    let positions := (F.replayLedger trades).1
    let lastPrices := lastPricesFrom quote 0 positions.rows
    let snapshot : AccountEquitySnapshot :=
      { cash := F.numeric (F.cash capitalAllocated positions)
        realizedPnlCumulative := F.numeric (F.realized positions)
        unrealizedPnl := F.numeric (F.unrealized positions lastPrices)
        marginBlocked :=
          F.numeric (F.computeMarginSummary positions lastPrices).totalMarginBlocked
        equity :=
          F.numeric (computeAccountEquity F capitalAllocated trades quote
            (openRows positions.rows).length) }
    ({ store with snapshots := store.snapshots.assign (accountId, asOf) snapshot }, some snapshot)

section Quotes

variable {quote : QuoteSource} {rows : List (String × SymbolPosition)}

theorem openRows_cons_of_flat {symbol : String} {pos : SymbolPosition} (h : pos.netQuantity = 0) :
    openRows ((symbol, pos) :: rows) = openRows rows :=
  List.filter_cons_of_neg (by simpa using h)

theorem openRows_cons_of_open {symbol : String} {pos : SymbolPosition} (h : pos.netQuantity ≠ 0) :
    openRows ((symbol, pos) :: rows) = (symbol, pos) :: openRows rows :=
  List.filter_cons_of_pos (by simpa using h)

theorem lastPricesFrom_of_notMem {symbol : String}
    (h : symbol ∉ (openRows rows).map Prod.fst) (calls : ℕ) :
    lastPricesFrom quote calls rows symbol = none := by
  induction rows generalizing calls with
  | nil => rfl
  | cons row rows ih =>
    obtain ⟨other, pos⟩ := row
    rw [lastPricesFrom]
    split
    · next hflat =>
      rw [openRows_cons_of_flat hflat] at h
      exact ih h calls
    · next hopen =>
      rw [openRows_cons_of_open hopen, List.map_cons, List.mem_cons, not_or] at h
      cases quote calls other with
      | none => exact ih h.2 (calls + 1)
      | some price =>
        dsimp only
        rw [Function.update_of_ne h.1]
        exact ih h.2 (calls + 1)

/-- The open symbols are asked for in turn. -/
theorem lastPricesFrom_of_getElem? (hnodup : (rows.map Prod.fst).Nodup) {i : ℕ}
    {row : String × SymbolPosition} (hrow : (openRows rows)[i]? = some row) (calls : ℕ) :
    lastPricesFrom quote calls rows row.1 = quote (calls + i) row.1 := by
  induction rows generalizing calls i with
  | nil => simp [openRows] at hrow
  | cons first rows ih =>
    obtain ⟨symbol, pos⟩ := first
    obtain ⟨hnew, hnodup⟩ := List.nodup_cons.mp hnodup
    rw [lastPricesFrom]
    split
    · next hflat =>
      rw [openRows_cons_of_flat hflat] at hrow
      exact ih hnodup hrow calls
    · next hopen =>
      rw [openRows_cons_of_open hopen] at hrow
      have hkeys : symbol ∉ (openRows rows).map Prod.fst :=
        fun hmem ↦ hnew ((List.filter_sublist.map Prod.fst).subset hmem)
      cases i with
      | zero =>
        obtain rfl := Option.some.inj hrow
        rw [Nat.add_zero]
        cases quote calls symbol with
        | none => exact lastPricesFrom_of_notMem hkeys (calls + 1)
        | some price => exact Function.update_self ..
      | succ i =>
        rw [List.getElem?_cons_succ] at hrow
        have hne : row.1 ≠ symbol :=
          fun he ↦ hkeys (he ▸ List.mem_map_of_mem (List.mem_of_getElem? hrow))
        have hturn : calls + (i + 1) = calls + 1 + i := by omega
        rw [hturn, ← ih hnodup hrow (calls + 1)]
        cases quote calls symbol with
        | none => rfl
        | some price => exact Function.update_of_ne hne ..

/-- Two rounds of quotes give the same prices when they answer the same for every open symbol. -/
theorem lastPricesFrom_eq_iff (hnodup : (rows.map Prod.fst).Nodup) (calls calls' : ℕ) :
    lastPricesFrom quote calls rows = lastPricesFrom quote calls' rows ↔
      ∀ i row, (openRows rows)[i]? = some row →
        quote (calls + i) row.1 = quote (calls' + i) row.1 := by
  constructor
  · intro h i row hrow
    have hanswer (calls : ℕ) : lastPricesFrom quote calls rows row.1 = quote (calls + i) row.1 :=
      lastPricesFrom_of_getElem? hnodup hrow calls
    rw [← hanswer calls, ← hanswer calls', h]
  · intro h
    funext symbol
    by_cases hmem : symbol ∈ (openRows rows).map Prod.fst
    · obtain ⟨row, hrow, rfl⟩ := List.mem_map.mp hmem
      obtain ⟨i, hi⟩ := List.mem_iff_getElem?.mp hrow
      rw [lastPricesFrom_of_getElem? hnodup hi, lastPricesFrom_of_getElem? hnodup hi]
      exact h i row hi
    · rw [lastPricesFrom_of_notMem hmem, lastPricesFrom_of_notMem hmem]

end Quotes

section Snapshot

variable (F : FloatColumns) (store : AccountStore) (quote : QuoteSource) (accountId : AccountId)

def AccountStore.positions (store : AccountStore) (accountId : AccountId) :
    Table String SymbolPosition := (F.replayLedger (store.trades accountId)).1

def AccountStore.openRows (store : AccountStore) (accountId : AccountId) :
    List (String × SymbolPosition) := PaperTrading.openRows (store.positions F accountId).rows

/-- The prices that the snapshot's own columns are computed from. -/
def columnPrices : String → Option ℚ := lastPricesFrom quote 0 (store.positions F accountId).rows

/-- The prices that its equity is computed from. -/
def equityPrices : String → Option ℚ :=
  lastPricesFrom quote (store.openRows F accountId).length (store.positions F accountId).rows

/-- The account's equity at some prices is the nearest to what the rounded cash, unrealized P&L
and margin at the first round's prices come to. -/
def ColumnsCarry (capitalAllocated : ℚ) (lastPrices : String → Option ℚ) : Prop :=
  let positions := store.positions F accountId
  let first := columnPrices F store quote accountId
  Nearest
    (F.paise (F.cash capitalAllocated positions) + F.paise (F.unrealized positions first) -
      F.paise (F.computeMarginSummary positions first).totalMarginBlocked)
    (F.decimal (F.computeEquityFromPositions capitalAllocated positions lastPrices) * 100)

variable {F store quote accountId} {asOf : ℤ} {capitalAllocated : ℚ}
  {snapshot : AccountEquitySnapshot}

theorem equity_takeDailySnapshot (hcapital : store.capitalAllocated accountId = some capitalAllocated)
    (h : (takeDailySnapshot F store quote accountId asOf).2 = some snapshot) :
    snapshot.equity = snapshot.cash + snapshot.unrealizedPnl - snapshot.marginBlocked ↔
      ColumnsCarry F store quote accountId capitalAllocated
        (equityPrices F store quote accountId) := by
  simp only [takeDailySnapshot, hcapital] at h
  obtain rfl := Option.some.inj h
  exact FloatColumns.numeric_eq_iff

theorem snapshots_takeDailySnapshot
    (h : (takeDailySnapshot F store quote accountId asOf).2 = some snapshot)
    (key : AccountId × ℤ) :
    (takeDailySnapshot F store quote accountId asOf).1.snapshots.get? key =
      if key = (accountId, asOf) then some snapshot else store.snapshots.get? key := by
  simp only [takeDailySnapshot] at h ⊢
  split at h
  · cases h
  · obtain rfl := Option.some.inj h
    rw [Table.get?_assign]

end Snapshot

/-- The floats where every result is one. -/
def exactColumns : FloatColumns := ⟨⟨id⟩, List.sum, id⟩

def storeOf (trades : List PaperTrade) : AccountStore := ⟨fun _ ↦ some 1000, fun _ ↦ trades, .empty⟩

def stockAndOption : List PaperTrade :=
  [⟨"INFY", .equity, .buy, 4, 100⟩, ⟨"INFY", .equity, .sell, 1, 221 / 2⟩,
    ⟨"NIFTY-CE", .ce, .sell, 2, 8⟩]

/-- The average cost falls between two paise. -/
def halfPaisa : List PaperTrade :=
  [⟨"INFY", .equity, .buy, 1, 100⟩, ⟨"INFY", .equity, .buy, 1, 401 / 4⟩,
    ⟨"INFY", .equity, .sell, 1, 401 / 4⟩]

end TradingOS.PaperTrading
