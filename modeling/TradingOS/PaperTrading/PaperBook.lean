import Mathlib.Logic.Function.Basic
import TradingOS.PaperTrading.IntradayRiskRules

namespace TradingOS.PaperTrading

open Lib Lib.Runs

abbrev StrategyId := ℕ

structure Strategy where
  assetClass : String
  universeSymbols : List String
  maxDrawdownLimit : ℚ
  deriving DecidableEq

/-- A row of the paper ledger, with the strategy it is booked for. -/
structure PaperRow where
  strategyId : StrategyId
  requestedQuantity : ℤ
  trade : PaperTrade
  deriving DecidableEq

/-- An order on its way to `execute_paper_trade`. `basis` is the net quantity it has been decided
on. -/
structure PaperOrder where
  strategyId : StrategyId
  symbol : String
  side : Side
  quantity : ℤ
  basis : ℤ
  deriving DecidableEq

/-- `execute_paper_trade` looks at no reference price. -/
def PaperOrder.signal (order : PaperOrder) : TradeSignal :=
  ⟨order.symbol, order.side, order.quantity, 0⟩

structure EntryExit where
  entry : Bool
  exit : Bool
  deriving DecidableEq

structure BacktestOutcome where
  passed : Bool
  error : Option String
  entriesExits : List EntryExit
  closeCurve : List ℚ
  deriving DecidableEq

inductive CycleAction
  | buy | sell | noTransition | skipped
  deriving DecidableEq

structure StrategyCycleResult where
  strategyId : StrategyId
  action : CycleAction
  reason : Option String
  deriving DecidableEq

/-- A `_process_strategy` that has read the ledger. -/
structure DailyRead where
  strategyId : StrategyId
  symbol : String
  netQuantity : ℤ
  deriving DecidableEq

namespace DailyRead

def order (read : DailyRead) (side : Side) (quantity : ℤ) : PaperOrder :=
  ⟨read.strategyId, read.symbol, side, quantity, read.netQuantity⟩

def skipped (read : DailyRead) (reason : String) : StrategyCycleResult :=
  ⟨read.strategyId, .skipped, some reason⟩

/-- The rest of `_process_strategy` up to the execution; `shares` is what
`compute_position_sizes` gives for the symbol. -/
def decide (read : DailyRead) (outcome : BacktestOutcome) (shares : Option ℤ) :
    Except StrategyCycleResult PaperOrder :=
  let currentlyLong : Bool := 0 < read.netQuantity
  let noSignal := "no entries_exits signal produced"
  if outcome.passed = false then
    .error (read.skipped ((outcome.error.filter (· ≠ "")).getD noSignal))
  else
    match outcome.entriesExits.getLast? with
    | none => .error (read.skipped ((outcome.error.filter (· ≠ "")).getD noSignal))
    | some latest =>
      if latest.entry ∧ ¬ currentlyLong then
        if outcome.closeCurve.length < 2 then
          .error (read.skipped "not enough close history to size a trade")
        else if shares.getD 0 ≤ 0 then
          .error (read.skipped "computed position size was zero")
        else .ok (read.order .buy (shares.getD 0))
      else if latest.exit ∧ currentlyLong then .ok (read.order .sell read.netQuantity)
      else .error ⟨read.strategyId, .noTransition, none⟩

end DailyRead

/-- The order of `close_position` on a net quantity that is not zero. -/
def closeOrder (strategyId : StrategyId) (symbol : String) (netQuantity : ℤ) : PaperOrder :=
  ⟨strategyId, symbol, if 0 < netQuantity then .sell else .buy, |netQuantity|, netQuantity⟩

/-- A pipeline of the worker, for the one symbol whose ticks it is given. -/
structure WorkerPipeline where
  strategyId : StrategyId
  generator : PositionState
  state : SymbolState

/-- An order of the stop-loss rule is decided on what the generator takes to be held. -/
def WorkerPipeline.order (pipeline : WorkerPipeline) (signal : TradeSignal) : PaperOrder :=
  { strategyId := pipeline.strategyId
    symbol := signal.symbol
    side := signal.side
    quantity := signal.quantity
    basis := match signal.side with | .buy => 0 | .sell => signal.quantity }

/-- The ledger in the order of its commits, the worker's pipelines, and what the daily jobs, the
close requests and the tick listener have read or decided and not yet done. -/
structure PaperBook where
  rows : List PaperRow
  pipelines : String → Option WorkerPipeline
  reads : List DailyRead
  orders : List PaperOrder

inductive BookEvent
  | dailyRead (strategyId : StrategyId) (strategy : Strategy)
  | dailyDecide (read : DailyRead) (outcome : BacktestOutcome) (shares : Option ℤ)
  | closePosition (strategyId : StrategyId) (symbol : String)
  | syncPipeline (strategyId : StrategyId) (strategy : Strategy)
  | dropPipeline (symbol : String)
  | tick (symbol : String) (price : ℚ) (gate : RiskGate)
  | execute (order : PaperOrder) (quote : Option Quote) (commit : Commit)
  | abandon (order : PaperOrder)

theorem isFillOf_executePaperTrade {signal : TradeSignal} {quote : Option Quote} {commit : Commit}
    {t : PaperTrade} (h : (executePaperTrade quote commit signal).1 = some t) :
    t.IsFillOf signal := by
  simp only [executePaperTrade] at h
  split at h
  · cases h
  · split at h
    · cases h
    · split_ifs at h
      cases commit with
      | failed => cases h
      | refreshFailed | done =>
        obtain rfl := Option.some.inj h
        exact ⟨rfl, rfl⟩

theorem filledQuantity_executePaperTrade {signal : TradeSignal} (hquantity : 0 < signal.quantity)
    {quote : Option Quote} {commit : Commit} {t : PaperTrade}
    (h : (executePaperTrade quote commit signal).1 = some t) :
    0 ≤ t.filledQuantity ∧ t.filledQuantity ≤ signal.quantity := by
  by_cases hnone : quote = none ∨ commit = .failed
  · rw [executePaperTrade_none hnone] at h
    cases h
  · obtain ⟨hquote, hcommit⟩ := not_or.mp hnone
    obtain ⟨quote, rfl⟩ := Option.ne_none_iff_exists'.mp hquote
    have hfilled := (executePaperTrade_row hquantity hcommit _ h).2
    rw [Option.elim_some] at hfilled
    rw [hfilled]
    exact ⟨le_min hquantity.le (usableDepth_nonneg _), min_le_left _ _⟩

namespace PaperBook

def begin : PaperBook := ⟨[], fun _ ↦ none, [], []⟩

def ledger (s : PaperBook) (strategyId : StrategyId) : List PaperTrade :=
  (s.rows.filter (·.strategyId = strategyId)).map PaperRow.trade

def net (s : PaperBook) (strategyId : StrategyId) (symbol : String) : ℤ :=
  netQuantity (s.ledger strategyId) symbol

/-- The size computed for the last entry: what its order asked for. -/
def entrySize (s : PaperBook) (strategyId : StrategyId) (symbol : String) : ℤ :=
  (s.rows.filter fun r ↦ r.strategyId = strategyId ∧ r.trade.symbol = symbol ∧ r.trade.side = .buy)
    |>.getLast?.elim 0 PaperRow.requestedQuantity

/-- The symbol of an equity strategy, `universe[0]`. -/
def tradedSymbol (strategy : Strategy) : Option String :=
  if strategy.assetClass = "F&O" then none else strategy.universeSymbols.head?

/-- `handle_tick` up to the execution. -/
def handleTick (s : PaperBook) (symbol : String) (price : ℚ) (gate : RiskGate) : PaperBook :=
  match s.pipelines symbol with
  | none => s
  | some pipeline =>
    let state := pipeline.state.update price
    let (generator, signal) := pipeline.generator.signalGenerator state
    let pipeline' := { pipeline with generator := generator, state := state }
    let s' := { s with pipelines := Function.update s.pipelines symbol (some pipeline') }
    match signal with
    | .error _ => s'
    | .ok none => s'
    | .ok (some signal) =>
      match runRiskChecks gate signal with
      | .error _ => s'
      | .ok () => { s' with orders := pipeline.order signal :: s.orders }

/-- Each event is one read of the ledger with what is decided on it at once, or one trade booked.
Which strategies a cycle or a sync finds, when a pipeline is dropped (its strategy has left
`PaperTrading`, the market has closed, the worker has restarted) and which order fails on its way
are left to the events. -/
def step (s : PaperBook) : BookEvent → Option PaperBook
  | .dailyRead strategyId strategy =>
    match tradedSymbol strategy with
    | none => none
    | some symbol =>
      some { s with reads := ⟨strategyId, symbol, s.net strategyId symbol⟩ :: s.reads }
  | .dailyDecide read outcome shares =>
    if read ∈ s.reads then
      match read.decide outcome shares with
      | .error _ => some { s with reads := s.reads.erase read }
      | .ok order => some { s with reads := s.reads.erase read, orders := order :: s.orders }
    else none
  | .closePosition strategyId symbol =>
    if s.net strategyId symbol = 0 then some s
    else
      some
        { s with orders := closeOrder strategyId symbol (s.net strategyId symbol) :: s.orders }
  | .syncPipeline strategyId strategy =>
    match tradedSymbol strategy with
    | none => some s
    | some symbol =>
      if (s.pipelines symbol).isSome then some s
      else
        let trades := s.ledger strategyId
        let pipeline := (StopLossPipeline.start trades symbol strategy.maxDrawdownLimit).map
          fun p ↦ ⟨strategyId, p.generator, ⟨[]⟩⟩
        some { s with pipelines := Function.update s.pipelines symbol pipeline }
  | .dropPipeline symbol =>
    some { s with pipelines := Function.update s.pipelines symbol none }
  | .tick symbol price gate => some (s.handleTick symbol price gate)
  | .execute order quote commit =>
    if order ∈ s.orders then
      let rows := (executePaperTrade quote commit order.signal).1.toList.map fun trade ↦
        (⟨order.strategyId, order.quantity, trade⟩ : PaperRow)
      some { s with rows := s.rows ++ rows, orders := s.orders.erase order }
    else none
  | .abandon order =>
    if order ∈ s.orders then some { s with orders := s.orders.erase order } else none

variable (s : PaperBook) (row : PaperRow) (strategyId : StrategyId) (symbol : String)

theorem net_book : ({ s with rows := s.rows ++ [row] } : PaperBook).net strategyId symbol =
    s.net strategyId symbol +
      if row.strategyId = strategyId ∧ row.trade.symbol = symbol then row.trade.signedQuantity
      else 0 := by
  by_cases hid : row.strategyId = strategyId
  · simp only [net, ledger, List.filter_append, List.map_append, hid, decide_true,
      List.filter_cons_of_pos, List.filter_nil, List.map_cons, List.map_nil, netQuantity_append,
      true_and]
  · simp only [net, ledger, List.filter_append, hid, decide_false, Bool.false_eq_true,
      not_false_eq_true, List.filter_cons_of_neg, List.filter_nil, List.append_nil, false_and,
      if_false, add_zero]

theorem entrySize_book : ({ s with rows := s.rows ++ [row] } : PaperBook).entrySize strategyId symbol =
    if row.strategyId = strategyId ∧ row.trade.symbol = symbol ∧ row.trade.side = .buy then
      row.requestedQuantity
    else s.entrySize strategyId symbol := by
  simp only [entrySize, List.filter_append]
  split_ifs with h
  · rw [List.filter_cons_of_pos (by simpa using h), List.filter_nil, List.getLast?_append]
    rfl
  · rw [List.filter_cons_of_neg (by simpa using h), List.filter_nil, List.append_nil]

end PaperBook

end TradingOS.PaperTrading
