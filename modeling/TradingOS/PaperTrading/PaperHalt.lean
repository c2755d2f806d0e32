import Mathlib.Data.Fintype.Basic
import TradingOS.PaperTrading.DailyCapital
import TradingOS.Risk.KillSwitch

namespace TradingOS.PaperTrading

open Lib Lib.Runs Risk

/-- The two switches as one process has them in memory. -/
structure KillSwitches where
  production : MaxDrawdownKillSwitch
  paper : MaxDrawdownKillSwitch
  deriving DecidableEq

namespace KillSwitches

def init : KillSwitches := ⟨.init, .init⟩

variable (switches : KillSwitches)

def isPaperTradingHalted : Bool := switches.paper.triggered || switches.production.triggered

def updateAndCheck (equity : ℚ) : KillSwitches × Bool :=
  let switches := { switches with paper := switches.paper.update equity }
  (switches, !switches.isPaperTradingHalted)

end KillSwitches

/-- The API that runs the scheduler, the one that does not, and the paper-trading worker. -/
inductive Process
  | app | appTls | worker
  deriving DecidableEq

/-- The processes that serve requests. -/
inductive Api
  | app | appTls
  deriving DecidableEq

def Api.process : Api → Process
  | .app => .app
  | .appTls => .appTls

inductive Switch
  | production (process : Process)
  | paper (process : Process)
  deriving DecidableEq

instance : Fintype Switch where
  elems := {.production .app, .production .appTls, .production .worker, .paper .app,
    .paper .appTls, .paper .worker}
  complete := by rintro ((_ | _ | _) | (_ | _ | _)) <;> decide

/-- The switches of all processes. -/
structure Switchboard where
  app : KillSwitches
  appTls : KillSwitches
  worker : KillSwitches
  deriving DecidableEq

namespace Switchboard

def init : Switchboard := ⟨.init, .init, .init⟩

variable (board : Switchboard)

def of : Process → KillSwitches
  | .app => board.app
  | .appTls => board.appTls
  | .worker => board.worker

def update (f : KillSwitches → KillSwitches) : Process → Switchboard
  | .app => { board with app := f board.app }
  | .appTls => { board with appTls := f board.appTls }
  | .worker => { board with worker := f board.worker }

def triggered : Switch → Bool
  | .production process => (board.of process).production.triggered
  | .paper process => (board.of process).paper.triggered

/-- A switch of some process is set. -/
def Halted : Prop := ∃ switch, board.triggered switch

instance : Decidable board.Halted := inferInstanceAs (Decidable (∃ _, _))

/-- No switch is set that was not set before. -/
def SetsNone (before : Switchboard) : Prop :=
  ∀ switch, board.triggered switch → before.triggered switch

instance (before : Switchboard) : Decidable (board.SetsNone before) :=
  inferInstanceAs (Decidable (∀ _, _))

end Switchboard

/-- Who starts a trade: a request, a run of the daily cycle, or a tick. -/
inductive TradePath
  | execute
  | orders (api : Api)
  | dailyCycle (run : ℕ)
  | tick
  deriving DecidableEq

/-- The switches that a path checks. -/
def TradePath.looksAt : TradePath → Switch → Bool
  | .orders api, .production process => process = api.process
  | .dailyCycle _, .production process | .dailyCycle _, .paper process => process = .app
  | .tick, .paper process => process = .worker
  | _, _ => false

/-- The switches at some time, and how often one had been set until then. -/
structure Moment where
  board : Switchboard
  sets : ℕ
  deriving DecidableEq

/-- A call of `execute_paper_trade`, with the moment of its check and that of its start. -/
structure StartedTrade where
  path : TradePath
  strategyId : Option StrategyId
  instrumentType : InstrumentType
  signal : TradeSignal
  check : Moment
  start : Moment
  deriving DecidableEq

/-- A call of `POST /orders` that has passed its check. -/
structure OrderCall where
  api : Api
  strategyId : StrategyId
  signal : TradeSignal
  check : Moment
  deriving DecidableEq

/-- A run of the daily cycle that has passed its check: what it has still to do, and the trades of
the strategy that it is at. -/
structure CycleRun where
  jobs : List CycleJob
  existingTrades : Option (List PaperTrade)
  check : Moment

structure AccountRow where
  strategyId : Option StrategyId
  trade : PaperTrade

/-- The processes, and the ledger between them. The scheduler may run a cycle by hand beside the
one that is due. -/
structure PaperTradingSystem where
  board : Switchboard
  sets : ℕ
  rows : List AccountRow
  calls : List OrderCall
  cycles : Table ℕ CycleRun
  pipelines : String → Option WorkerPipeline
  started : List StartedTrade

inductive HaltEvent
  | trip (api : Api)
  | reset (api : Api)
  | resetPaper (api : Api)
  | dailyCycle (run : ℕ) (strategies : List (StrategyId × Strategy)) (equity : ℚ)
  | readTrades (run : ℕ)
  | equity (run : ℕ) (outcome : BacktestOutcome) (shares : Option ℤ)
  | options (run : ℕ) (outcome : BacktestOutcome) (legs : List OptionLeg)
  | leg (run : ℕ)
  | skipped (run : ℕ)
  | execute (strategyId : Option StrategyId) (signal : TradeSignal)
  | order (api : Api) (strategyId : StrategyId) (signal : TradeSignal)
  | orderStarts (call : OrderCall)
  | orderFails (call : OrderCall)
  | syncPipeline (strategyId : StrategyId) (strategy : Strategy)
  | dropPipeline (symbol : String)
  | tick (symbol : String) (price : ℚ)
  | fill (trade : StartedTrade) (quote : Option Quote) (commit : Commit)

/-- The row of a started trade. -/
def StartedTrade.fill (trade : StartedTrade) (quote : Option Quote) (commit : Commit) :
    Option AccountRow :=
  (executePaperTrade quote commit trade.signal).1.map fun row ↦
    ⟨trade.strategyId, { row with instrumentType := trade.instrumentType }⟩

namespace PaperTradingSystem

def begin (rows : List AccountRow) : PaperTradingSystem :=
  ⟨.init, 0, rows, [], .empty, fun _ ↦ none, []⟩

variable (s : PaperTradingSystem)

def now : Moment := ⟨s.board, s.sets⟩

def ledger (strategyId : StrategyId) : List PaperTrade :=
  (s.rows.filter (·.strategyId = some strategyId)).map AccountRow.trade

/-- The position of the account. -/
def position (symbol : String) : ℤ := netQuantity (s.rows.map AccountRow.trade) symbol

/-- A cycle and the listener each wait for their trade. -/
def Idle (path : TradePath) : Prop := ∀ trade ∈ s.started, trade.path ≠ path

instance (path : TradePath) : Decidable (s.Idle path) := List.decidableBAll _ _

def turn (board : Switchboard) : PaperTradingSystem :=
  { s with board := board, sets := s.sets + if board.SetsNone s.board then 0 else 1 }

def start (path : TradePath) (strategyId : Option StrategyId) (instrumentType : InstrumentType)
    (signal : TradeSignal) (check : Moment) : PaperTradingSystem :=
  { s with started := ⟨path, strategyId, instrumentType, signal, check, s.now⟩ :: s.started }

def goOn (run : ℕ) (jobs : List CycleJob) (check : Moment) : PaperTradingSystem :=
  { s with cycles := s.cycles.put run ⟨jobs, none, check⟩ }

/-- `handle_tick` up to the execution, in the worker's loop. -/
def handleTick (symbol : String) (price : ℚ) : PaperTradingSystem :=
  match s.pipelines symbol with
  | none => s
  | some pipeline =>
    let state := pipeline.state.update price
    let (generator, signal) := pipeline.generator.signalGenerator state
    let pipeline' := { pipeline with generator := generator, state := state }
    let s' := { s with pipelines := Function.update s.pipelines symbol (some pipeline') }
    match signal with
    | .error _ => s'
    | .ok none => s'
    | .ok (some signal) =>
      match runRiskChecks ⟨s.board.worker.paper.triggered, none, []⟩ signal with
      | .error _ => s'
      | .ok () => s'.start .tick (some pipeline.strategyId) .equity signal s.now

def step (s : PaperTradingSystem) : HaltEvent → Option PaperTradingSystem
  | .trip api => some (s.turn (s.board.update
      (fun switches ↦ { switches with production := switches.production.trip }) api.process))
  | .reset api => some (s.turn (s.board.update
      (fun switches ↦ { switches with production := switches.production.reset }) api.process))
  | .resetPaper api => some (s.turn (s.board.update
      (fun switches ↦ { switches with paper := switches.paper.reset }) api.process))
  | .dailyCycle run strategies equity =>
    match s.cycles.get? run with
    | some _ => none
    | none =>
      if strategies = [] then some s
      else
        let (switches, proceeds) := s.board.app.updateAndCheck equity
        let s' := s.turn (s.board.update (fun _ ↦ switches) .app)
        if proceeds then
          some (s'.goOn run (strategies.map fun s ↦ .strategy s.1 s.2) s'.now)
        else some s'
  | .readTrades run =>
    match s.cycles.get? run with
    | some ⟨.strategy strategyId strategy :: jobs, none, check⟩ =>
      if ¬ s.Idle (.dailyCycle run) then none
      else
        let cycle : CycleRun :=
          ⟨.strategy strategyId strategy :: jobs, some (s.ledger strategyId), check⟩
        some { s with cycles := s.cycles.put run cycle }
    | _ => none
  | .equity run outcome shares =>
    match s.cycles.get? run with
    | some ⟨.strategy strategyId strategy :: jobs, some existingTrades, check⟩ =>
      match PaperBook.tradedSymbol strategy with
      | none => none
      | some symbol =>
        let read : DailyRead := ⟨strategyId, symbol, netQuantity existingTrades symbol⟩
        match read.decide outcome shares with
        | .error _ => some (s.goOn run jobs check)
        | .ok order =>
          some ((s.goOn run jobs check).start (.dailyCycle run) (some strategyId) .equity
            order.signal check)
    | _ => none
  | .options run outcome legs =>
    match s.cycles.get? run with
    | some ⟨.strategy strategyId strategy :: jobs, some existingTrades, check⟩ =>
      if strategy.assetClass ≠ "F&O" then none
      else
        let orders := legOrders strategyId (netQuantity existingTrades) outcome legs
        some (s.goOn run (orders.map .leg ++ jobs) check)
    | _ => none
  | .leg run =>
    match s.cycles.get? run with
    | some ⟨.leg order :: jobs, _, check⟩ =>
      if ¬ s.Idle (.dailyCycle run) then none
      else
        some ((s.goOn run jobs check).start (.dailyCycle run) (some order.strategyId)
          order.optionType ⟨order.symbol, order.side, order.quantity, 0⟩ check)
    | _ => none
  | .skipped run =>
    match s.cycles.get? run with
    | some ⟨_ :: jobs, _, check⟩ =>
      if s.Idle (.dailyCycle run) then some (s.goOn run jobs check) else none
    | _ => none
  | .execute strategyId signal => some (s.start .execute strategyId .equity signal s.now)
  | .order api strategyId signal =>
    if (s.board.of api.process).production.triggered then some s
    else some { s with calls := ⟨api, strategyId, signal, s.now⟩ :: s.calls }
  | .orderStarts call =>
    if call ∈ s.calls then
      some (start { s with calls := s.calls.erase call } (.orders call.api) (some call.strategyId)
        .equity call.signal call.check)
    else none
  | .orderFails call =>
    if call ∈ s.calls then some { s with calls := s.calls.erase call } else none
  | .syncPipeline strategyId strategy =>
    match PaperBook.tradedSymbol strategy with
    | none => some s
    | some symbol =>
      if (s.pipelines symbol).isSome then some s
      else
        let pipeline :=
          (StopLossPipeline.start (s.ledger strategyId) symbol strategy.maxDrawdownLimit).map
            fun p ↦ (⟨strategyId, p.generator, ⟨[]⟩⟩ : WorkerPipeline)
        some { s with pipelines := Function.update s.pipelines symbol pipeline }
  | .dropPipeline symbol =>
    some { s with pipelines := Function.update s.pipelines symbol none }
  | .tick symbol price => if s.Idle .tick then some (s.handleTick symbol price) else none
  | .fill trade quote commit =>
    if trade ∈ s.started then
      some
        { s with
          rows := s.rows ++ (trade.fill quote commit).toList
          started := s.started.erase trade }
    else none

end PaperTradingSystem

/-- The fill leaves more on its own side than nothing. -/
def PaperTrade.Opens (t : PaperTrade) (net : ℤ) : Prop :=
  0 < t.filledQuantity ∧
    if t.side = .buy then 0 < net + t.signedQuantity else net + t.signedQuantity < 0

instance (t : PaperTrade) (net : ℤ) : Decidable (t.Opens net) :=
  inferInstanceAs (Decidable (_ ∧ _))

/-- What the depth has for the order, when the quote comes and the row is written. -/
def TradeSignal.fillable (signal : TradeSignal) (quote : Option Quote) (commit : Commit) : ℤ :=
  if commit = .failed ∨ signal.quantity ≤ 0 then 0
  else quote.elim 0 fun quote ↦ min signal.quantity (usableDepth (quote.depth signal.side))

def TradeSignal.Opens (signal : TradeSignal) (net filled : ℤ) : Prop :=
  0 < filled ∧ if signal.side = .buy then 0 < net + filled else net < filled

namespace StartedTrade

variable (trade : StartedTrade)

/-- The row is the order's, with what there is to fill it. -/
theorem fill_opens_iff (quote : Option Quote) (commit : Commit) (net : String → ℤ) :
    (∃ row, trade.fill quote commit = some row ∧ row.trade.Opens (net row.trade.symbol)) ↔
      trade.signal.Opens (net trade.signal.symbol) (trade.signal.fillable quote commit) := by
  have hnone : (executePaperTrade quote commit trade.signal).1 = none →
      trade.signal.fillable quote commit = 0 →
        ((∃ row, trade.fill quote commit = some row ∧ row.trade.Opens (net row.trade.symbol)) ↔
          trade.signal.Opens (net trade.signal.symbol) (trade.signal.fillable quote commit)) := by
    intro hexecute hfillable
    rw [fill, hexecute, hfillable]
    refine iff_of_false ?_ fun h ↦ lt_irrefl 0 h.1
    rintro ⟨_, hrow, -⟩
    cases hrow
  by_cases hcommit : commit = .failed
  · exact hnone (executePaperTrade_none (.inr hcommit)) (if_pos (.inl hcommit))
  by_cases hquantity : trade.signal.quantity ≤ 0
  · refine hnone ?_ (if_pos (.inr hquantity))
    cases quote with
    | none => rfl
    | some quote => simp only [executePaperTrade, simulateFill, hquantity, if_true]
  cases quote with
  | none => exact hnone rfl (if_neg (not_or.mpr ⟨hcommit, hquantity⟩))
  | some quote =>
    obtain ⟨hfills, hfilled⟩ := executePaperTrade_row (not_le.mp hquantity) hcommit _ rfl
    have hfillable : trade.signal.fillable (some quote) commit =
        min trade.signal.quantity (usableDepth (quote.depth trade.signal.side)) :=
      if_neg (not_or.mpr ⟨hcommit, hquantity⟩)
    cases hexecute : (executePaperTrade (some quote) commit trade.signal).1 with
    | none =>
      refine hnone hexecute ?_
      rw [hfillable, ← hfilled, hexecute]
      rfl
    | some row =>
      rw [hexecute] at hfills hfilled
      obtain ⟨hsymbol, hside⟩ := hfills row rfl
      rw [fill, hexecute, hfillable, ← hfilled]
      simp only [Option.map_some, Option.some.injEq, exists_eq_left', PaperTrade.Opens,
        TradeSignal.Opens, PaperTrade.signedQuantity, hsymbol, hside, Option.elim_some]
      cases trade.signal.side with
      | buy => rfl
      | sell => simp only [reduceCtorEq, if_false, ← sub_eq_add_neg, sub_neg]

/-- No switch was set at the check that the check does not look at, and none has been set since. -/
def Overseen : Prop :=
  (∀ switch, trade.path.looksAt switch = false → trade.check.board.triggered switch = false) ∧
    trade.check.sets = trade.start.sets

end StartedTrade

namespace Moment

/-- The later moment, if no switch has been set in between, has none set that the earlier had not. -/
structure Before (check later : Moment) : Prop where
  sets : check.sets ≤ later.sets
  same : check.sets = later.sets → later.board.SetsNone check.board

/-- The path's check was passed at the moment. -/
def Passes (check : Moment) (path : TradePath) : Prop :=
  ∀ switch, path.looksAt switch → check.board.triggered switch = false

theorem Before.refl (check : Moment) : check.Before check := ⟨le_rfl, fun _ _ ↦ id⟩

theorem Before.trans {m m' m'' : Moment} (h : m.Before m') (h' : m'.Before m'') : m.Before m'' where
  sets := h.sets.trans h'.sets
  same heq switch hswitch := by
    have hsets := h.sets
    have hsets' := h'.sets
    exact h.same (by omega) switch (h'.same (by omega) switch hswitch)

end Moment

namespace PaperTradingSystem

variable {s t : PaperTradingSystem} {e : HaltEvent}

/-- No trade that was started under a set switch opens or increases a position. -/
def Halts (s : PaperTradingSystem) : HaltEvent → PaperTradingSystem → Prop
  | .fill trade quote commit, _ => ∀ row, trade.fill quote commit = some row →
    row.trade.Opens (s.position row.trade.symbol) → ¬ trade.start.board.Halted
  | _, _ => True

/-- An order that the depth lets open or increase a position was overseen from its check on. -/
def Oversees (s : PaperTradingSystem) : HaltEvent → PaperTradingSystem → Prop
  | .fill trade quote commit, _ =>
    trade.signal.Opens (s.position trade.signal.symbol) (trade.signal.fillable quote commit) →
      trade.Overseen
  | _, _ => True

/-- Whatever is under way has passed its check, at a moment before now. -/
structure Inv (s : PaperTradingSystem) : Prop where
  calls : ∀ call ∈ s.calls, call.check.Passes (.orders call.api) ∧ call.check.Before s.now
  cycles : ∀ run cycle, s.cycles.get? run = some cycle →
    cycle.check.Passes (.dailyCycle run) ∧ cycle.check.Before s.now
  started : ∀ trade ∈ s.started, trade.check.Passes trade.path ∧ trade.check.Before trade.start

theorem inv_begin (rows : List AccountRow) : (begin rows).Inv :=
  ⟨fun _ h ↦ absurd h List.not_mem_nil, fun _ _ h ↦ (Option.some_ne_none _ h.symm).elim,
    fun _ h ↦ absurd h List.not_mem_nil⟩

theorem before_turn (s : PaperTradingSystem) (board : Switchboard) :
    s.now.Before (s.turn board).now := by
  refine ⟨Nat.le_add_right _ _, fun heq ↦ ?_⟩
  by_cases hnone : board.SetsNone s.board
  · exact hnone
  · simp only [now, turn, if_neg hnone] at heq
    omega

theorem Inv.turn (h : s.Inv) (board : Switchboard) : (s.turn board).Inv where
  calls call hcall := (h.calls call hcall).imp_right (·.trans (s.before_turn board))
  cycles run cycle hcycle := (h.cycles run cycle hcycle).imp_right (·.trans (s.before_turn board))
  started := h.started

theorem Inv.start (h : s.Inv) {path : TradePath} {strategyId : Option StrategyId}
    {instrumentType : InstrumentType} {signal : TradeSignal} {check : Moment}
    (hcheck : check.Passes path ∧ check.Before s.now) :
    (s.start path strategyId instrumentType signal check).Inv := by
  refine ⟨h.calls, h.cycles, fun trade htrade ↦ ?_⟩
  rcases List.mem_cons.mp htrade with rfl | htrade
  · exact hcheck
  · exact h.started trade htrade

theorem Inv.putCycle (h : s.Inv) {run : ℕ} {cycle : CycleRun}
    (hcheck : cycle.check.Passes (.dailyCycle run) ∧ cycle.check.Before s.now) :
    Inv { s with cycles := s.cycles.put run cycle } := by
  refine ⟨h.calls, fun run' cycle' hcycle ↦ ?_, h.started⟩
  rw [Table.get?_put] at hcycle
  split at hcycle
  · next hrun =>
    obtain rfl := Option.some.inj hcycle
    exact hrun ▸ hcheck
  · exact h.cycles run' cycle' hcycle

/-- A cycle under way keeps the check that it began with. -/
theorem Inv.goOn (h : s.Inv) {run : ℕ} {cycle : CycleRun} (hcycle : s.cycles.get? run = some cycle)
    (jobs : List CycleJob) : (s.goOn run jobs cycle.check).Inv :=
  h.putCycle (h.cycles run cycle hcycle)

theorem Inv.goOn_start (h : s.Inv) {run : ℕ} {cycle : CycleRun}
    (hcycle : s.cycles.get? run = some cycle) {jobs : List CycleJob}
    {strategyId : Option StrategyId} {instrumentType : InstrumentType} {signal : TradeSignal} :
    Inv ((s.goOn run jobs cycle.check).start (.dailyCycle run) strategyId instrumentType signal
      cycle.check) :=
  (h.goOn hcycle jobs).start (h.cycles run cycle hcycle)

theorem Inv.eraseCall (h : s.Inv) (call : OrderCall) :
    Inv { s with calls := s.calls.erase call } where
  calls call' hcall := h.calls call' (List.mem_of_mem_erase hcall)
  cycles := h.cycles
  started := h.started

theorem Inv.setPipelines (h : s.Inv) (pipelines : String → Option WorkerPipeline) :
    Inv { s with pipelines := pipelines } :=
  ⟨h.calls, h.cycles, h.started⟩

/-- A tick's checks look at the worker's paper switch. -/
theorem passes_tick {gate : RiskGate} {signal : TradeSignal}
    (hgate : gate.killSwitchTriggered = s.board.worker.paper.triggered)
    (h : runRiskChecks gate signal = .ok ()) : s.now.Passes .tick := by
  have hclear : s.board.worker.paper.triggered = false := by
    rw [← hgate]
    by_contra htriggered
    rw [runRiskChecks, if_pos (Bool.eq_true_of_not_eq_false htriggered)] at h
    cases h
  intro switch hswitch
  cases switch with
  | production process => cases hswitch
  | paper process =>
    obtain rfl := of_decide_eq_true hswitch
    exact hclear

/-- A cycle's check looks at both switches of its process. -/
theorem passes_dailyCycle {run : ℕ} {m : Moment}
    (h : m.board.app.isPaperTradingHalted = false) : m.Passes (.dailyCycle run) := by
  obtain ⟨hpaper, hproduction⟩ := Bool.or_eq_false_iff.mp h
  intro switch hswitch
  cases switch with
  | production process =>
    obtain rfl := of_decide_eq_true hswitch
    exact hproduction
  | paper process =>
    obtain rfl := of_decide_eq_true hswitch
    exact hpaper

theorem Inv.handleTick (h : s.Inv) (symbol : String) (price : ℚ) :
    (s.handleTick symbol price).Inv := by
  simp only [PaperTradingSystem.handleTick]
  split
  · exact h
  · split
    · exact h.setPipelines _
    · exact h.setPipelines _
    · split
      · exact h.setPipelines _
      · next hchecks => exact (h.setPipelines _).start ⟨passes_tick rfl hchecks, .refl _⟩

/-- A cycle that goes on has seen both switches of its process clear. -/
theorem Inv.dailyCycle (h : s.Inv) {run : ℕ} {strategies : List (StrategyId × Strategy)}
    {equity : ℚ} (hstep : s.step (.dailyCycle run strategies equity) = some t) : t.Inv := by
  simp only [step] at hstep
  split at hstep
  · cases hstep
  split_ifs at hstep with hnil hproceeds
  · obtain rfl := Option.some.inj hstep
    exact h
  · obtain rfl := Option.some.inj hstep
    refine (h.turn _).putCycle ⟨passes_dailyCycle ?_, .refl _⟩
    exact Bool.not_eq_true' _ ▸ hproceeds
  · obtain rfl := Option.some.inj hstep
    exact h.turn _

theorem Inv.equity (h : s.Inv) {run : ℕ} {outcome : BacktestOutcome} {shares : Option ℤ}
    (hstep : s.step (.equity run outcome shares) = some t) : t.Inv := by
  simp only [step] at hstep
  split at hstep
  · next hcycle =>
    split at hstep
    · cases hstep
    · split at hstep
      all_goals obtain rfl := Option.some.inj hstep
      · exact h.goOn hcycle _
      · exact h.goOn_start hcycle
  · cases hstep

/-- `POST /orders` looks at the production switch of the process that serves it. -/
theorem Inv.order (h : s.Inv) {api : Api} {strategyId : StrategyId} {signal : TradeSignal}
    (hstep : s.step (.order api strategyId signal) = some t) : t.Inv := by
  simp only [step] at hstep
  split_ifs at hstep with hproduction
  all_goals obtain rfl := Option.some.inj hstep
  · exact h
  · refine ⟨fun call hcall ↦ ?_, h.cycles, h.started⟩
    rcases List.mem_cons.mp hcall with rfl | hcall
    · refine ⟨fun switch hswitch ↦ ?_, .refl _⟩
      cases switch with
      | production process =>
        obtain rfl := of_decide_eq_true hswitch
        exact Bool.eq_false_of_not_eq_true hproduction
      | paper process => cases hswitch
    · exact h.calls call hcall

theorem Inv.syncPipeline (h : s.Inv) {strategyId : StrategyId} {strategy : Strategy}
    (hstep : s.step (.syncPipeline strategyId strategy) = some t) : t.Inv := by
  simp only [step] at hstep
  split at hstep
  · obtain rfl := Option.some.inj hstep
    exact h
  · split_ifs at hstep
    all_goals obtain rfl := Option.some.inj hstep
    · exact h
    · exact h.setPipelines _

theorem step_inv (h : s.Inv) (hstep : s.step e = some t) : t.Inv := by
  cases e with
  | trip api | reset api | resetPaper api =>
    obtain rfl := Option.some.inj hstep
    exact h.turn _
  | dailyCycle run strategies equity => exact h.dailyCycle hstep
  | readTrades run =>
    simp only [step] at hstep
    split at hstep
    · next hcycle =>
      split_ifs at hstep
      obtain rfl := Option.some.inj hstep
      have hcheck := h.cycles run _ hcycle
      exact h.putCycle hcheck
    · cases hstep
  | equity run outcome shares => exact h.equity hstep
  | options run outcome legs | skipped run =>
    simp only [step] at hstep
    split at hstep
    · next hcycle =>
      split_ifs at hstep
      obtain rfl := Option.some.inj hstep
      exact h.goOn hcycle _
    · cases hstep
  | leg run =>
    simp only [step] at hstep
    split at hstep
    · next hcycle =>
      split_ifs at hstep
      obtain rfl := Option.some.inj hstep
      exact h.goOn_start hcycle
    · cases hstep
  | execute strategyId signal =>
    obtain rfl := Option.some.inj hstep
    refine h.start ⟨fun switch hswitch ↦ ?_, .refl _⟩
    cases switch <;> cases hswitch
  | order api strategyId signal => exact h.order hstep
  | orderStarts call =>
    simp only [step] at hstep
    split_ifs at hstep with hcall
    obtain rfl := Option.some.inj hstep
    exact (h.eraseCall call).start (h.calls call hcall)
  | orderFails call =>
    simp only [step] at hstep
    split_ifs at hstep
    obtain rfl := Option.some.inj hstep
    exact h.eraseCall call
  | syncPipeline strategyId strategy => exact h.syncPipeline hstep
  | dropPipeline symbol =>
    obtain rfl := Option.some.inj hstep
    exact h.setPipelines _
  | tick symbol price =>
    simp only [step] at hstep
    split_ifs at hstep
    obtain rfl := Option.some.inj hstep
    exact h.handleTick symbol price
  | fill trade quote commit =>
    simp only [step] at hstep
    split_ifs at hstep
    obtain rfl := Option.some.inj hstep
    exact ⟨h.calls, h.cycles, fun trade' htrade ↦ h.started trade' (List.mem_of_mem_erase htrade)⟩

/-- A trade that was overseen from its check on was started while no switch was set. -/
theorem not_halted_of_overseen {trade : StartedTrade} (hpasses : trade.check.Passes trade.path)
    (hbefore : trade.check.Before trade.start) (h : trade.Overseen) :
    ¬ trade.start.board.Halted := by
  obtain ⟨hclear, hsame⟩ := h
  rintro ⟨switch, hswitch⟩
  have hset := hbefore.same hsame switch hswitch
  cases hlooks : trade.path.looksAt switch with
  | true => exact Bool.noConfusion (hset.symm.trans (hpasses switch hlooks))
  | false => exact Bool.noConfusion (hset.symm.trans (hclear switch hlooks))

/-- Halted means halted in every run in which each order that opens or increases a position was
overseen from its check on: no switch was set that the check does not look at (`POST /execute`
looks at none, `POST /orders` at the production switch of its process, a daily cycle at both of its
own, a tick at the worker's paper switch), and none was set before the trade was started. -/
theorem halts_of_overseen (rows : List AccountRow) (events : List HaltEvent)
    (h : Along step Oversees (begin rows) events) : Along step Halts (begin rows) events := by
  refine along_of_invariant (fun s e t hs hoversees hstep ↦ ⟨step_inv hs hstep, ?_⟩)
    (inv_begin rows) h
  cases e with
  | fill trade quote commit =>
    simp only [step] at hstep
    split_ifs at hstep with htrade
    obtain ⟨hpasses, hbefore⟩ := hs.started trade htrade
    intro row hrow hopens
    refine not_halted_of_overseen hpasses hbefore (hoversees ?_)
    exact (trade.fill_opens_iff quote commit s.position).mp ⟨row, hrow, hopens⟩
  | _ => trivial

/-- `POST /execute` of 10 shares, when the production switch of `app` is set or not. -/
def executed (moment : Moment) : StartedTrade :=
  ⟨.execute, none, .equity, ⟨"RELIANCE", .buy, 10, 0⟩, moment, moment⟩

def tripped : Moment := ⟨Switchboard.init.update
  (fun switches ↦ { switches with production := switches.production.trip }) .app, 1⟩

def tenAtAsk : Quote := ⟨100, [], [⟨100, 10⟩]⟩

/-- The order is filled, and then the switch is tripped. -/
theorem halts_of_overseen_tripped_later :
    Along step Halts (begin []) [.execute none (executed (begin []).now).signal,
      .fill (executed (begin []).now) (some tenAtAsk) .done, .trip .app] := by
  refine halts_of_overseen [] _ ?_
  refine (along_cons rfl).mpr ⟨trivial, ?_⟩
  refine (along_cons (if_pos List.mem_cons_self)).mpr ⟨fun _ ↦ ⟨?_, rfl⟩, ?_⟩
  · decide
  · exact (along_cons rfl).mpr ⟨trivial, trivial⟩

theorem executed_while_tripped :
    ¬ Along step Halts (begin []) [.trip .app, .execute none (executed tripped).signal,
        .fill (executed tripped) (some tenAtAsk) .done] := by
  intro h
  obtain ⟨-, h⟩ := (along_cons rfl).mp h
  obtain ⟨-, h⟩ := (along_cons rfl).mp h
  obtain ⟨hhalts, -⟩ := (along_cons (if_pos (by decide +kernel))).mp h
  exact hhalts _ (Option.some_get (by decide +kernel)).symm (by decide +kernel) (by decide)

end PaperTradingSystem

end TradingOS.PaperTrading
