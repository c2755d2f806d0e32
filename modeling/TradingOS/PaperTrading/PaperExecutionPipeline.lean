import TradingOS.PaperTrading.SlippageModel

namespace TradingOS.PaperTrading

open Lib

structure TradeSignal where
  symbol : String
  side : Side
  quantity : ℤ
  referencePrice : ℚ
  deriving DecidableEq

structure SymbolState where
  prices : List ℚ
  deriving DecidableEq

def maxHistory : ℕ := 200

/-- The deque drops its oldest price when it is full. -/
def SymbolState.update (state : SymbolState) (price : ℚ) : SymbolState :=
  ⟨(state.prices ++ [price]).drop (state.prices.length + 1 - maxHistory)⟩

theorem getLast?_update (state : SymbolState) (price : ℚ) :
    (state.update price).prices.getLast? = some price := by
  have hlength : ¬ (state.prices ++ [price]).length ≤ state.prices.length + 1 - maxHistory := by
    simp only [List.length_append, List.length_singleton, maxHistory]
    omega
  rw [SymbolState.update, List.getLast?_drop, if_neg hlength, List.getLast?_append,
    List.getLast?_singleton, Option.some_or]

inductive TickError
  | riskRejected (message : String)
  | noLiquidity (message : String)
  | valueError (message : String)
  | zeroDivision
  | broker
  | database
  deriving DecidableEq

/-- The two durations as Python prints them. -/
structure LatencyGuard where
  paused : Bool
  lastLatencySeconds : String
  thresholdSeconds : String
  deriving DecidableEq

/-- A pre-trade check gives the message of the rejection it raises. -/
structure RiskGate where
  killSwitchTriggered : Bool
  latencyGuard : Option LatencyGuard
  preTradeChecks : List (TradeSignal → Option String)

def runRiskChecks (gate : RiskGate) (signal : TradeSignal) : Except TickError Unit :=
  if gate.killSwitchTriggered then
    .error (.riskRejected s!"Kill switch is triggered -- rejecting signal for {signal.symbol}")
  else
    match gate.latencyGuard with
    | some ⟨true, last, threshold⟩ =>
      .error (.riskRejected
        (s!"WebSocket latency guard is paused ({last}s > {threshold}s threshold)" ++
          s!" -- rejecting signal for {signal.symbol} until the feed is synced"))
    | _ =>
      match gate.preTradeChecks.findSome? fun check ↦ check signal with
      | some message => .error (.riskRejected message)
      | none => .ok ()

structure Quote where
  lastPrice : ℚ
  buyDepth : List DepthLevel
  sellDepth : List DepthLevel
  deriving DecidableEq

def Quote.depth (quote : Quote) : Side → List DepthLevel
  | .buy => quote.sellDepth
  | .sell => quote.buyDepth

/-- What the `fill_price` column, a `Numeric(12, 2)`, keeps. -/
def columnPrice (price : ℚ) : ℚ := roundHalfAway (price * 100) / 100

/-- How the session of `execute_paper_trade` ends; `refresh` comes after `commit`. -/
inductive Commit
  | failed | refreshFailed | done
  deriving DecidableEq

/-- The trade row, when one is written, and what the caller gets. -/
def executePaperTrade (quote : Option Quote) (commit : Commit) (signal : TradeSignal) :
    Option PaperTrade × Except TickError PaperTrade :=
  match quote with
  | none => (none, .error .broker)
  | some quote =>
    match simulateFill signal.side signal.quantity (quote.depth signal.side) with
    | .error message => (none, .error (.valueError message))
    | .ok result =>
      if result.filledQuantity = 0 then
        let depthSide := match signal.side with | .buy => "ask" | .sell => "bid"
        (none, .error (.noLiquidity
          s!"No usable {depthSide} depth for {signal.symbol} -- nothing to fill"))
      else
        let trade : PaperTrade :=
          { symbol := signal.symbol
            instrumentType := .equity
            side := signal.side
            filledQuantity := result.filledQuantity
            fillPrice := columnPrice (result.averageFillPrice.getD 0) }
        match commit with
        | .failed => (none, .error .database)
        | .refreshFailed => (some trade, .error .database)
        | .done => (some trade, .ok trade)

structure TickEvent where
  symbol : String
  price : ℚ
  gate : RiskGate
  quote : Option Quote
  commit : Commit

/-- A pipeline over a signal generator with state `γ`, and the trades its strategy has on
record. -/
structure PaperExecutionPipeline (γ : Type) where
  generator : γ
  states : Table String SymbolState
  trades : List PaperTrade

namespace PaperExecutionPipeline

variable {γ : Type} (generate : γ → SymbolState → γ × Except TickError (Option TradeSignal))
  (p : PaperExecutionPipeline γ)

def stateFor (symbol : String) : SymbolState := (p.states.get? symbol).getD ⟨[]⟩

def handleTick (event : TickEvent) :
    PaperExecutionPipeline γ × Except TickError (Option PaperTrade) :=
  let state := (p.stateFor event.symbol).update event.price
  let (generator, signal) := generate p.generator state
  let p' : PaperExecutionPipeline γ :=
    { generator := generator
      states := (p.states.setdefault event.symbol ⟨[]⟩).modify event.symbol fun _ ↦ state
      trades := p.trades }
  match signal with
  | .error e => (p', .error e)
  | .ok none => (p', .ok none)
  | .ok (some signal) =>
    match runRiskChecks event.gate signal with
    | .error e => (p', .error e)
    | .ok () =>
      let (row, result) := executePaperTrade event.quote event.commit signal
      ({ p' with trades := p.trades ++ row.toList }, result.map some)

def step (event : TickEvent) : Option (PaperExecutionPipeline γ) :=
  some (p.handleTick generate event).1

end PaperExecutionPipeline

def TickEvent.row (event : TickEvent) (signal : TradeSignal) : Option PaperTrade :=
  match runRiskChecks event.gate signal with
  | .error _ => none
  | .ok () => (executePaperTrade event.quote event.commit signal).1

def TickEvent.booked (event : TickEvent) (signal : TradeSignal) : ℤ :=
  (event.row signal).elim 0 PaperTrade.filledQuantity

def TickEvent.Reaches (event : TickEvent) (signal : TradeSignal) (quote : Quote) : Prop :=
  runRiskChecks event.gate signal = .ok () ∧ event.quote = some quote ∧ event.commit ≠ .failed

def PaperTrade.IsFillOf (t : PaperTrade) (signal : TradeSignal) : Prop :=
  t.symbol = signal.symbol ∧ t.side = signal.side

theorem executePaperTrade_row {signal : TradeSignal} (hquantity : 0 < signal.quantity)
    {quote : Quote} {commit : Commit} (hcommit : commit ≠ .failed) :
    ∀ row, (executePaperTrade (some quote) commit signal).1 = row →
      (∀ t ∈ row, t.IsFillOf signal) ∧ row.elim 0 PaperTrade.filledQuantity =
        min signal.quantity (usableDepth (quote.depth signal.side)) := by
  rintro row rfl
  obtain ⟨result, hresult, hfilled⟩ :=
    filledQuantity_simulateFill signal.side hquantity (quote.depth signal.side)
  rw [executePaperTrade, hresult, ← hfilled]
  dsimp only
  split
  · next hzero => exact ⟨nofun, hzero.symm⟩
  · cases commit with
    | failed => exact absurd rfl hcommit
    | refreshFailed | done =>
      refine ⟨fun t ht ↦ ?_, rfl⟩
      obtain rfl := Option.some.inj ht
      exact ⟨rfl, rfl⟩

theorem executePaperTrade_none {signal : TradeSignal} {quote : Option Quote} {commit : Commit}
    (h : quote = none ∨ commit = .failed) : (executePaperTrade quote commit signal).1 = none := by
  simp only [executePaperTrade]
  rcases h with rfl | rfl
  · rfl
  · cases quote with
    | none => rfl
    | some quote =>
      dsimp only
      cases simulateFill signal.side signal.quantity (quote.depth signal.side) with
      | error message => rfl
      | ok result =>
        dsimp only
        split <;> rfl

namespace TickEvent

variable {event : TickEvent} {signal : TradeSignal}

theorem isFillOf_row (hquantity : 0 < signal.quantity) :
    ∀ t ∈ event.row signal, t.IsFillOf signal := by
  intro t ht
  simp only [row] at ht
  split at ht
  · cases ht
  · by_cases hnone : event.quote = none ∨ event.commit = .failed
    · rw [executePaperTrade_none hnone] at ht
      cases ht
    · obtain ⟨hquote, hcommit⟩ := not_or.mp hnone
      obtain ⟨quote, hquote⟩ := Option.ne_none_iff_exists'.mp hquote
      rw [hquote] at ht
      exact (executePaperTrade_row hquantity hcommit _ rfl).1 t ht

theorem booked_eq_iff (hquantity : 0 < signal.quantity) {n : ℤ} (hn : n ≠ 0) :
    event.booked signal = n ↔ ∃ quote, event.Reaches signal quote ∧
      min signal.quantity (usableDepth (quote.depth signal.side)) = n := by
  simp only [booked, row, Reaches]
  cases runRiskChecks event.gate signal with
  | error e => exact iff_of_false hn.symm nofun
  | ok _ =>
    dsimp only
    by_cases hnone : event.quote = none ∨ event.commit = .failed
    · rw [executePaperTrade_none hnone]
      refine iff_of_false hn.symm ?_
      rintro ⟨quote, ⟨-, hquote, hcommit⟩, -⟩
      rcases hnone with hnone | hfailed
      · cases hquote.symm.trans hnone
      · exact hcommit hfailed
    · obtain ⟨hquote, hcommit⟩ := not_or.mp hnone
      obtain ⟨quote, hquote⟩ := Option.ne_none_iff_exists'.mp hquote
      rw [hquote, (executePaperTrade_row hquantity hcommit _ rfl).2]
      constructor
      · exact fun h ↦ ⟨quote, ⟨rfl, rfl, hcommit⟩, h⟩
      · rintro ⟨quote', ⟨-, hquote', -⟩, h⟩
        obtain rfl := Option.some.inj hquote'
        exact h

end TickEvent

namespace PaperExecutionPipeline

variable {γ : Type} {generate : γ → SymbolState → γ × Except TickError (Option TradeSignal)}
  {p : PaperExecutionPipeline γ} {event : TickEvent}
  {reaction : γ × Except TickError (Option TradeSignal)}

theorem generator_handleTick
    (h : generate p.generator ((p.stateFor event.symbol).update event.price) = reaction) :
    (p.handleTick generate event).1.generator = reaction.1 := by
  subst h
  simp only [handleTick]
  split
  · rfl
  · rfl
  · split <;> rfl

theorem trades_handleTick
    (h : generate p.generator ((p.stateFor event.symbol).update event.price) = reaction)
    {signal : TradeSignal} (hsignal : reaction.2 = .ok (some signal)) :
    (p.handleTick generate event).1.trades = p.trades ++ (event.row signal).toList := by
  subst h
  simp only [handleTick, TickEvent.row]
  rw [hsignal]
  dsimp only
  split
  · exact (List.append_nil _).symm
  · rfl

theorem trades_handleTick_of_quiet
    (h : generate p.generator ((p.stateFor event.symbol).update event.price) = reaction)
    (hquiet : ∀ signal, reaction.2 ≠ .ok (some signal)) :
    (p.handleTick generate event).1.trades = p.trades := by
  subst h
  simp only [handleTick]
  split
  · rfl
  · rfl
  · next signal hsignal => exact absurd hsignal (hquiet signal)

end PaperExecutionPipeline

end TradingOS.PaperTrading
