import TradingOS.Agents.Control
import TradingOS.Brokers.CircuitBreaker
import TradingOS.Brokers.OrderPayloads
import TradingOS.Lib.SortedSums
import TradingOS.PaperTrading.PaperExecutionPipeline
import TradingOS.Risk.ComplianceChecker
import TradingOS.Risk.DrawdownLatch

namespace TradingOS.Live.ExecutionPipeline

open Lib Agents.Control Risk Risk.MaxDrawdownKillSwitch Brokers Brokers.OrderPayloads
open PaperTrading (SymbolState TickError maxHistory)

structure TradeSignal where
  symbol : String
  side : Brokers.OrderPayloads.Side
  quantity : ℤ
  orderType : Brokers.OrderPayloads.OrderType
  limitPrice : Option ℚ
  referencePrice : Option ℚ
  optionLegs : Option (List OptionLeg)
  deriving DecidableEq

theorem tag_length_none : ∀ t ∈ (none : Option String), t.length ≤ 40 := by
  intro t h
  cases h

/-- An `OrderRequest` wants a positive quantity. -/
def TradeSignal.orderRequest (signal : TradeSignal) : Except TickError OrderRequest :=
  if h : 0 < signal.quantity then
    .ok
      { symbol := signal.symbol
        side := signal.side
        orderType := signal.orderType
        quantity := signal.quantity.toNat
        limitPrice := signal.limitPrice
        quantity_pos := by omega
        tag_length := tag_length_none }
  else .error (.valueError "Input should be greater than 0")

/-- A division by a window of zero fails. -/
def sma (state : SymbolState) (window : ℕ) : Except TickError (Option ℚ) :=
  if state.prices.length < window then .ok none
  else if window = 0 then .error .zeroDivision
  else .ok (some (mean (state.prices.drop (state.prices.length - window))))

structure WebSocketLatencyGuard where
  thresholdSeconds : ℚ
  paused : Bool
  lastLatencySeconds : Option ℚ
  deriving DecidableEq

def WebSocketLatencyGuard.record (guard : WebSocketLatencyGuard) (latencySeconds : ℚ) :
    WebSocketLatencyGuard :=
  { guard with
    lastLatencySeconds := some latencySeconds
    paused := guard.thresholdSeconds < latencySeconds }

/-- A pre-trade check gives the message of the rejection it raises. -/
abbrev PreTradeCheck := TradeSignal → Option String

section

variable (fmt : FloatFormat)

def runRiskChecks (signal : TradeSignal) (killSwitch : MaxDrawdownKillSwitch)
    (latencyGuard : Option WebSocketLatencyGuard) (preTradeChecks : List PreTradeCheck) :
    Except TickError Unit :=
  if killSwitch.triggered then
    .error (.riskRejected s!"Kill switch is triggered -- rejecting signal for {signal.symbol}")
  else if latencyGuard.any (·.paused) then
    let last := (latencyGuard.bind (·.lastLatencySeconds)).elim "None" fmt.plain
    let threshold := (latencyGuard.map (·.thresholdSeconds)).elim "None" fmt.plain
    .error (.riskRejected (s!"WebSocket latency guard is paused ({last}s > {threshold}s threshold)" ++
      s!" -- rejecting signal for {signal.symbol} until the feed is synced"))
  else
    match preTradeChecks.findSome? fun check ↦ check signal with
    | some message => .error (.riskRejected message)
    | none => .ok ()

def TradeSignal.compliance (signal : TradeSignal) : ComplianceVerdict :=
  evaluateCompliance fmt signal.symbol (some signal.quantity) signal.referencePrice
    signal.limitPrice signal.optionLegs

def compliancePreTradeCheck : PreTradeCheck := fun signal ↦
  let verdict := signal.compliance fmt
  if verdict.verdict = .block then
    let detail := "; ".intercalate (verdict.violations.map ComplianceViolation.detail)
    some s!"Compliance block for {signal.symbol}: {detail}"
  else none

end

structure Tick where
  symbol : String
  price : ℚ
  /-- `pre_trade_checks`, with what they read of the database at this tick. -/
  preTradeChecks : List PreTradeCheck
  /-- The table `agent_control_state` at this tick, unless the database fails. -/
  control : Option ControlTable

/-- What ends `handle_tick` before the broker has an order. -/
inductive LiveError
  | raised (e : TickError)
  | executionAgentDisabled (message : String)
  deriving DecidableEq

/-- `DEFAULT_MAX_RETRIES`. -/
def maxRetries : ℕ := 3

/-- A call of `broker.place_order`, for the tick of that number. -/
structure HandOver where
  tick : ℕ
  attempt : ℕ
  order : OrderRequest

inductive Stage
  | sent | backingOff
  deriving DecidableEq

/-- An order that is with the broker, or with the agent, which sleeps before its next attempt. -/
structure Dispatch where
  order : OrderRequest
  attempt : ℕ
  stage : Stage

/-- `persisted` says that `account_id` and `strategy_id` are set, so that orders go through the
`ExecutionAgent`. The orders that `handle_tick` waits for are kept by the number of their tick. -/
structure LiveExecutionPipeline where
  persisted : Bool
  states : Table String SymbolState
  killSwitch : MaxDrawdownKillSwitch
  latencyGuard : Option WebSocketLatencyGuard
  ticks : ℕ
  dispatches : Table ℕ Dispatch
  placed : List HandOver

/-- What happens around a pipeline: a tick, a call of the kill switch, a measured latency, the
broker's reply to an order, and the end of the agent's sleep after a timeout. -/
inductive Event
  | tick (tick : Tick)
  | killSwitch (call : Call)
  | latency (seconds : ℚ)
  | reply (tick : ℕ) (reply : Reply)
  | wake (tick : ℕ)

/-- A generator reads the symbol of a state and its prices. -/
abbrev SignalGenerator := String → SymbolState → Except TickError (Option TradeSignal)

namespace LiveExecutionPipeline

variable (fmt : FloatFormat) (generate : SignalGenerator) (p : LiveExecutionPipeline)

def start (threshold : ℚ) (latencyThreshold : Option ℚ) (persisted : Bool) :
    LiveExecutionPipeline where
  persisted := persisted
  states := .empty
  killSwitch := ⟨threshold, none, false⟩
  latencyGuard := latencyThreshold.map (⟨·, false, none⟩)
  ticks := 0
  dispatches := .empty
  placed := []

def stateFor (symbol : String) : SymbolState := (p.states.get? symbol).getD ⟨[]⟩

/-- The gate at the head of `execute_signal`. -/
def agentGate (control : Option ControlTable) : Except LiveError Unit :=
  if ¬ p.persisted then .ok ()
  else
    match control with
    | none => .error (.raised .database)
    | some control =>
      if isAgentEnabled control "execution_agent" then .ok ()
      else
        .error (.executionAgentDisabled
          "execution_agent is administratively disabled -- order not placed")

/-- What the tick asks of the broker. -/
def dispatch (state : SymbolState) (tick : Tick) : Except LiveError (Option OrderRequest) :=
  match generate tick.symbol state with
  | .error e => .error (.raised e)
  | .ok none => .ok none
  | .ok (some signal) =>
    match runRiskChecks fmt signal p.killSwitch p.latencyGuard tick.preTradeChecks with
    | .error e => .error (.raised e)
    | .ok () =>
      match signal.orderRequest with
      | .error e => .error (.raised e)
      | .ok order => (p.agentGate tick.control).map fun _ ↦ some order

def handOver (h : HandOver) : LiveExecutionPipeline :=
  { p with
    dispatches := p.dispatches.assign h.tick ⟨h.order, h.attempt, .sent⟩
    placed := p.placed ++ [h] }

/-- `handle_tick` up to where it waits for the broker. -/
def handleTick (tick : Tick) : LiveExecutionPipeline × Except LiveError (Option OrderRequest) :=
  let state := (p.stateFor tick.symbol).update tick.price
  let result := p.dispatch fmt generate state tick
  let p' : LiveExecutionPipeline := { p with
    states := (p.states.setdefault tick.symbol ⟨[]⟩).modify tick.symbol fun _ ↦ state
    ticks := p.ticks + 1 }
  match result with
  | .ok (some order) => (p'.handOver ⟨p.ticks, 0, order⟩, result)
  | _ => (p', result)

/-- `_place_with_backoff` sleeps on a timeout, unless it is that of the last attempt; without the
agent every reply is the answer. -/
def onReply (n : ℕ) (reply : Reply) : LiveExecutionPipeline :=
  match p.dispatches.get? n with
  | some ⟨order, attempt, .sent⟩ =>
    if p.persisted ∧ reply = .timeout ∧ attempt < maxRetries then
      { p with dispatches := p.dispatches.assign n ⟨order, attempt, .backingOff⟩ }
    else { p with dispatches := p.dispatches.erase n }
  | _ => p

/-- The next attempt: neither the kill switch nor the gate is read again. -/
def onWake (n : ℕ) : LiveExecutionPipeline :=
  match p.dispatches.get? n with
  | some ⟨order, attempt, .backingOff⟩ => p.handOver ⟨n, attempt + 1, order⟩
  | _ => p

def next : Event → LiveExecutionPipeline
  | .tick tick => (p.handleTick fmt generate tick).1
  | .killSwitch call => { p with killSwitch := p.killSwitch.call call }
  | .latency seconds => { p with latencyGuard := p.latencyGuard.map (·.record seconds) }
  | .reply n reply => p.onReply n reply
  | .wake n => p.onWake n

def run (threshold : ℚ) (latencyThreshold : Option ℚ) (persisted : Bool) (events : List Event) :
    LiveExecutionPipeline :=
  events.foldl (next fmt generate) (start threshold latencyThreshold persisted)

end LiveExecutionPipeline

/-- The prices of a symbol, in the order of its ticks. -/
def pricesOf (symbol : String) (events : List Event) : List ℚ :=
  events.filterMap fun
    | .tick tick => if tick.symbol = symbol then some tick.price else none
    | _ => none

def callsOf (events : List Event) : List Call :=
  events.filterMap fun
    | .killSwitch call => some call
    | _ => none

def latenciesOf (events : List Event) : List ℚ :=
  events.filterMap fun
    | .latency seconds => some seconds
    | _ => none

def ticksOf (events : List Event) : List Tick :=
  events.filterMap fun
    | .tick tick => some tick
    | _ => none

/-- The last values of a series, all of them where there are no more. -/
def lastValues {α : Type} (n : ℕ) (l : List α) : List α := l.drop (l.length - n)

section History

variable {fmt : FloatFormat} {generate : SignalGenerator} {threshold : ℚ}
  {latencyThreshold : Option ℚ} {persisted : Bool} {events : List Event}

open LiveExecutionPipeline

theorem lastValues_concat {α : Type} (n : ℕ) (l : List α) (a : α) :
    lastValues n (lastValues n l ++ [a]) = lastValues n (l ++ [a]) := by
  simp only [lastValues]
  rw [← List.drop_append_of_le_length (Nat.sub_le _ _), List.drop_drop]
  congr 1
  simp only [List.length_drop, List.length_append, List.length_singleton]
  omega

theorem lastValues_lastValues {α : Type} {m n : ℕ} (h : m ≤ n) (l : List α) :
    lastValues m (lastValues n l) = lastValues m l := by
  simp only [lastValues, List.drop_drop, List.length_drop]
  congr 1
  omega

theorem length_lastValues {α : Type} (n : ℕ) (l : List α) :
    (lastValues n l).length = min n l.length := by
  rw [lastValues, List.length_drop]
  omega

theorem update_lastValues (l : List ℚ) (price : ℚ) :
    (SymbolState.update ⟨lastValues maxHistory l⟩ price).prices =
      lastValues maxHistory (l ++ [price]) := by
  rw [← lastValues_concat, SymbolState.update]
  conv_rhs => rw [lastValues, List.length_append, List.length_singleton]

theorem run_concat (events : List Event) (e : Event) :
    LiveExecutionPipeline.run fmt generate threshold latencyThreshold persisted (events ++ [e]) =
      (LiveExecutionPipeline.run fmt generate threshold latencyThreshold persisted events).next fmt
        generate e := by
  rw [LiveExecutionPipeline.run, List.foldl_append]
  rfl

/-- What an event leaves of the pipeline, apart from its orders. -/
structure Leaves (p p' : LiveExecutionPipeline) : Prop where
  persisted : p'.persisted = p.persisted
  states : p'.states = p.states
  killSwitch : p'.killSwitch = p.killSwitch
  latencyGuard : p'.latencyGuard = p.latencyGuard
  ticks : p'.ticks = p.ticks

theorem leaves_onReply (p : LiveExecutionPipeline) (n : ℕ) (reply : Reply) :
    Leaves p (p.onReply n reply) := by
  rw [onReply]
  split
  · split <;> exact ⟨rfl, rfl, rfl, rfl, rfl⟩
  · exact ⟨rfl, rfl, rfl, rfl, rfl⟩

theorem leaves_onWake (p : LiveExecutionPipeline) (n : ℕ) : Leaves p (p.onWake n) := by
  rw [onWake]
  split <;> exact ⟨rfl, rfl, rfl, rfl, rfl⟩

/-- A tick changes the state of its symbol, and the rest only by an order. -/
theorem handleTick_fst (fmt : FloatFormat) (generate : SignalGenerator) (p : LiveExecutionPipeline)
    (tick : Tick) :
    let p' := (p.handleTick fmt generate tick).1
    Leaves { p with
      states := (p.states.setdefault tick.symbol ⟨[]⟩).modify tick.symbol fun _ ↦
        (p.stateFor tick.symbol).update tick.price
      ticks := p.ticks + 1 } p' := by
  simp only [LiveExecutionPipeline.handleTick]
  split <;> exact ⟨rfl, rfl, rfl, rfl, rfl⟩

/-- What the pipeline keeps of what has happened: the last prices of each symbol whatever ticks of
others come between, the kill switch after its calls, and the last latency. -/
structure Follows (threshold : ℚ) (latencyThreshold : Option ℚ) (persisted : Bool)
    (events : List Event) (p : LiveExecutionPipeline) : Prop where
  persisted : p.persisted = persisted
  prices : ∀ symbol, (p.stateFor symbol).prices = lastValues maxHistory (pricesOf symbol events)
  killSwitch : p.killSwitch = MaxDrawdownKillSwitch.run threshold (callsOf events)
  latencyGuard : p.latencyGuard = latencyThreshold.map fun limit ↦
    ⟨limit, (latenciesOf events).getLast?.any (limit < ·), (latenciesOf events).getLast?⟩
  ticks : p.ticks = (ticksOf events).length

/-- An event that is no tick, call or latency tells the pipeline nothing. -/
theorem Follows.leaves {p p' : LiveExecutionPipeline} {e : Event}
    (h : Follows threshold latencyThreshold persisted events p) (hleaves : Leaves p p')
    (hprices : ∀ symbol, pricesOf symbol [e] = []) (hcalls : callsOf [e] = [])
    (hlatencies : latenciesOf [e] = []) (hticks : ticksOf [e] = []) :
    Follows threshold latencyThreshold persisted (events ++ [e]) p' where
  persisted := hleaves.persisted.trans h.persisted
  prices symbol := by
    have hsame : pricesOf symbol (events ++ [e]) = pricesOf symbol events := by
      rw [pricesOf, List.filterMap_append]
      exact (congrArg (pricesOf symbol events ++ ·) (hprices symbol)).trans (List.append_nil _)
    rw [hsame, stateFor, hleaves.states]
    exact h.prices symbol
  killSwitch := by
    have hsame : callsOf (events ++ [e]) = callsOf events := by
      rw [callsOf, List.filterMap_append]
      exact (congrArg (callsOf events ++ ·) hcalls).trans (List.append_nil _)
    rw [hsame, hleaves.killSwitch, h.killSwitch]
  latencyGuard := by
    have hsame : latenciesOf (events ++ [e]) = latenciesOf events := by
      rw [latenciesOf, List.filterMap_append]
      exact (congrArg (latenciesOf events ++ ·) hlatencies).trans (List.append_nil _)
    rw [hsame, hleaves.latencyGuard, h.latencyGuard]
  ticks := by
    have hsame : ticksOf (events ++ [e]) = ticksOf events := by
      rw [ticksOf, List.filterMap_append]
      exact (congrArg (ticksOf events ++ ·) hticks).trans (List.append_nil _)
    rw [hsame, hleaves.ticks, h.ticks]

theorem Follows.tick {p : LiveExecutionPipeline}
    (h : Follows threshold latencyThreshold persisted events p) (tick : Tick) :
    Follows threshold latencyThreshold persisted (events ++ [.tick tick])
      (p.handleTick fmt generate tick).1 := by
  have hleaves := handleTick_fst fmt generate p tick
  refine ⟨hleaves.persisted.trans h.persisted, fun symbol ↦ ?_, ?_, ?_, ?_⟩
  · have hget : (p.handleTick fmt generate tick).1.stateFor symbol =
        if symbol = tick.symbol then (p.stateFor tick.symbol).update tick.price
        else p.stateFor symbol := by
      simp only [stateFor, hleaves.states, Table.get?_modify, Table.get?_setdefault]
      split <;> rfl
    have hprices : pricesOf symbol (events ++ [.tick tick]) =
        if symbol = tick.symbol then pricesOf symbol events ++ [tick.price]
        else pricesOf symbol events := by
      rw [pricesOf, List.filterMap_append]
      by_cases hs : symbol = tick.symbol
      · simp [hs, pricesOf]
      · simp [hs, Ne.symm hs, pricesOf]
    rw [hget, hprices]
    by_cases hs : symbol = tick.symbol
    · subst hs
      rw [if_pos rfl, if_pos rfl, ← update_lastValues, ← h.prices]
    · rw [if_neg hs, if_neg hs]
      exact h.prices symbol
  · have hcalls : callsOf (events ++ [.tick tick]) = callsOf events := by simp [callsOf]
    rw [hcalls, ← h.killSwitch]
    exact hleaves.killSwitch
  · have hlatencies : latenciesOf (events ++ [.tick tick]) = latenciesOf events := by
      simp [latenciesOf]
    rw [hlatencies, ← h.latencyGuard]
    exact hleaves.latencyGuard
  · have hticks : ticksOf (events ++ [.tick tick]) = ticksOf events ++ [tick] := by simp [ticksOf]
    rw [hticks, List.length_append, List.length_singleton, ← h.ticks]
    exact hleaves.ticks

theorem follows_run (fmt : FloatFormat) (generate : SignalGenerator) (threshold : ℚ)
    (latencyThreshold : Option ℚ) (persisted : Bool) (events : List Event) :
    Follows threshold latencyThreshold persisted events
      (LiveExecutionPipeline.run fmt generate threshold latencyThreshold persisted events) := by
  induction events using List.reverseRecOn with
  | nil =>
    refine ⟨rfl, fun symbol ↦ List.drop_nil.symm, rfl, ?_, rfl⟩
    cases latencyThreshold <;> rfl
  | append_singleton events e ih =>
    rw [run_concat]
    generalize LiveExecutionPipeline.run fmt generate threshold latencyThreshold persisted events = p
      at ih
    cases e with
    | tick tick => exact ih.tick tick
    | reply n reply => exact ih.leaves (leaves_onReply p n reply) (fun _ ↦ rfl) rfl rfl rfl
    | wake n => exact ih.leaves (leaves_onWake p n) (fun _ ↦ rfl) rfl rfl rfl
    | killSwitch call =>
      have hcalls : callsOf (events ++ [.killSwitch call]) = callsOf events ++ [call] := by
        simp [callsOf]
      have hlatencies : latenciesOf (events ++ [.killSwitch call]) = latenciesOf events := by
        simp [latenciesOf]
      refine ⟨ih.persisted, fun symbol ↦ ?_, ?_, ?_, ?_⟩
      · have hprices : pricesOf symbol (events ++ [.killSwitch call]) = pricesOf symbol events := by
          simp [pricesOf]
        rw [hprices]
        exact ih.prices symbol
      · rw [hcalls, MaxDrawdownKillSwitch.run_concat, ← ih.killSwitch]
        rfl
      · rw [hlatencies]
        exact ih.latencyGuard
      · have hticks : ticksOf (events ++ [.killSwitch call]) = ticksOf events := by simp [ticksOf]
        rw [hticks]
        exact ih.ticks
    | latency seconds =>
      have hcalls : callsOf (events ++ [.latency seconds]) = callsOf events := by simp [callsOf]
      have hlatencies : latenciesOf (events ++ [.latency seconds]) =
          latenciesOf events ++ [seconds] := by simp [latenciesOf]
      refine ⟨ih.persisted, fun symbol ↦ ?_, ?_, ?_, ?_⟩
      · have hprices : pricesOf symbol (events ++ [.latency seconds]) = pricesOf symbol events := by
          simp [pricesOf]
        rw [hprices]
        exact ih.prices symbol
      · rw [hcalls]
        exact ih.killSwitch
      · rw [hlatencies, List.getLast?_concat, next, ih.latencyGuard, Option.map_map]
        rfl
      · have hticks : ticksOf (events ++ [.latency seconds]) = ticksOf events := by simp [ticksOf]
        rw [hticks]
        exact ih.ticks

theorem runRiskChecks_ok {signal : TradeSignal} {killSwitch : MaxDrawdownKillSwitch}
    {latencyGuard : Option WebSocketLatencyGuard} {preTradeChecks : List PreTradeCheck} :
    runRiskChecks fmt signal killSwitch latencyGuard preTradeChecks = .ok () ↔
      killSwitch.triggered = false ∧ latencyGuard.any (·.paused) = false ∧
        ∀ check ∈ preTradeChecks, check signal = none := by
  rw [runRiskChecks]
  split
  · next h => simp [h]
  · next h =>
    split
    · next hpaused => simp [hpaused]
    · next hpaused =>
      cases hchecks : preTradeChecks.findSome? fun check ↦ check signal with
      | none => simpa [h, hpaused] using List.findSome?_eq_none_iff.mp hchecks
      | some message =>
        obtain ⟨check, hcheck, hmessage⟩ := List.exists_of_findSome?_eq_some hchecks
        refine iff_of_false (by simp) ?_
        rintro ⟨-, -, hnone⟩
        rw [hnone check hcheck] at hmessage
        cases hmessage

theorem agentGate_ok {p : LiveExecutionPipeline} {control : Option ControlTable} :
    p.agentGate control = .ok () ↔
      (p.persisted → ∃ table ∈ control, isAgentEnabled table "execution_agent") := by
  simp only [agentGate]
  cases p.persisted with
  | false => simp
  | true =>
    cases control with
    | none => simp
    | some table => cases h : isAgentEnabled table "execution_agent" <;> simp [h]

theorem dispatch_eq_ok {p : LiveExecutionPipeline} {state : SymbolState} {tick : Tick}
    {order : OrderRequest} : p.dispatch fmt generate state tick = .ok (some order) ↔
      ∃ signal, generate tick.symbol state = .ok (some signal) ∧
        runRiskChecks fmt signal p.killSwitch p.latencyGuard tick.preTradeChecks = .ok () ∧
        signal.orderRequest = .ok order ∧ p.agentGate tick.control = .ok () := by
  rw [dispatch]
  cases generate tick.symbol state with
  | error e => simp
  | ok signal =>
    cases signal with
    | none => simp
    | some signal =>
      simp only [Except.ok.injEq, Option.some.injEq, exists_eq_left']
      cases runRiskChecks fmt signal p.killSwitch p.latencyGuard tick.preTradeChecks with
      | error e => simp
      | ok u =>
        cases signal.orderRequest with
        | error e => simp
        | ok order => cases p.agentGate tick.control <;> simp [Except.map]

theorem handleTick_snd (fmt : FloatFormat) (generate : SignalGenerator) (p : LiveExecutionPipeline)
    (tick : Tick) :
    (p.handleTick fmt generate tick).2 =
      p.dispatch fmt generate ((p.stateFor tick.symbol).update tick.price) tick := by
  simp only [LiveExecutionPipeline.handleTick]
  split <;> rfl

/-- A tick hands an order to the broker exactly when the generator signals it on the last prices of
the symbol, the calls of the kill switch since its last reset are no breach, the last measured
latency is within its bound, no pre-trade check objects and, where orders go through the execution
agent, that is enabled. -/
theorem handleTick_order_iff (hstarts : PositiveStarts (callsOf events)) (tick : Tick)
    (order : OrderRequest) :
    ((LiveExecutionPipeline.run fmt generate threshold latencyThreshold persisted events).handleTick
      fmt generate tick).2 = .ok (some order) ↔
    ∃ signal, generate tick.symbol
        ⟨lastValues maxHistory (pricesOf tick.symbol events ++ [tick.price])⟩ = .ok (some signal) ∧
      signal.orderRequest = .ok order ∧
      ¬ Breached threshold (sinceReset (callsOf events)) ∧
      (∀ limit ∈ latencyThreshold, ∀ latency ∈ (latenciesOf events).getLast?, latency ≤ limit) ∧
      (∀ check ∈ tick.preTradeChecks, check signal = none) ∧
      (persisted → ∃ table ∈ tick.control, isAgentEnabled table "execution_agent") := by
  have hfollows := follows_run fmt generate threshold latencyThreshold persisted events
  have hswitch := (tracks_run threshold hstarts).triggered
  generalize LiveExecutionPipeline.run fmt generate threshold latencyThreshold persisted events = p
    at hfollows
  have hstate : (p.stateFor tick.symbol).update tick.price =
      ⟨lastValues maxHistory (pricesOf tick.symbol events ++ [tick.price])⟩ := by
    rw [← update_lastValues, ← hfollows.prices]
  have hguard : p.latencyGuard.any (·.paused) = false ↔
      ∀ limit ∈ latencyThreshold, ∀ latency ∈ (latenciesOf events).getLast?, latency ≤ limit := by
    rw [hfollows.latencyGuard]
    cases latencyThreshold with
    | none => simp
    | some limit => cases (latenciesOf events).getLast? <;> simp
  rw [handleTick_snd, hstate, dispatch_eq_ok]
  apply exists_congr
  intro signal
  rw [runRiskChecks_ok, agentGate_ok, hguard, hfollows.killSwitch, hfollows.persisted,
    ← Bool.not_eq_true, hswitch]
  tauto

theorem positiveStarts_of_forall {calls : List Call}
    (h : ∀ equity, .update equity ∈ calls → 0 < equity) : PositiveStarts calls := by
  intro before equity after hcalls _
  apply h
  rw [hcalls]
  exact List.mem_append_right _ List.mem_cons_self

def inertFormat : FloatFormat := ⟨fun _ ↦ "", fun _ ↦ ""⟩

/-- A generator that buys ten shares at every tick. -/
def alwaysBuy : SignalGenerator := fun symbol _ ↦
  .ok (some ⟨symbol, .buy, 10, .market, none, none, none⟩)

def tenShares (symbol : String) : OrderRequest where
  symbol := symbol
  side := .buy
  orderType := .market
  quantity := 10
  quantity_pos := Nat.succ_pos 9
  tag_length := tag_length_none

theorem handleTick_order_iff_firstTick :
    ((LiveExecutionPipeline.run inertFormat alwaysBuy (15 / 100) none true
      [.killSwitch (.update 100)]).handleTick inertFormat alwaysBuy
        ⟨"INFY", 1500, [], some .empty⟩).2 = .ok (some (tenShares "INFY")) ↔
    ∃ signal, alwaysBuy "INFY" ⟨lastValues maxHistory
        (pricesOf "INFY" [.killSwitch (.update 100)] ++ [1500])⟩ = .ok (some signal) ∧
      signal.orderRequest = .ok (tenShares "INFY") ∧
      ¬ Breached (15 / 100) (sinceReset (callsOf [.killSwitch (.update 100)])) ∧
      (∀ limit ∈ (none : Option ℚ), ∀ latency ∈ (latenciesOf [.killSwitch (.update 100)]).getLast?,
        latency ≤ limit) ∧
      (∀ check ∈ ([] : List PreTradeCheck), check signal = none) ∧
      (true → ∃ table ∈ some (.empty : ControlTable), isAgentEnabled table "execution_agent") := by
  have hstarts : PositiveStarts (callsOf [.killSwitch (.update 100)]) :=
    positiveStarts_of_forall (by simp [callsOf])
  exact handleTick_order_iff hstarts ⟨"INFY", 1500, [], some .empty⟩ (tenShares "INFY")

/-- What hands an order to the broker: a tick that passes its checks, or the end of a sleep. -/
inductive Hands (fmt : FloatFormat) (generate : SignalGenerator) (p : LiveExecutionPipeline) :
    Event → HandOver → Prop
  | tick {tick : Tick} {order : OrderRequest}
      (h : (p.handleTick fmt generate tick).2 = .ok (some order)) :
      Hands fmt generate p (.tick tick) ⟨p.ticks, 0, order⟩
  | wake {n attempt : ℕ} {order : OrderRequest}
      (h : p.dispatches.get? n = some ⟨order, attempt, .backingOff⟩) :
      Hands fmt generate p (.wake n) ⟨n, attempt + 1, order⟩

/-- No order is handed over, and one at most goes to sleep. -/
structure Rests (p p' : LiveExecutionPipeline) : Prop where
  placed : p'.placed = p.placed
  dispatches : ∀ n d, p'.dispatches.get? n = some d → ∃ stage,
    p.dispatches.get? n = some ⟨d.order, d.attempt, stage⟩ ∧
      (d.stage = .backingOff → stage = .backingOff ∨ p.persisted ∧ d.attempt < maxRetries)

/-- One order is handed over, and is with the broker from then on. -/
structure Sends (p p' : LiveExecutionPipeline) (h : HandOver) : Prop where
  placed : p'.placed = p.placed ++ [h]
  dispatches : ∀ n d, p'.dispatches.get? n = some d →
    (n = h.tick ∧ d = ⟨h.order, h.attempt, .sent⟩) ∨
      n ≠ h.tick ∧ p.dispatches.get? n = some d

theorem Rests.refl {p p' : LiveExecutionPipeline} (hplaced : p'.placed = p.placed)
    (hdispatches : p'.dispatches = p.dispatches) : Rests p p' :=
  ⟨hplaced, fun _ d hd ↦ ⟨d.stage, hdispatches ▸ hd, .inl⟩⟩

theorem sends_handOver (p : LiveExecutionPipeline) (h : HandOver) : Sends p (p.handOver h) h := by
  refine ⟨rfl, fun n d hd ↦ ?_⟩
  rw [handOver, Table.get?_assign] at hd
  split at hd
  · next hn => exact .inl ⟨hn, (Option.some.inj hd).symm⟩
  · next hn => exact .inr ⟨hn, hd⟩

theorem rests_onReply (p : LiveExecutionPipeline) (n : ℕ) (reply : Reply) :
    Rests p (p.onReply n reply) := by
  rw [onReply]
  split
  · next order attempt hget =>
    split
    · next hsleeps =>
      refine ⟨rfl, fun k d hd ↦ ?_⟩
      rw [Table.get?_assign] at hd
      split at hd
      · next hk =>
        obtain rfl := Option.some.inj hd
        exact ⟨.sent, hk ▸ hget, fun _ ↦ .inr ⟨hsleeps.1, hsleeps.2.2⟩⟩
      · exact ⟨d.stage, hd, .inl⟩
    · exact ⟨rfl, fun k d hd ↦ ⟨d.stage, ((Table.get?_erase_eq_some _).mp hd).2, .inl⟩⟩
  · exact .refl rfl rfl

/-- What an event does to the orders. -/
theorem next_cases (fmt : FloatFormat) (generate : SignalGenerator) (p : LiveExecutionPipeline)
    (e : Event) :
    Rests p (p.next fmt generate e) ∨
      ∃ h, Hands fmt generate p e h ∧ Sends p (p.next fmt generate e) h := by
  cases e with
  | killSwitch call => exact .inl (.refl rfl rfl)
  | latency seconds => exact .inl (.refl rfl rfl)
  | reply n reply => exact .inl (rests_onReply p n reply)
  | wake n =>
    rw [next, onWake]
    split
    · next order attempt hget => exact .inr ⟨_, .wake hget, sends_handOver p _⟩
    · exact .inl (.refl rfl rfl)
  | tick tick =>
    have hsnd := handleTick_snd fmt generate p tick
    rw [next]
    simp only [LiveExecutionPipeline.handleTick]
    split
    · next order horder =>
      exact .inr ⟨_, .tick (hsnd.trans horder), (sends_handOver _ _).placed,
        (sends_handOver _ _).dispatches⟩
    · exact .inl (.refl rfl rfl)

/-- What holds of the hand-overs and of the orders that the pipeline waits for. -/
structure LiveExecutionPipeline.Sound (p : LiveExecutionPipeline) : Prop where
  ticks : ∀ h ∈ p.placed, h.tick < p.ticks
  attempts : ∀ h ∈ p.placed, h.attempt ≤ maxRetries ∧ (0 < h.attempt → p.persisted)
  nodup : (p.placed.map fun h ↦ (h.tick, h.attempt)).Nodup
  dispatched : ∀ n d, p.dispatches.get? n = some d → ⟨n, d.attempt, d.order⟩ ∈ p.placed ∧
    (∀ h ∈ p.placed, h.tick = n → h.attempt ≤ d.attempt) ∧
      (d.stage = .backingOff → p.persisted ∧ d.attempt < maxRetries)

theorem LiveExecutionPipeline.Sound.rests {p p' : LiveExecutionPipeline} (hs : p.Sound) (h : Rests p p')
    (hpersisted : p'.persisted = p.persisted) (hticks : p.ticks ≤ p'.ticks) : p'.Sound := by
  refine ⟨?_, ?_, ?_, fun n d hd ↦ ?_⟩
  · rw [h.placed]
    exact fun h hh ↦ (hs.ticks h hh).trans_le hticks
  · rw [h.placed, hpersisted]
    exact hs.attempts
  · rw [h.placed]
    exact hs.nodup
  · obtain ⟨stage, hold, hstage⟩ := h.dispatches n d hd
    obtain ⟨hmem, hlast, hback⟩ := hs.dispatched n _ hold
    rw [h.placed, hpersisted]
    exact ⟨hmem, hlast, fun hd ↦ (hstage hd).elim hback id⟩

/-- An order that is new to its tick, or the next attempt of one that the pipeline waits for. -/
theorem LiveExecutionPipeline.Sound.sends {p p' : LiveExecutionPipeline} {h : HandOver} (hs : p.Sound)
    (hsends : Sends p p' h) (hpersisted : p'.persisted = p.persisted) (hticks : p.ticks ≤ p'.ticks)
    (htick : h.tick < p'.ticks) (hfresh : ∀ h' ∈ p.placed, h'.tick = h.tick → h'.attempt < h.attempt)
    (hattempt : h.attempt ≤ maxRetries ∧ (0 < h.attempt → p.persisted)) : p'.Sound := by
  refine ⟨?_, ?_, ?_, fun n d hd ↦ ?_⟩
  · rw [hsends.placed]
    intro h' hh'
    rcases List.mem_append.mp hh' with hold | hnew
    · exact (hs.ticks h' hold).trans_le hticks
    · exact List.mem_singleton.mp hnew ▸ htick
  · rw [hsends.placed, hpersisted]
    intro h' hh'
    rcases List.mem_append.mp hh' with hold | hnew
    · exact hs.attempts h' hold
    · exact List.mem_singleton.mp hnew ▸ hattempt
  · rw [hsends.placed, List.map_append, List.nodup_append]
    refine ⟨hs.nodup, List.nodup_singleton _, ?_⟩
    intro key hkey key' hkey' heq
    obtain ⟨h', hh', rfl⟩ := List.mem_map.mp hkey
    rw [List.map_singleton, List.mem_singleton] at hkey'
    obtain ⟨htick, hattempt⟩ := Prod.mk.inj (heq.trans hkey')
    exact absurd hattempt (hfresh h' hh' htick).ne
  · rw [hsends.placed, hpersisted]
    rcases hsends.dispatches n d hd with ⟨rfl, rfl⟩ | ⟨hn, hold⟩
    · refine ⟨List.mem_append_right _ (List.mem_singleton_self _), fun h' hh' ht ↦ ?_, nofun⟩
      rcases List.mem_append.mp hh' with hold | hnew
      · exact (hfresh h' hold ht).le
      · exact (List.mem_singleton.mp hnew ▸ le_rfl)
    · obtain ⟨hmem, hlast, hback⟩ := hs.dispatched n d hold
      refine ⟨List.mem_append_left _ hmem, fun h' hh' ht ↦ ?_, hback⟩
      rcases List.mem_append.mp hh' with hold | hnew
      · exact hlast h' hold ht
      · exact absurd ((List.mem_singleton.mp hnew ▸ ht).symm) hn

theorem LiveExecutionPipeline.Sound.next {p : LiveExecutionPipeline} (hs : p.Sound) (e : Event) :
    (p.next fmt generate e).Sound := by
  have hpersisted : (p.next fmt generate e).persisted = p.persisted := by
    cases e with
    | tick tick => exact (handleTick_fst fmt generate p tick).persisted
    | killSwitch call => rfl
    | latency seconds => rfl
    | reply n reply => exact (leaves_onReply p n reply).persisted
    | wake n => exact (leaves_onWake p n).persisted
  have hticks : p.ticks ≤ (p.next fmt generate e).ticks := by
    cases e with
    | tick tick => exact (Nat.le_succ _).trans (handleTick_fst fmt generate p tick).ticks.ge
    | killSwitch call => exact le_rfl
    | latency seconds => exact le_rfl
    | reply n reply => exact (leaves_onReply p n reply).ticks.ge
    | wake n => exact (leaves_onWake p n).ticks.ge
  rcases next_cases fmt generate p e with hrests | ⟨h, hhands, hsends⟩
  · exact hs.rests hrests hpersisted hticks
  · cases hhands with
    | @tick tick order horder =>
      refine hs.sends hsends hpersisted hticks ?_ (fun h' hh' ht ↦ ?_) ⟨Nat.zero_le _, nofun⟩
      · exact (Nat.lt_succ_self _).trans_eq (handleTick_fst fmt generate p tick).ticks.symm
      · exact absurd ht (hs.ticks h' hh').ne
    | @wake n attempt order hget =>
      obtain ⟨hmem, hlast, hback⟩ := hs.dispatched n _ hget
      obtain ⟨hagent, hlt⟩ := hback rfl
      refine hs.sends hsends hpersisted hticks ?_ (fun h' hh' ht ↦ ?_) ⟨hlt, fun _ ↦ hagent⟩
      · exact (hs.ticks _ hmem).trans_le hticks
      · exact Nat.lt_succ_of_le (hlast h' hh' ht)

theorem sound_run (fmt : FloatFormat) (generate : SignalGenerator) (threshold : ℚ)
    (latencyThreshold : Option ℚ) (persisted : Bool) (events : List Event) :
    (LiveExecutionPipeline.run fmt generate threshold latencyThreshold persisted events).Sound := by
  induction events using List.reverseRecOn with
  | nil =>
    have hnone (h : HandOver) : h ∉ ([] : List HandOver) := List.not_mem_nil
    refine ⟨fun h hh ↦ absurd hh (hnone h), fun h hh ↦ absurd hh (hnone h), List.nodup_nil, ?_⟩
    intro n d hd
    exact absurd hd (by rw [Table.get?_eq_none _ |>.mpr List.not_mem_nil]; simp)
  | append_singleton events e ih =>
    rw [run_concat]
    exact ih.next e

/-- Under a set switch only a further attempt is handed over, of an order that has been. -/
theorem retry_of_triggered {p : LiveExecutionPipeline} (hs : p.Sound)
    (htriggered : p.killSwitch.triggered) {h : HandOver} (hhands : Hands fmt generate p e h) :
    (p.persisted ∧ 0 < h.attempt ∧ h.attempt ≤ maxRetries) ∧
      ∃ h' ∈ p.placed, h'.tick = h.tick ∧ h'.order = h.order := by
  cases hhands with
  | @tick tick order horder =>
    have hdispatch := (handleTick_snd fmt generate p tick).symm.trans horder
    obtain ⟨signal, -, hgate, -⟩ := dispatch_eq_ok.mp hdispatch
    exact absurd ((runRiskChecks_ok.mp hgate).1.symm.trans htriggered) (by simp)
  | @wake n attempt order hget =>
    obtain ⟨hmem, -, hback⟩ := hs.dispatched n _ hget
    obtain ⟨hagent, hlt⟩ := hback rfl
    exact ⟨⟨hagent, Nat.succ_pos _, hlt⟩, _, hmem, rfl, rfl⟩

/-- From a breach of the kill switch on, until a reset, no tick of any symbol starts an order. What
is still handed over are further attempts, after a timeout, of orders that the agent had handed over
before; no attempt is made twice. -/
theorem placed_of_breached {before later : List Event} (hstarts : PositiveStarts (callsOf before))
    (hbreach : Breached threshold (sinceReset (callsOf before)))
    (hlater : .reset ∉ callsOf later) :
    let after := LiveExecutionPipeline.run fmt generate threshold latencyThreshold persisted
      (before ++ later)
    let first := LiveExecutionPipeline.run fmt generate threshold latencyThreshold persisted before
    (after.placed.map fun h ↦ (h.tick, h.attempt)).Nodup ∧
    ∃ retried, after.placed = first.placed ++ retried ∧
      ∀ h ∈ retried, persisted ∧ 0 < h.attempt ∧ h.attempt ≤ maxRetries ∧
        ∃ h' ∈ first.placed, h'.tick = h.tick ∧ h'.order = h.order := by
  intro after first
  refine ⟨(sound_run fmt generate threshold latencyThreshold persisted _).nodup, ?_⟩
  have htriggered := (tracks_run threshold hstarts).triggered.mpr hbreach
  simp only [after]
  clear after
  induction later using List.reverseRecOn with
  | nil =>
    refine ⟨[], by rw [List.append_nil, List.append_nil], fun h hh ↦ ?_⟩
    exact absurd hh List.not_mem_nil
  | append_singleton later e ih =>
    have hcalls : callsOf (later ++ [e]) = callsOf later ++ callsOf [e] := List.filterMap_append
    have hbefore : .reset ∉ callsOf later := fun hmem ↦
      hlater (hcalls ▸ List.mem_append_left _ hmem)
    obtain ⟨retried, hretried, hall⟩ := ih hbefore
    rw [← List.append_assoc, run_concat]
    have hfollows :=
      follows_run fmt generate threshold latencyThreshold persisted (before ++ later)
    have hsound := sound_run fmt generate threshold latencyThreshold persisted (before ++ later)
    have hswitch : callsOf (before ++ later) = callsOf before ++ callsOf later :=
      List.filterMap_append
    generalize LiveExecutionPipeline.run fmt generate threshold latencyThreshold persisted
      (before ++ later) = p at hfollows hsound hretried
    have hlatched : p.killSwitch.triggered := by
      rw [hfollows.killSwitch, hswitch]
      exact triggered_run_append hbefore htriggered
    rcases next_cases fmt generate p e with hrests | ⟨h, hhands, hsends⟩
    · exact ⟨retried, hrests.placed.trans hretried, hall⟩
    · obtain ⟨hattempt, h', hmem, htick, horder⟩ := retry_of_triggered hsound hlatched hhands
      refine ⟨retried ++ [h], ?_, fun k hk ↦ ?_⟩
      · rw [hsends.placed, hretried, List.append_assoc]
      · rcases List.mem_append.mp hk with hold | hnew
        · exact hall k hold
        · obtain rfl := List.mem_singleton.mp hnew
          rw [hfollows.persisted] at hattempt
          refine ⟨hattempt.1, hattempt.2.1, hattempt.2.2, ?_⟩
          -- the attempt before is of the first list, or goes back to it
          rw [hretried] at hmem
          rcases List.mem_append.mp hmem with hfirst | hagain
          · exact ⟨h', hfirst, htick, horder⟩
          · obtain ⟨-, -, -, origin, horigin, htick', horder'⟩ := hall h' hagain
            exact ⟨origin, horigin, htick'.trans htick, horder'.trans horder⟩

/-- The breach comes between the timeout of an order and its second attempt. -/
def timedOut : List Event :=
  [.tick ⟨"INFY", 1500, [], some .empty⟩, .reply 0 .timeout, .killSwitch .trip]

theorem placed_of_breached_timedOut :
    let later : List Event := [.tick ⟨"INFY", 1500, [], some .empty⟩, .wake 0]
    let after := LiveExecutionPipeline.run inertFormat alwaysBuy (15 / 100) none true
      (timedOut ++ later)
    let first := LiveExecutionPipeline.run inertFormat alwaysBuy (15 / 100) none true timedOut
    after.placed.length = 2 ∧ (after.placed.map fun h ↦ (h.tick, h.attempt)).Nodup ∧
    ∃ retried, after.placed = first.placed ++ retried ∧
      ∀ h ∈ retried, true ∧ 0 < h.attempt ∧ h.attempt ≤ maxRetries ∧
        ∃ h' ∈ first.placed, h'.tick = h.tick ∧ h'.order = h.order := by
  intro later after first
  have hstarts : PositiveStarts (callsOf timedOut) :=
    positiveStarts_of_forall (by simp [timedOut, callsOf])
  have hbreach : Breached (15 / 100) (sinceReset (callsOf timedOut)) := .inl (by decide +kernel)
  have hlater : Call.reset ∉ callsOf later := by decide +kernel
  have hretried : after.placed.length = 2 := by decide +kernel
  exact ⟨hretried, placed_of_breached hstarts hbreach hlater⟩

/-- Each order that is handed over, however often, is that of the tick of its number. -/
theorem placed_origin (events : List Event) :
    ∀ h ∈ (LiveExecutionPipeline.run fmt generate threshold latencyThreshold persisted
      events).placed,
    ∃ before tick after, events = before ++ .tick tick :: after ∧
      (ticksOf before).length = h.tick ∧
      ((LiveExecutionPipeline.run fmt generate threshold latencyThreshold persisted
        before).handleTick fmt generate tick).2 = .ok (some h.order) := by
  induction events using List.reverseRecOn with
  | nil => exact fun h hh ↦ absurd hh (List.not_mem_nil (a := h))
  | append_singleton events e ih =>
    have hextend : ∀ h ∈ (LiveExecutionPipeline.run fmt generate threshold latencyThreshold persisted
        events).placed,
        ∃ before tick after, events ++ [e] = before ++ .tick tick :: after ∧
          (ticksOf before).length = h.tick ∧
          ((LiveExecutionPipeline.run fmt generate threshold latencyThreshold persisted
            before).handleTick fmt generate tick).2 = .ok (some h.order) := by
      intro h hh
      obtain ⟨before, tick, after, hevents, horigin⟩ := ih h hh
      exact ⟨before, tick, after ++ [e], by rw [hevents, List.append_assoc, List.cons_append],
        horigin⟩
    have hticks :=
      (follows_run fmt generate threshold latencyThreshold persisted events).ticks
    have hsound := sound_run fmt generate threshold latencyThreshold persisted events
    rw [run_concat]
    rcases next_cases fmt generate (LiveExecutionPipeline.run fmt generate threshold
      latencyThreshold persisted events) e with hrests | ⟨h, hhands, hsends⟩
    · rw [hrests.placed]
      exact hextend
    · rw [hsends.placed]
      intro h' hh'
      rcases List.mem_append.mp hh' with hold | hnew
      · exact hextend h' hold
      · obtain rfl := List.mem_singleton.mp hnew
        cases hhands with
        | @tick tick order horder => exact ⟨events, tick, [], rfl, hticks.symm, horder⟩
        | @wake n attempt order hget =>
          have horigin := hextend ⟨n, attempt, order⟩ (hsound.dispatched n _ hget).1
          exact horigin

theorem compliancePreTradeCheck_eq_none {signal : TradeSignal} :
    compliancePreTradeCheck fmt signal = none ↔ (signal.compliance fmt).verdict = .pass := by
  rw [compliancePreTradeCheck]
  cases (signal.compliance fmt).verdict with
  | pass => simp
  | block => simp

/-- With the compliance check among the pre-trade checks of each tick, every order that the broker is
handed, at whichever attempt, is of the signal that the generator gave at the tick of its number,
and that signal passed the check. -/
theorem placed_compliant (hchecks : ∀ tick, Event.tick tick ∈ events →
      compliancePreTradeCheck fmt ∈ tick.preTradeChecks) :
    ∀ h ∈ (LiveExecutionPipeline.run fmt generate threshold latencyThreshold persisted
      events).placed,
    ∃ before tick after signal, events = before ++ .tick tick :: after ∧
      (ticksOf before).length = h.tick ∧
      generate tick.symbol ⟨lastValues maxHistory (pricesOf tick.symbol before ++ [tick.price])⟩ =
        .ok (some signal) ∧
      signal.orderRequest = .ok h.order ∧ (signal.compliance fmt).verdict = .pass := by
  intro h hh
  obtain ⟨before, tick, after, hevents, hnumber, horder⟩ := placed_origin events h hh
  have hfollows := follows_run fmt generate threshold latencyThreshold persisted before
  generalize LiveExecutionPipeline.run fmt generate threshold latencyThreshold persisted before = p
    at hfollows horder
  have hstate : (p.stateFor tick.symbol).update tick.price =
      ⟨lastValues maxHistory (pricesOf tick.symbol before ++ [tick.price])⟩ := by
    rw [← update_lastValues, ← hfollows.prices]
  rw [handleTick_snd, hstate, dispatch_eq_ok] at horder
  obtain ⟨signal, hsignal, hgate, hrequest, -⟩ := horder
  have hcheck := hchecks tick (hevents ▸ List.mem_append_right _ List.mem_cons_self)
  exact ⟨before, tick, after, signal, hevents, hnumber, hsignal, hrequest,
    compliancePreTradeCheck_eq_none.mp ((runRiskChecks_ok.mp hgate).2.2 _ hcheck)⟩

theorem placed_compliant_oneTick :
    let events : List Event :=
      [.tick ⟨"INFY", 1500, [compliancePreTradeCheck inertFormat], some .empty⟩]
    ∀ h ∈ (LiveExecutionPipeline.run inertFormat alwaysBuy (15 / 100) none true events).placed,
    ∃ before tick after signal, events = before ++ .tick tick :: after ∧
      (ticksOf before).length = h.tick ∧
      alwaysBuy tick.symbol ⟨lastValues maxHistory (pricesOf tick.symbol before ++ [tick.price])⟩ =
        .ok (some signal) ∧
      signal.orderRequest = .ok h.order ∧ (signal.compliance inertFormat).verdict = .pass := by
  intro events
  apply placed_compliant
  intro tick htick
  obtain rfl := Event.tick.inj (List.mem_singleton.mp htick)
  exact List.mem_singleton_self _

/-- The bounded buffer answers as the whole history does: an average of the last prices of the symbol,
once there are as many, for every window that the buffer can hold, and none for a longer one. -/
theorem sma_stateFor (symbol : String) {window : ℕ} (hwindow : 0 < window) :
    sma ((LiveExecutionPipeline.run fmt generate threshold latencyThreshold persisted
      events).stateFor symbol) window =
    .ok (if window ≤ min maxHistory (pricesOf symbol events).length then
      some (mean (lastValues window (pricesOf symbol events))) else none) := by
  have hprices :=
    (follows_run fmt generate threshold latencyThreshold persisted events).prices symbol
  rw [sma, hprices, length_lastValues]
  by_cases h : window ≤ min maxHistory (pricesOf symbol events).length
  · have hlast := lastValues_lastValues (le_min_iff.mp h).1 (pricesOf symbol events)
    rw [if_neg (not_lt.mpr h), if_neg hwindow.ne', if_pos h, ← hlast]
    conv_rhs => rw [lastValues, length_lastValues]
  · rw [if_pos (not_le.mp h), if_neg h]

theorem sma_stateFor_interleaved :
    sma ((LiveExecutionPipeline.run inertFormat (fun _ _ ↦ .ok none) (15 / 100) none false
      [.tick ⟨"INFY", 100, [], none⟩, .tick ⟨"TCS", 50, [], none⟩,
        .tick ⟨"INFY", 102, [], none⟩]).stateFor "INFY") 2 = .ok (some 101) :=
  (sma_stateFor "INFY" (by decide)).trans (by decide +kernel)

end History

end TradingOS.Live.ExecutionPipeline
