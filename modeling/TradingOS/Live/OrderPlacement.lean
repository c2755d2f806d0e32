import Mathlib.Logic.Function.Basic
import TradingOS.Brokers.CircuitBreaker
import TradingOS.Lib.Runs
import TradingOS.Lib.Table
import TradingOS.Live.OrderStatus

namespace TradingOS.Live

open Lib Lib.Runs Brokers

/-- What `build_broker` gives: the breaker, or an adapter on its own. -/
inductive Broker
  | adapter
  | breaker (breaker : BrokerCircuitBreaker)
  deriving DecidableEq

namespace Broker

def placeOrder (symbol : String) (now : ℕ) : Broker → Broker × Route
  | .adapter => (.adapter, .primary)
  | .breaker b =>
    let (b, route) := b.placeOrder symbol now
    (.breaker b, route)

def onPrimaryReply (symbol : String) (reply : Reply) (now : ℕ) : Broker → Broker × PrimaryOutcome
  | .adapter => (.adapter, if reply = .response then .returned else .raised)
  | .breaker b =>
    let (b, outcome) := b.onPrimaryReply symbol reply now
    (.breaker b, outcome)

end Broker

/-- Which of the two is configured. -/
def buildBroker (zerodha upstox : Bool) : Option Broker :=
  if zerodha then some (.breaker (.init upstox)) else if upstox then some .adapter else none

/-- The acknowledgement of an order. -/
structure Acknowledgement where
  brokerOrderId : String
  status : OrderStatus
  rejectionReason : Option String
  deriving DecidableEq

/-- `POST /orders` with a live scope, or `execute_signal`. -/
inductive PlacementPath
  | placeOrder | executeSignal
  deriving DecidableEq

/-- The broker of a request is its own; that of an agent serves all its signals. -/
inductive BrokerKey
  | request (call : ℕ)
  | agent (agent : ℕ)
  deriving DecidableEq

/-- Where a call is that is past its check. -/
inductive Stage
  | ready (attempt : ℕ)
  | waiting (attempt : ℕ)
  | failingOver (attempt : ℕ)
  | waitingFallback (attempt : ℕ)
  | acknowledged (ack : Acknowledgement)
  | ended (ack : Option Acknowledgement)
  deriving DecidableEq

/-- The order is with a broker. -/
def Stage.isHanded : Stage → Bool
  | .waiting _ | .waitingFallback _ => true
  | .ready _ | .failingOver _ | .acknowledged _ | .ended _ => false

def Stage.ack : Stage → Option Acknowledgement
  | .acknowledged ack => some ack
  | .ended ack => ack
  | .ready _ | .waiting _ | .failingOver _ | .waitingFallback _ => none

/-- The call puts no more orders before a broker, and adds no open row. -/
def Stage.isDone : Stage → Bool
  | .ended _ => true
  | .acknowledged ack => ack.status.isTerminal
  | .ready _ | .failingOver _ | .waiting _ | .waitingFallback _ => false

structure PlacementCall where
  path : PlacementPath
  symbol : String
  broker : BrokerKey
  stage : Stage
  deriving DecidableEq

/-- The processes that serve the API, each with a kill switch of its own. -/
inductive ApiProcess
  | app | appTls
  deriving DecidableEq

structure PlacedOrder where
  brokerOrderId : String
  symbol : String
  status : OrderStatus
  rejectionReason : Option String
  deriving DecidableEq

structure AuditNote where
  action : String
  brokerOrderId : Option String
  deriving DecidableEq

def PlacementPath.action : PlacementPath → String
  | .placeOrder => "ORDER_PLACED_LIVE"
  | .executeSignal => "ORDER_PLACED"

/-- The row that a call writes. The endpoint copies no reason of a rejection. -/
def PlacementCall.row (call : PlacementCall) (ack : Acknowledgement) : PlacedOrder where
  brokerOrderId := ack.brokerOrderId
  symbol := call.symbol
  status := ack.status
  rejectionReason := match call.path with
    | .placeOrder => none
    | .executeSignal => ack.rejectionReason

/-- How the transaction ends that adds the row and its audit entry. What comes after the commit is
the refresh of the row and the publication of the event. -/
inductive WriteOutcome
  | insertFailed
  | auditFailed
  | commitFailed
  | committedUnanswered
  | refreshFailed
  | publishFailed
  | done
  deriving DecidableEq

def WriteOutcome.isCommitted : WriteOutcome → Bool
  | .insertFailed | .auditFailed | .commitFailed => false
  | .committedUnanswered | .refreshFailed | .publishFailed | .done => true

/-- A trip that has not returned, with the rows it has selected. -/
structure Trip where
  process : ApiProcess
  reason : String
  selected : List ℕ
  deriving DecidableEq

/-- The calls that place live orders, the kill switches and the two tables. `handed` lists what the
brokers have been handed, `given` the ids that they have given out; `barrier` says that a trip of
the process has returned and no reset of it has come since. -/
structure LiveOrders where
  maxRetries : ℕ
  brokers : BrokerKey → Broker
  calls : Table ℕ PlacementCall
  tripped : ApiProcess → Bool
  trips : List Trip
  barrier : ApiProcess → Bool
  handed : List ℕ
  given : List String
  rows : List PlacedOrder
  audit : List AuditNote

inductive PlacementEvent
  | placeOrder (process : ApiProcess) (id : ℕ) (symbol : String) (zerodha upstox : Bool)
  | executeSignal (id : ℕ) (symbol : String) (agent : ℕ) (enabled : Bool)
  | send (id now : ℕ)
  | primaryEnds (id : ℕ) (reply : Reply) (ack : Acknowledgement) (now : ℕ)
  | failOver (id : ℕ)
  | fallbackEnds (id : ℕ) (reply : Reply) (ack : Acknowledgement)
  | write (id : ℕ) (outcome : WriteOutcome)
  | trip (process : ApiProcess) (reason : String)
  | tripEnds (n : ℕ) (committed : Bool)
  | reset (process : ApiProcess) (committed : Bool)
  deriving DecidableEq

/-- The call that the event is a step of. -/
def PlacementEvent.call : PlacementEvent → Option ℕ
  | .send id _ | .primaryEnds id _ _ _ | .failOver id | .fallbackEnds id _ _ | .write id _ => some id
  | .placeOrder .. | .executeSignal .. | .trip .. | .tripEnds .. | .reset .. => none

namespace LiveOrders

def begin (maxRetries : ℕ) (brokers : BrokerKey → Broker) : LiveOrders :=
  ⟨maxRetries, brokers, .empty, fun _ ↦ false, [], fun _ ↦ false, [], [], [], []⟩

variable (s : LiveOrders)

def add (id : ℕ) (call : PlacementCall) : LiveOrders :=
  { s with calls := s.calls.setdefault id call }

def withBroker (key : BrokerKey) (broker : Broker) : LiveOrders :=
  { s with brokers := Function.update s.brokers key broker }

def advance (id : ℕ) (stage : Stage) : LiveOrders :=
  { s with
    calls := s.calls.modify id fun call ↦ { call with stage := stage }
    handed := if stage.isHanded then id :: s.handed else s.handed }

def give (ack : Acknowledgement) : LiveOrders := { s with given := ack.brokerOrderId :: s.given }

/-- `_place_with_backoff` tries again after a timeout; the endpoint does not. -/
def afterError (path : PlacementPath) (attempt : ℕ) (reply : Reply) : Stage :=
  if path = .executeSignal ∧ reply = .timeout ∧ attempt < s.maxRetries then .ready (attempt + 1)
  else .ended none

def routed (attempt : ℕ) : Route → Stage
  | .primary => .waiting attempt
  | .fallback => .failingOver attempt
  | .queue => .ended none

/-- A broker gives every order that it acknowledges an id of its own. -/
def acknowledge (id : ℕ) (ack : Acknowledgement) : Option LiveOrders :=
  if ack.brokerOrderId ∈ s.given then none else some ((s.give ack).advance id (.acknowledged ack))

def afterPrimary (id : ℕ) (path : PlacementPath) (attempt : ℕ) (reply : Reply)
    (ack : Acknowledgement) : PrimaryOutcome → Option LiveOrders
  | .returned => s.acknowledge id ack
  | .raised => some (s.advance id (s.afterError path attempt reply))
  | .rerouted route => some (s.advance id (routed attempt route))

/-- The row of the order and the audit entry stand in one transaction. -/
def record (call : PlacementCall) (ack : Acknowledgement) : LiveOrders :=
  { s with
    rows := s.rows ++ [call.row ack]
    audit := s.audit ++ [⟨call.path.action, some ack.brokerOrderId⟩] }

def pendingRows : List ℕ :=
  (List.range s.rows.length).filter fun i ↦ (s.rows[i]?).any fun row ↦ row.status = .pending

def cancelRows (trip : Trip) : List PlacedOrder :=
  s.rows.mapIdx fun i row ↦
    if i ∈ trip.selected then
      { row with status := .cancelled, rejectionReason := some s!"Kill switch: {trip.reason}" }
    else row

def step : PlacementEvent → Option LiveOrders
  | .placeOrder process id symbol zerodha upstox =>
    if s.tripped process then some s
    else
      match buildBroker zerodha upstox with
      | none => some s
      | some broker =>
        if (s.calls.get? id).isSome then none
        else
          some ((s.withBroker (.request id) broker).add id
            ⟨.placeOrder, symbol, .request id, .ready 0⟩)
  | .executeSignal id symbol agent enabled =>
    if ¬ enabled then some s
    else if (s.calls.get? id).isSome then none
    else some (s.add id ⟨.executeSignal, symbol, .agent agent, .ready 0⟩)
  | .send id now =>
    match s.calls.get? id with
    | some ⟨_, symbol, key, .ready attempt⟩ =>
      let (broker, route) := (s.brokers key).placeOrder symbol now
      some ((s.withBroker key broker).advance id (routed attempt route))
    | _ => none
  | .primaryEnds id reply ack now =>
    match s.calls.get? id with
    | some ⟨path, symbol, key, .waiting attempt⟩ =>
      let (broker, outcome) := (s.brokers key).onPrimaryReply symbol reply now
      (s.withBroker key broker).afterPrimary id path attempt reply ack outcome
    | _ => none
  | .failOver id =>
    match s.calls.get? id with
    | some ⟨_, _, _, .failingOver attempt⟩ => some (s.advance id (.waitingFallback attempt))
    | _ => none
  | .fallbackEnds id reply ack =>
    match s.calls.get? id with
    | some ⟨path, _, _, .waitingFallback attempt⟩ =>
      if reply = .response then s.acknowledge id ack
      else some (s.advance id (s.afterError path attempt reply))
    | _ => none
  | .write id outcome =>
    match s.calls.get? id with
    | some ⟨path, symbol, key, .acknowledged ack⟩ =>
      let call : PlacementCall := ⟨path, symbol, key, .acknowledged ack⟩
      let s := if outcome.isCommitted then s.record call ack else s
      some (s.advance id (.ended ack))
    | _ => none
  | .trip process reason =>
    some
      { s with
        tripped := Function.update s.tripped process true
        trips := s.trips ++ [⟨process, reason, s.pendingRows⟩] }
  | .tripEnds n committed =>
    match s.trips[n]? with
    | none => none
    | some trip =>
      let s := { s with trips := s.trips.eraseIdx n }
      if committed then
        some
          { s with
            rows := s.cancelRows trip
            audit := s.audit ++ [⟨"KILL_SWITCH_TRIPPED", none⟩]
            barrier := Function.update s.barrier trip.process (s.tripped trip.process) }
      else some s
  | .reset process committed =>
    some
      { s with
        tripped := Function.update s.tripped process false
        barrier := Function.update s.barrier process false
        audit := s.audit ++ if committed then [⟨"KILL_SWITCH_RESET", none⟩] else [] }

/-- A call passes its check. -/
def Lets : PlacementEvent → Prop
  | .placeOrder process _ _ _ _ => s.tripped process = false
  | .executeSignal _ _ _ enabled => enabled
  | _ => False

/-- A trip returns, and no reset has come in between. -/
def Raises : PlacementEvent → Prop
  | .tripEnds n committed => committed ∧ ∃ trip, s.trips[n]? = some trip ∧ s.tripped trip.process
  | _ => False

/-- What a step does. -/
inductive Moves (s : LiveOrders) : PlacementEvent → LiveOrders → Prop
  | stays {e : PlacementEvent} (he : e.call = none) : Moves s e s
  | admits {e : PlacementEvent} {id : ℕ} {call : PlacementCall} {brokers : BrokerKey → Broker}
      (he : e.call = none) (hnew : s.calls.get? id = none) (hlets : s.Lets e)
      (hstage : call.stage = .ready 0) : Moves s e (add { s with brokers := brokers } id call)
  | advances {e : PlacementEvent} {id : ℕ} {call : PlacementCall} {brokers : BrokerKey → Broker}
      {stage : Stage} (he : e.call = some id) (hget : s.calls.get? id = some call)
      (hopen : call.stage.isDone = false) (hnone : stage.ack = none) :
      Moves s e (advance { s with brokers := brokers } id stage)
  | acknowledges {e : PlacementEvent} {id : ℕ} {call : PlacementCall} {brokers : BrokerKey → Broker}
      {ack : Acknowledgement} (he : e.call = some id) (hget : s.calls.get? id = some call)
      (hopen : call.stage.isDone = false) (hfresh : ack.brokerOrderId ∉ s.given) :
      Moves s e (advance (give { s with brokers := brokers } ack) id (.acknowledged ack))
  | writes {id : ℕ} {call : PlacementCall} {ack : Acknowledgement} {outcome : WriteOutcome}
      (hget : s.calls.get? id = some call) (hstage : call.stage = .acknowledged ack) :
      Moves s (.write id outcome)
        (advance (if outcome.isCommitted then s.record call ack else s) id (.ended ack))
  | settles {e : PlacementEvent} {trips : List Trip} {tripped barrier : ApiProcess → Bool}
      {rows : List PlacedOrder} {audit : List AuditNote} (he : e.call = none)
      (hbarrier : ∀ process, barrier process → s.barrier process ∨ s.Raises e)
      (hrows : rows.map PlacedOrder.brokerOrderId = s.rows.map PlacedOrder.brokerOrderId)
      (haudit : ∀ note ∈ audit, note.brokerOrderId = none) :
      Moves s e
        { s with
          trips := trips, tripped := tripped, barrier := barrier, rows := rows
          audit := s.audit ++ audit }

variable {s : LiveOrders} {t : LiveOrders} {e : PlacementEvent}

theorem ack_afterError (path : PlacementPath) (attempt : ℕ) (reply : Reply) :
    (s.afterError path attempt reply).ack = none := by
  simp only [afterError]
  split <;> rfl

theorem ack_routed (attempt : ℕ) (route : Route) : (routed attempt route).ack = none := by
  cases route <;> rfl

theorem acknowledge_moves {id : ℕ} {call : PlacementCall} {brokers : BrokerKey → Broker}
    {ack : Acknowledgement} (he : e.call = some id) (hget : s.calls.get? id = some call)
    (hopen : call.stage.isDone = false)
    (h : acknowledge { s with brokers := brokers } id ack = some t) : Moves s e t := by
  simp only [acknowledge] at h
  split_ifs at h with hgiven
  obtain rfl := Option.some.inj h
  exact .acknowledges he hget hopen hgiven

theorem brokerOrderId_cancelRows (s : LiveOrders) (trip : Trip) :
    (s.cancelRows trip).map PlacedOrder.brokerOrderId = s.rows.map PlacedOrder.brokerOrderId := by
  refine List.ext_getElem? fun i ↦ ?_
  simp only [cancelRows, List.getElem?_map, List.getElem?_mapIdx, Option.map_map]
  congr 1
  funext row
  simp only [Function.comp_apply]
  split <;> rfl

/-- The switch changes, and nothing is audited. -/
theorem settles_unaudited {trips : List Trip} {tripped : ApiProcess → Bool} (he : e.call = none) :
    Moves s e { s with trips := trips, tripped := tripped } := by
  have hsettles : Moves s e { s with trips := trips, tripped := tripped, audit := s.audit ++ [] } :=
    .settles he (fun _ ↦ .inl) rfl fun _ hnote ↦ absurd hnote List.not_mem_nil
  simpa only [List.append_nil] using hsettles

theorem placeOrder_moves {process : ApiProcess} {id : ℕ} {symbol : String} {zerodha upstox : Bool}
    (h : s.step (.placeOrder process id symbol zerodha upstox) = some t) :
    Moves s (.placeOrder process id symbol zerodha upstox) t := by
  simp only [step] at h
  split at h
  · obtain rfl := Option.some.inj h
    exact .stays rfl
  · next htripped =>
    split at h
    · obtain rfl := Option.some.inj h
      exact .stays rfl
    · split at h
      · cases h
      · next hnew =>
        obtain rfl := Option.some.inj h
        have hlets : s.tripped process = false := Bool.eq_false_iff.mpr htripped
        exact .admits rfl (Option.not_isSome_iff_eq_none.mp hnew) hlets rfl

theorem executeSignal_moves {id : ℕ} {symbol : String} {agent : ℕ} {enabled : Bool}
    (h : s.step (.executeSignal id symbol agent enabled) = some t) :
    Moves s (.executeSignal id symbol agent enabled) t := by
  simp only [step] at h
  split at h
  · obtain rfl := Option.some.inj h
    exact .stays rfl
  · next henabled =>
    split at h
    · cases h
    · next hnew =>
      obtain rfl := Option.some.inj h
      exact .admits rfl (Option.not_isSome_iff_eq_none.mp hnew) (not_not.mp henabled) rfl

theorem primaryEnds_moves {id : ℕ} {reply : Reply} {ack : Acknowledgement} {now : ℕ}
    (h : s.step (.primaryEnds id reply ack now) = some t) :
    Moves s (.primaryEnds id reply ack now) t := by
  simp only [step] at h
  split at h
  · next path symbol key attempt hget =>
    cases houtcome : ((s.brokers key).onPrimaryReply symbol reply now).2 with
    | returned =>
      rw [houtcome] at h
      exact acknowledge_moves rfl hget rfl h
    | raised =>
      rw [houtcome] at h
      obtain rfl := Option.some.inj h
      exact .advances rfl hget rfl (ack_afterError path attempt reply)
    | rerouted route =>
      rw [houtcome] at h
      obtain rfl := Option.some.inj h
      exact .advances rfl hget rfl (ack_routed _ _)
  · cases h

theorem fallbackEnds_moves {id : ℕ} {reply : Reply} {ack : Acknowledgement}
    (h : s.step (.fallbackEnds id reply ack) = some t) : Moves s (.fallbackEnds id reply ack) t := by
  simp only [step] at h
  split at h
  · next path symbol key attempt hget =>
    split_ifs at h
    · exact acknowledge_moves rfl hget rfl h
    · obtain rfl := Option.some.inj h
      exact .advances rfl hget rfl (ack_afterError path attempt reply)
  · cases h

/-- A trip that commits raises the barrier of its process, unless it was reset meanwhile. -/
theorem tripEnds_moves {n : ℕ} {committed : Bool} (h : s.step (.tripEnds n committed) = some t) :
    Moves s (.tripEnds n committed) t := by
  simp only [step] at h
  split at h
  · cases h
  · next trip htrip =>
    cases committed with
    | false =>
      obtain rfl := Option.some.inj h
      exact settles_unaudited rfl
    | true =>
      obtain rfl := Option.some.inj h
      refine .settles rfl (fun process hbarrier ↦ ?_) (brokerOrderId_cancelRows _ trip) (by simp)
      rw [Function.update_apply] at hbarrier
      split at hbarrier
      · exact .inr ⟨rfl, trip, htrip, hbarrier⟩
      · exact .inl hbarrier

theorem reset_moves (s : LiveOrders) (process : ApiProcess) (committed : Bool) :
    Moves s (.reset process committed)
      { s with
        tripped := Function.update s.tripped process false
        barrier := Function.update s.barrier process false
        audit := s.audit ++ if committed then [⟨"KILL_SWITCH_RESET", none⟩] else [] } := by
  refine .settles rfl (fun process' hbarrier ↦ ?_) rfl ?_
  · rw [Function.update_apply] at hbarrier
    split at hbarrier
    · cases hbarrier
    · exact .inl hbarrier
  · cases committed <;> simp

theorem step_moves (h : s.step e = some t) : Moves s e t := by
  cases e with
  | placeOrder process id symbol zerodha upstox => exact placeOrder_moves h
  | executeSignal id symbol agent enabled => exact executeSignal_moves h
  | send id now =>
    simp only [step] at h
    split at h
    · next path symbol key attempt hget =>
      obtain rfl := Option.some.inj h
      exact .advances rfl hget rfl (ack_routed _ _)
    · cases h
  | primaryEnds id reply ack now => exact primaryEnds_moves h
  | failOver id =>
    simp only [step] at h
    split at h
    · next hget =>
      obtain rfl := Option.some.inj h
      exact .advances rfl hget rfl rfl
    · cases h
  | fallbackEnds id reply ack => exact fallbackEnds_moves h
  | write id outcome =>
    simp only [step] at h
    split at h
    · next hget =>
      obtain rfl := Option.some.inj h
      exact .writes hget rfl
    · cases h
  | trip process reason =>
    obtain rfl := Option.some.inj h
    exact settles_unaudited rfl
  | tripEnds n committed => exact tripEnds_moves h
  | reset process committed =>
    obtain rfl := Option.some.inj h
    exact reset_moves s process committed

theorem get?_advance {id k : ℕ} {stage : Stage} {call : PlacementCall}
    (h : (s.advance id stage).calls.get? k = some call) :
    (k = id ∧ ∃ call', s.calls.get? id = some call' ∧ call = { call' with stage := stage }) ∨
      k ≠ id ∧ s.calls.get? k = some call := by
  rw [advance, Table.get?_modify] at h
  split at h
  · next hid =>
    obtain ⟨call', hcall', rfl⟩ := Option.map_eq_some_iff.mp h
    exact .inl ⟨hid, call', hid ▸ hcall', rfl⟩
  · next hid => exact .inr ⟨hid, h⟩

theorem get?_add {id k : ℕ} {call call' : PlacementCall}
    (h : (s.add id call).calls.get? k = some call') :
    call' = call ∨ s.calls.get? k = some call' := by
  rw [add, Table.get?_setdefault] at h
  split at h
  · next hid =>
    cases hget : s.calls.get? id with
    | none =>
      rw [hget] at h
      exact .inl (Option.some.inj h).symm
    | some old =>
      rw [hget] at h
      exact .inr (by rw [hid, hget]; exact h)
  · exact .inr h

end LiveOrders

end TradingOS.Live
