import Mathlib.Data.Nat.Notation

namespace TradingOS.Brokers

inductive CircuitState
  | closed | opened | halfOpen
  deriving DecidableEq

inductive Reply
  | response
  | httpStatus (code : ℕ)
  | timeout
  | transport
  | otherError
  deriving DecidableEq

/-- `_is_server_error`; timeouts are transport errors. -/
def Reply.isServerError : Reply → Bool
  | .httpStatus code => 500 ≤ code
  | .timeout | .transport => true
  | .response | .otherError => false

structure QueuedOrder where
  symbol : String
  queuedAt : ℕ
  reason : String
  deriving DecidableEq

structure BrokerCircuitBreaker where
  hasFallback : Bool
  failureThreshold : ℕ
  cooldown : ℕ
  state : CircuitState
  consecutiveFailures : ℕ
  openedAt : Option ℕ
  queuedOrders : List QueuedOrder
  alerts : List String
  deriving DecidableEq

inductive Route
  | primary | fallback | queue
  deriving DecidableEq

inductive PrimaryOutcome
  | returned
  | raised
  | rerouted (route : Route)
  deriving DecidableEq

namespace BrokerCircuitBreaker

def init (hasFallback : Bool) : BrokerCircuitBreaker :=
  ⟨hasFallback, 3, 60, .closed, 0, none, [], []⟩

variable (b : BrokerCircuitBreaker)

def openCircuit (now : ℕ) : BrokerCircuitBreaker := { b with state := .opened, openedAt := some now }

def maybeHalfOpen (now : ℕ) : BrokerCircuitBreaker :=
  if b.state = .opened ∧ b.openedAt.any fun openedAt ↦ openedAt + b.cooldown ≤ now then
    { b with state := .halfOpen }
  else b

/-- Without a fallback the order is queued and `AdminAlert` raised. -/
def routeToFallbackOrQueue (symbol reason : String) (now : ℕ) : BrokerCircuitBreaker × Route :=
  if b.hasFallback then
    let alert := s!"Circuit OPEN ({reason}) -- failing over order for {symbol}."
    ({ b with alerts := b.alerts ++ [alert] }, .fallback)
  else
    let alert :=
      s!"Order for {symbol} queued ({reason}) -- primary down, no fallback available."
    ({ b with
        queuedOrders := b.queuedOrders ++ [⟨symbol, now, reason⟩]
        alerts := b.alerts ++ [alert] }, .queue)

/-- `place_order` up to its first call of a broker. -/
def placeOrder (symbol : String) (now : ℕ) : BrokerCircuitBreaker × Route :=
  let b := b.maybeHalfOpen now
  if b.state = .opened then b.routeToFallbackOrQueue symbol "circuit open" now else (b, .primary)

/-- A server error opens the circuit: a failed probe at once, others at the threshold. -/
def trips (reply : Reply) : Bool :=
  reply.isServerError ∧ (b.state = .halfOpen ∨ b.failureThreshold ≤ b.consecutiveFailures + 1)

/-- `place_order` from the end of the primary's call on. -/
def onPrimaryReply (symbol : String) (reply : Reply) (now : ℕ) :
    BrokerCircuitBreaker × PrimaryOutcome :=
  if reply = .response then ({ b with consecutiveFailures := 0, state := .closed }, .returned)
  else if ¬ reply.isServerError then (b, .raised)
  else if b.state = .halfOpen then
    let (b, route) := (b.openCircuit now).routeToFallbackOrQueue symbol "half-open probe failed" now
    (b, .rerouted route)
  else
    let failures := b.consecutiveFailures + 1
    let b := { b with consecutiveFailures := failures }
    if b.failureThreshold ≤ failures then
      let (b, route) := (b.openCircuit now).routeToFallbackOrQueue symbol
        s!"{failures} consecutive 5XX errors" now
      (b, .rerouted route)
    else (b, .raised)

theorem route_routeToFallbackOrQueue (symbol reason : String) (now : ℕ) :
    (b.routeToFallbackOrQueue symbol reason now).2 = if b.hasFallback then .fallback else .queue := by
  simp only [routeToFallbackOrQueue]
  split <;> rfl

theorem onPrimaryReply_outcome (symbol : String) (reply : Reply) (now : ℕ) :
    (b.onPrimaryReply symbol reply now).2 =
      if reply = .response then .returned
      else if b.trips reply then .rerouted (if b.hasFallback then .fallback else .queue)
      else .raised := by
  simp only [onPrimaryReply, trips]
  by_cases hresp : reply = .response
  · simp only [hresp, if_true]
  · by_cases hserver : reply.isServerError = true
    · by_cases hhalf : b.state = .halfOpen
      · simp [hresp, hserver, hhalf, route_routeToFallbackOrQueue, openCircuit]
      · by_cases hthr : b.failureThreshold ≤ b.consecutiveFailures + 1
        · simp [hresp, hserver, hhalf, hthr, route_routeToFallbackOrQueue, openCircuit]
        · simp [hresp, hserver, hhalf, hthr]
    · simp [hresp, hserver]

end BrokerCircuitBreaker

end TradingOS.Brokers
