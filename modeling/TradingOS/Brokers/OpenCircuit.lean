import Mathlib.Tactic.SplitIfs
import TradingOS.Brokers.CircuitBreaker
import TradingOS.Lib.Runs

namespace TradingOS.Brokers

open Lib Lib.Runs

namespace BrokerCircuitBreaker

variable (b : BrokerCircuitBreaker) (symbol reason : String) (reply : Reply) (now : ℕ)

/-- The circuit was opened less than a cooldown ago. -/
def isCooling : Bool := b.openedAt.any fun openedAt ↦ now < openedAt + b.cooldown

def Shielded : Prop := b.isCooling now → b.state = .opened

theorem isCooling_congr {b b' : BrokerCircuitBreaker} (hopened : b'.openedAt = b.openedAt)
    (hcooldown : b'.cooldown = b.cooldown) (now : ℕ) : b'.isCooling now = b.isCooling now := by
  simp only [isCooling, hopened, hcooldown]

theorem routeToFallbackOrQueue_circuit :
    let b' := (b.routeToFallbackOrQueue symbol reason now).1
    b'.state = b.state ∧ b'.openedAt = b.openedAt ∧ b'.cooldown = b.cooldown := by
  simp only [routeToFallbackOrQueue]
  split <;> exact ⟨rfl, rfl, rfl⟩

/-- What the end of a call of the primary does to the circuit. -/
theorem onPrimaryReply_circuit :
    let b' := (b.onPrimaryReply symbol reply now).1
    b'.cooldown = b.cooldown ∧
      (reply = .response ∧ b'.state = .closed ∧ b'.openedAt = b.openedAt ∨
        reply ≠ .response ∧ b'.state = .opened ∧ b'.openedAt = some now ∨
        reply ≠ .response ∧ b'.state = b.state ∧ b'.openedAt = b.openedAt) := by
  simp only [onPrimaryReply]
  split_ifs with hresponse hserver hhalf hthreshold
  · exact ⟨rfl, .inl ⟨hresponse, rfl, rfl⟩⟩
  · obtain ⟨hstate, hopened, hcooldown⟩ := routeToFallbackOrQueue_circuit (b.openCircuit now) symbol
      "half-open probe failed" now
    exact ⟨hcooldown, .inr (.inl ⟨hresponse, hstate, hopened⟩)⟩
  · obtain ⟨hstate, hopened, hcooldown⟩ := routeToFallbackOrQueue_circuit
      ({ b with consecutiveFailures := b.consecutiveFailures + 1 }.openCircuit now) symbol
      s!"{b.consecutiveFailures + 1} consecutive 5XX errors" now
    exact ⟨hcooldown, .inr (.inl ⟨hresponse, hstate, hopened⟩)⟩
  · exact ⟨rfl, .inr (.inr ⟨hresponse, rfl, rfl⟩)⟩
  · exact ⟨rfl, .inr (.inr ⟨hresponse, rfl, rfl⟩)⟩

variable {b now}

/-- While it cools down an open circuit routes past the primary and stays as it is. -/
theorem placeOrder_cooling (hcooling : b.isCooling now) (hopen : b.state = .opened) :
    b.placeOrder symbol now = b.routeToFallbackOrQueue symbol "circuit open" now := by
  have hhalf : b.maybeHalfOpen now = b := by
    obtain ⟨openedAt, hopened, hlt⟩ := (Option.any_eq_true _ _).mp hcooling
    simp only [maybeHalfOpen, hopened, Option.any_some]
    rw [if_neg]
    simpa [hopen] using hlt
  simp only [placeOrder, hhalf, hopen, if_true]

theorem maybeHalfOpen_circuit (b : BrokerCircuitBreaker) (now : ℕ) :
    (b.maybeHalfOpen now).openedAt = b.openedAt ∧ (b.maybeHalfOpen now).cooldown = b.cooldown := by
  simp only [maybeHalfOpen]
  split_ifs <;> exact ⟨rfl, rfl⟩

theorem isCooling_placeOrder : (b.placeOrder symbol now).1.isCooling now = b.isCooling now := by
  obtain ⟨hopened, hcooldown⟩ := b.maybeHalfOpen_circuit now
  simp only [placeOrder]
  split_ifs
  · obtain ⟨-, hopened', hcooldown'⟩ :=
      (b.maybeHalfOpen now).routeToFallbackOrQueue_circuit symbol "circuit open" now
    exact isCooling_congr (hopened'.trans hopened) (hcooldown'.trans hcooldown) now
  · exact isCooling_congr hopened hcooldown now

end BrokerCircuitBreaker

/-- A breaker, the time, and the orders whose calls of the primary are under way. -/
structure Router where
  breaker : BrokerCircuitBreaker
  now : ℕ
  inFlight : List String
  deriving DecidableEq

inductive RouterEvent
  | tick (duration : ℕ)
  | placeOrder (symbol : String)
  | reply (call : ℕ) (reply : Reply)
  deriving DecidableEq

namespace Router

def init (hasFallback : Bool) (failureThreshold cooldown : ℕ) : Router :=
  ⟨⟨hasFallback, failureThreshold, cooldown, .closed, 0, none, [], []⟩, 0, []⟩

variable (s : Router)

/-- The breaker moves only between the awaits of its calls. -/
def step : RouterEvent → Option Router
  | .tick duration => some { s with now := s.now + duration }
  | .placeOrder symbol =>
    let (breaker, route) := s.breaker.placeOrder symbol s.now
    some { s with
      breaker := breaker
      inFlight := if route = .primary then s.inFlight ++ [symbol] else s.inFlight }
  | .reply call reply =>
    (s.inFlight[call]?).map fun symbol ↦
      { s with
        breaker := (s.breaker.onPrimaryReply symbol reply s.now).1
        inFlight := s.inFlight.eraseIdx call }

/-- No call that starts while the circuit cools down reaches the primary. -/
def StaysAway (s : Router) (event : RouterEvent) : Prop :=
  ∀ symbol, event = .placeOrder symbol → s.breaker.isCooling s.now →
    (s.breaker.placeOrder symbol s.now).2 ≠ .primary

/-- No call of the primary succeeds while the circuit cools down. -/
def NoEarlySuccess (s : Router) (event : RouterEvent) : Prop :=
  ∀ call, event = .reply call .response → ¬ s.breaker.isCooling s.now

variable {s} {t : Router} {event : RouterEvent}

theorem shielded_step (hs : s.breaker.Shielded s.now) (h : s.step event = some t) :
    t.breaker.Shielded t.now ∧ StaysAway s event ↔ NoEarlySuccess s event := by
  cases event with
  | tick duration =>
    obtain rfl := Option.some.inj h
    refine iff_of_true ⟨fun hcooling ↦ hs ?_, fun _ he ↦ by cases he⟩ (fun _ he ↦ by cases he)
    obtain ⟨openedAt, hopened, hlt⟩ := (Option.any_eq_true _ _).mp hcooling
    have hearlier : s.now < openedAt + s.breaker.cooldown := by
      have hlater := of_decide_eq_true hlt
      dsimp only at hlater
      omega
    exact (Option.any_eq_true _ _).mpr ⟨openedAt, hopened, decide_eq_true hearlier⟩
  | placeOrder symbol =>
    obtain rfl := Option.some.inj h
    refine iff_of_true ⟨fun hcooling ↦ ?_, fun symbol' he hcooling ↦ ?_⟩ (fun _ he ↦ by cases he)
    · have hcooling' : s.breaker.isCooling s.now :=
        (BrokerCircuitBreaker.isCooling_placeOrder symbol).symm.trans hcooling
      have hopen := hs hcooling'
      obtain ⟨hstate, -⟩ := s.breaker.routeToFallbackOrQueue_circuit symbol "circuit open" s.now
      have hroute := BrokerCircuitBreaker.placeOrder_cooling symbol hcooling' hopen
      show (s.breaker.placeOrder symbol s.now).1.state = .opened
      rw [hroute]
      exact hstate.trans hopen
    · obtain rfl := RouterEvent.placeOrder.inj he
      rw [BrokerCircuitBreaker.placeOrder_cooling symbol hcooling (hs hcooling),
        BrokerCircuitBreaker.route_routeToFallbackOrQueue]
      split_ifs <;> simp
  | reply call reply =>
    obtain ⟨symbol, -, rfl⟩ := Option.map_eq_some_iff.mp h
    obtain ⟨hcooldown, hcircuit⟩ := s.breaker.onPrimaryReply_circuit symbol reply s.now
    have hstays : StaysAway s (.reply call reply) := fun _ he ↦ by cases he
    rw [and_iff_left hstays]
    rcases hcircuit with ⟨rfl, hstate, hopened⟩ | ⟨hne, hstate, -⟩ | ⟨hne, hstate, hopened⟩
    · -- A success closes the circuit, whatever it finds.
      have hsame := BrokerCircuitBreaker.isCooling_congr hopened hcooldown s.now
      have hearly : NoEarlySuccess s (.reply call .response) ↔ ¬ s.breaker.isCooling s.now :=
        ⟨fun h ↦ h call rfl, fun h _ _ ↦ h⟩
      simp only [BrokerCircuitBreaker.Shielded, hsame, hstate, hearly]
      simp
    · refine iff_of_true (fun _ ↦ hstate) fun _ he ↦ ?_
      exact absurd (RouterEvent.reply.inj he).2 hne
    · have hsame := BrokerCircuitBreaker.isCooling_congr hopened hcooldown s.now
      refine iff_of_true (fun hcooling ↦ hstate.trans (hs (hsame.symm.trans hcooling))) fun _ he ↦ ?_
      exact absurd (RouterEvent.reply.inj he).2 hne

theorem shielded_init (hasFallback : Bool) (failureThreshold cooldown : ℕ) :
    (init hasFallback failureThreshold cooldown).breaker.Shielded 0 := by
  intro hcooling
  cases hcooling

/-- In every run the circuit stays open for its cooldown, and no call that starts meanwhile reaches
the primary, exactly if no call that was under way succeeds in that time. -/
theorem open_circuit_shields_iff (hasFallback : Bool) (failureThreshold cooldown : ℕ)
    (events : List RouterEvent) :
    Along step (fun s event t ↦ t.breaker.Shielded t.now ∧ StaysAway s event)
        (init hasFallback failureThreshold cooldown) events ↔
      Along step (fun s event _ ↦ NoEarlySuccess s event)
        (init hasFallback failureThreshold cooldown) events := by
  refine along_step_iff (fun s event t hs h ↦ ?_)
    (shielded_init hasFallback failureThreshold cooldown)
  exact shielded_step hs h

/-- Four calls overlap: three of them fail and open the circuit, and the fourth succeeds after it. -/
def overlapping : List RouterEvent :=
  [.placeOrder "INFY", .placeOrder "TCS", .placeOrder "SBIN", .placeOrder "ITC",
    .reply 0 (.httpStatus 503), .reply 0 (.httpStatus 503), .reply 0 .timeout, .tick 1,
    .reply 0 .response]

/-- The circuit is closed one second after it was opened, and the next call goes to the primary. -/
theorem late_success_closes : ∃ s, Run step (init true 3 60) overlapping s ∧
    s.breaker.openedAt = some 0 ∧ s.now = 1 ∧ s.breaker.state = .closed ∧
      (s.breaker.placeOrder "RELIANCE" s.now).2 = .primary := by
  refine ⟨_, exec_eq_some.mp (Option.some_get (by decide +kernel)).symm, ?_, ?_, ?_, ?_⟩
  · decide +kernel
  · decide +kernel
  · decide +kernel
  · decide +kernel

end Router

end TradingOS.Brokers
