import TradingOS.Brokers.OpenCircuit
import TradingOS.Live.OrderPlacement

namespace TradingOS.Live

open Lib Lib.Runs Brokers

/-- The endpoint with the breakers of the requests whose call of the primary is under way. Beside it
one breaker is given the whole sequence of orders and replies, and the server errors are counted
since the primary's last answer. -/
structure BrokerWiring where
  upstox : Bool
  now : ℕ
  requests : List (String × BrokerCircuitBreaker)
  shared : BrokerCircuitBreaker
  failures : ℕ

namespace BrokerWiring

def begin (upstox : Bool) : BrokerWiring := ⟨upstox, 0, [], .init upstox, 0⟩

def countFailure (failures : ℕ) (reply : Reply) : ℕ :=
  if reply = .response then 0 else if reply.isServerError then failures + 1 else failures

/-- The breaker of a request goes when the request ends. -/
def step (s : BrokerWiring) : RouterEvent → Option BrokerWiring
  | .tick duration => some { s with now := s.now + duration }
  | .placeOrder symbol =>
    match buildBroker true s.upstox with
    | some (.breaker own) =>
      let (own, route) := own.placeOrder symbol s.now
      some
        { s with
          requests := if route = .primary then s.requests ++ [(symbol, own)] else s.requests
          shared := (s.shared.placeOrder symbol s.now).1 }
    | _ => none
  | .reply call reply =>
    (s.requests[call]?).map fun request ↦
      { s with
        requests := s.requests.eraseIdx call
        shared := (s.shared.onPrimaryReply request.1 reply s.now).1
        failures := countFailure s.failures reply }

/-- A request finds the queue of the one breaker and goes where that would send it, past the primary
while its circuit cools down; and it ends as that would end it. -/
def ActsAsOne (s : BrokerWiring) : RouterEvent → BrokerWiring → Prop
  | .tick _, _ => True
  | .placeOrder symbol, _ => ∀ own, buildBroker true s.upstox = some (.breaker own) →
    own.queuedOrders = s.shared.queuedOrders ∧
      (own.placeOrder symbol s.now).2 = (s.shared.placeOrder symbol s.now).2 ∧
      (s.shared.isCooling s.now → (own.placeOrder symbol s.now).2 ≠ .primary)
  | .reply call reply, _ => ∀ request, s.requests[call]? = some request →
    (request.2.onPrimaryReply request.1 reply s.now).2 =
      (s.shared.onPrimaryReply request.1 reply s.now).2

/-- The server errors in a row stay below the threshold. -/
def BelowThreshold (s : BrokerWiring) : RouterEvent → BrokerWiring → Prop
  | .reply _ reply, _ => countFailure s.failures reply < (BrokerCircuitBreaker.init s.upstox).failureThreshold
  | _, _ => True

/-- Nothing has tripped yet. -/
structure Untripped (s : BrokerWiring) : Prop where
  below : s.failures < (BrokerCircuitBreaker.init s.upstox).failureThreshold
  shared : s.shared = { BrokerCircuitBreaker.init s.upstox with consecutiveFailures := s.failures }
  requests : ∀ request ∈ s.requests, request.2 = .init s.upstox

theorem untripped_begin (upstox : Bool) : (begin upstox).Untripped :=
  ⟨Nat.succ_pos 2, rfl, nofun⟩

section Closed

variable (upstox : Bool) (failures : ℕ) (symbol : String) (reply : Reply) (now : ℕ)

/-- The breaker as `build_broker` makes it, but for the failures it has counted. -/
def counted : BrokerCircuitBreaker :=
  { BrokerCircuitBreaker.init upstox with consecutiveFailures := failures }

theorem placeOrder_counted :
    (counted upstox failures).placeOrder symbol now = (counted upstox failures, .primary) := rfl

theorem onPrimaryReply_counted
    (h : countFailure failures reply < (BrokerCircuitBreaker.init upstox).failureThreshold) :
    (counted upstox failures).onPrimaryReply symbol reply now =
      (counted upstox (countFailure failures reply),
        if reply = .response then .returned else .raised) := by
  simp only [countFailure] at h ⊢
  simp only [BrokerCircuitBreaker.onPrimaryReply]
  by_cases hresponse : reply = .response
  · simp only [hresponse, if_true]
    rfl
  · simp only [hresponse, if_false] at h ⊢
    by_cases hserver : reply.isServerError
    · simp only [hserver, if_true, not_true, if_false] at h ⊢
      have hbelow : ¬ (counted upstox failures).failureThreshold ≤
          (counted upstox failures).consecutiveFailures + 1 := Nat.not_le.mpr h
      rw [if_neg (fun hstate ↦ by cases hstate), if_neg hbelow]
      rfl
    · simp only [hserver, Bool.false_eq_true, not_false_eq_true, if_true, if_false]

theorem outcome_counted_of_threshold
    (h : (BrokerCircuitBreaker.init upstox).failureThreshold ≤ countFailure failures reply)
    (hfailures : failures < (BrokerCircuitBreaker.init upstox).failureThreshold) :
    ∃ route, ((counted upstox failures).onPrimaryReply symbol reply now).2 = .rerouted route := by
  have hserver : reply ≠ .response ∧ reply.isServerError := by
    simp only [countFailure] at h
    split_ifs at h with hresponse hserver
    · exact absurd h (Nat.not_succ_le_zero 2)
    · exact ⟨hresponse, hserver⟩
    · exact absurd h (Nat.not_le.mpr hfailures)
  have hcount : countFailure failures reply = failures + 1 := by
    rw [countFailure, if_neg hserver.1, if_pos hserver.2]
  have htrips : (counted upstox failures).trips reply :=
    decide_eq_true ⟨hserver.2, .inr (hcount ▸ h)⟩
  rw [BrokerCircuitBreaker.onPrimaryReply_outcome, if_neg hserver.1, if_pos htrips]
  exact ⟨_, rfl⟩

end Closed

variable {s t : BrokerWiring} {e : RouterEvent}

theorem Untripped.step_iff (h : s.Untripped) (hstep : s.step e = some t) :
    (s.ActsAsOne e t ↔ s.BelowThreshold e t) ∧ (s.BelowThreshold e t → t.Untripped) := by
  have hshared : s.shared = counted s.upstox s.failures := h.shared
  cases e with
  | tick duration =>
    obtain rfl := Option.some.inj hstep
    exact ⟨Iff.rfl, fun _ ↦ ⟨h.below, h.shared, h.requests⟩⟩
  | placeOrder symbol =>
    obtain rfl := Option.some.inj hstep
    refine ⟨iff_of_true ?_ trivial, fun _ ↦ ⟨h.below, ?_, ?_⟩⟩
    · intro own hown
      obtain rfl := Broker.breaker.inj (Option.some.inj hown)
      rw [hshared]
      exact ⟨rfl, rfl, fun hcooling ↦ absurd hcooling Bool.false_ne_true⟩
    · simp only [hshared, placeOrder_counted]
      rfl
    · intro request hrequest
      rcases List.mem_append.mp hrequest with hold | hnew
      · exact h.requests request hold
      · obtain rfl := List.mem_singleton.mp hnew
        rfl
  | reply call reply =>
    obtain ⟨request, hrequest, rfl⟩ := Option.map_eq_some_iff.mp hstep
    have hown : request.2 = counted s.upstox 0 :=
      h.requests request (List.mem_of_getElem? hrequest)
    have hfirst : countFailure 0 reply < (BrokerCircuitBreaker.init s.upstox).failureThreshold := by
      have hle : countFailure 0 reply ≤ 1 := by
        simp only [countFailure]
        split_ifs <;> omega
      exact Nat.lt_of_le_of_lt hle (Nat.one_lt_succ_succ 1)
    have hacts (u : BrokerWiring) : s.ActsAsOne (.reply call reply) u ↔
        (if reply = .response then PrimaryOutcome.returned else .raised) =
          ((counted s.upstox s.failures).onPrimaryReply request.1 reply s.now).2 := by
      simp only [ActsAsOne, hrequest, Option.some.injEq, forall_eq', hown, hshared,
        onPrimaryReply_counted _ _ _ _ _ hfirst]
    rw [hacts]
    by_cases hbelow : countFailure s.failures reply <
        (BrokerCircuitBreaker.init s.upstox).failureThreshold
    · have hreply := onPrimaryReply_counted s.upstox s.failures request.1 reply s.now hbelow
      rw [hreply]
      refine ⟨iff_of_true rfl hbelow, fun _ ↦ ⟨hbelow, ?_, fun other hother ↦ ?_⟩⟩
      · simp only [hshared, hreply]
        rfl
      · exact h.requests other (List.mem_of_mem_eraseIdx hother)
    · obtain ⟨route, hroute⟩ := outcome_counted_of_threshold s.upstox s.failures request.1 reply s.now
        (Nat.not_lt.mp hbelow) h.below
      rw [hroute]
      refine ⟨iff_of_false ?_ hbelow, fun hlt ↦ absurd hlt hbelow⟩
      split <;> nofun

/-- The order endpoint, which builds a breaker for each request, acts as one breaker for the process
exactly as long as no such breaker would have tripped. -/
theorem acts_as_one_iff (upstox : Bool) (events : List RouterEvent) :
    Along step ActsAsOne (begin upstox) events ↔ Along step BelowThreshold (begin upstox) events := by
  constructor
  · refine along_of_invariant (fun s e t hs hacts hstep ↦ ?_) (untripped_begin upstox)
    obtain ⟨hiff, hkeep⟩ := hs.step_iff hstep
    exact ⟨hkeep (hiff.mp hacts), hiff.mp hacts⟩
  · refine along_of_invariant (fun s e t hs hbelow hstep ↦ ?_) (untripped_begin upstox)
    obtain ⟨hiff, hkeep⟩ := hs.step_iff hstep
    exact ⟨hkeep hbelow, hiff.mpr hbelow⟩

/-- Three requests in a row have failed at the primary, and the fourth reaches it all the same. -/
theorem fourth_reaches_primary :
    ¬ Along step ActsAsOne (begin true)
      [.placeOrder "INFY", .reply 0 (.httpStatus 503), .placeOrder "TCS", .reply 0 (.httpStatus 503),
        .placeOrder "SBIN", .reply 0 (.httpStatus 503), .placeOrder "ITC"] := by
  intro h
  obtain ⟨-, h⟩ := (along_cons rfl).mp h
  obtain ⟨-, h⟩ := (along_cons rfl).mp h
  obtain ⟨-, h⟩ := (along_cons rfl).mp h
  obtain ⟨-, h⟩ := (along_cons rfl).mp h
  obtain ⟨-, h⟩ := (along_cons rfl).mp h
  obtain ⟨-, h⟩ := (along_cons rfl).mp h
  obtain ⟨hacts, -⟩ := (along_cons rfl).mp h
  obtain ⟨-, -, hpast⟩ := hacts _ rfl
  exact hpast (by decide +kernel) rfl

end BrokerWiring

end TradingOS.Live
