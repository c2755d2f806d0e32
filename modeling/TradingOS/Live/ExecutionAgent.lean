import TradingOS.Brokers.CircuitBreaker
import TradingOS.Lib.Runs
import TradingOS.Lib.Table

namespace TradingOS.Live

open Lib Lib.Runs Brokers

/-- One handing-over of an `OrderRequest` to the agent. -/
abbrev OrderId := ℕ

/-- Where `execute_signal` is with an order: between two attempts, waiting for a broker, or
at its end. -/
inductive Phase
  | attempting (attempt : ℕ)
  | awaitingPrimary (attempt : ℕ)
  | awaitingFallback (attempt : ℕ)
  | placed
  | raised
  deriving DecidableEq

inductive Venue
  | primary | fallback
  deriving DecidableEq

/-- An `OrderRequest` on its way, with the brokers that have accepted it so far. -/
structure Ticket where
  symbol : String
  phase : Phase
  acceptedBy : List Venue
  deriving DecidableEq

structure Desk where
  maxRetries : ℕ
  breaker : BrokerCircuitBreaker
  tickets : Table OrderId Ticket
  deriving DecidableEq

/-- One stretch of a coroutine between two awaits. A broker's answer says whether the order
was accepted, whatever its reply looks like. -/
inductive DeskEvent
  | executeSignal (order : OrderId) (symbol : String) (agentEnabled : Bool)
  | send (order : OrderId) (now : ℕ)
  | primaryEnds (order : OrderId) (accepted : Bool) (reply : Reply) (now : ℕ)
  | fallbackEnds (order : OrderId) (accepted : Bool) (reply : Reply)
  deriving DecidableEq

namespace Desk

variable (d : Desk)

def afterError (attempt : ℕ) (reply : Reply) : Phase :=
  if reply = .timeout ∧ attempt < d.maxRetries then .attempting (attempt + 1) else .raised

def routed (attempt : ℕ) : Route → Phase
  | .primary => .awaitingPrimary attempt
  | .fallback => .awaitingFallback attempt
  | .queue => .raised

def afterPrimary (attempt : ℕ) (reply : Reply) : PrimaryOutcome → Phase
  | .returned => .placed
  | .raised => d.afterError attempt reply
  | .rerouted route => routed attempt route

def afterFallback (attempt : ℕ) (reply : Reply) : Phase :=
  if reply = .response then .placed else d.afterError attempt reply

def advance (order : OrderId) (phase : Phase) (acceptance : Option Venue) : Desk :=
  { d with
    tickets := d.tickets.modify order fun t ↦
      { t with phase := phase, acceptedBy := acceptance.toList ++ t.acceptedBy } }

def step : DeskEvent → Option Desk
  | .executeSignal order symbol agentEnabled =>
    if agentEnabled then
      some { d with tickets := d.tickets.setdefault order ⟨symbol, .attempting 0, []⟩ }
    else some d
  | .send order now =>
    match d.tickets.get? order with
    | some ⟨symbol, .attempting attempt, _⟩ =>
      let (breaker, route) := d.breaker.placeOrder symbol now
      some ({ d with breaker := breaker }.advance order (routed attempt route) none)
    | _ => none
  | .primaryEnds order accepted reply now =>
    match d.tickets.get? order with
    | some ⟨symbol, .awaitingPrimary attempt, _⟩ =>
      let (breaker, outcome) := d.breaker.onPrimaryReply symbol reply now
      some ({ d with breaker := breaker }.advance order (d.afterPrimary attempt reply outcome)
        (if accepted then some .primary else none))
    | _ => none
  | .fallbackEnds order accepted reply =>
    match d.tickets.get? order with
    | some ⟨_, .awaitingFallback attempt, _⟩ =>
      some (d.advance order (d.afterFallback attempt reply)
        (if accepted then some .fallback else none))
    | _ => none

def init (maxRetries : ℕ) (breaker : BrokerCircuitBreaker) : Desk := ⟨maxRetries, breaker, .empty⟩

end Desk

def NoDuplicates (d : Desk) : Prop :=
  ∀ order t, d.tickets.get? order = some t → t.acceptedBy.length ≤ 1

/-- No call that accepted its order ends in an error after which the order is sent again: a
timeout with attempts left, or an error of the primary that trips the breaker while there is
a fallback. -/
def AcceptedNotResent (d : Desk) : DeskEvent → Desk → Prop
  | .primaryEnds order accepted reply _, _ =>
    ∀ symbol attempt venues, d.tickets.get? order = some ⟨symbol, .awaitingPrimary attempt, venues⟩ →
      accepted → ¬ (d.breaker.trips reply ∧ d.breaker.hasFallback) ∧
        ¬ (reply = .timeout ∧ ¬ d.breaker.trips reply ∧ attempt < d.maxRetries)
  | .fallbackEnds order accepted reply, _ =>
    ∀ symbol attempt venues, d.tickets.get? order = some ⟨symbol, .awaitingFallback attempt, venues⟩ →
      accepted → ¬ (reply = .timeout ∧ attempt < d.maxRetries)
  | _, _ => True

def Phase.isOpen : Phase → Bool
  | .attempting _ | .awaitingPrimary _ | .awaitingFallback _ => true
  | .placed | .raised => false

/-- What can still be sent has not been accepted. -/
def Ticket.Fresh (t : Ticket) : Prop :=
  t.acceptedBy.length ≤ 1 ∧ (t.phase.isOpen → t.acceptedBy = [])

def Desk.Fresh (d : Desk) : Prop := ∀ order t, d.tickets.get? order = some t → t.Fresh

theorem fresh_advance {d : Desk} (h : d.Fresh) {order : OrderId} {t : Ticket}
    (ht : d.tickets.get? order = some t) (hopen : t.phase.isOpen) {phase : Phase}
    {acceptance : Option Venue} (hphase : acceptance ≠ none → phase.isOpen = false) :
    (d.advance order phase acceptance).Fresh := by
  intro o u hu
  rw [Desk.advance, Table.get?_modify] at hu
  split at hu
  · next ho =>
    subst ho
    rw [ht, Option.map_some] at hu
    obtain rfl := Option.some.inj hu
    have hnil : t.acceptedBy = [] := (h o t ht).2 hopen
    cases acceptance with
    | none => exact ⟨by simp [hnil], fun _ ↦ by simpa using hnil⟩
    | some venue =>
      refine ⟨by simp [hnil], fun hphaseOpen ↦ ?_⟩
      cases hphaseOpen.symm.trans (hphase (by simp))
  · exact h o u hu

theorem afterError_closed {d : Desk} {attempt : ℕ} {reply : Reply}
    (h : ¬ (reply = .timeout ∧ attempt < d.maxRetries)) :
    (d.afterError attempt reply).isOpen = false := by
  rw [Desk.afterError, if_neg h]
  rfl

theorem afterPrimary_closed {d : Desk} {attempt : ℕ} {reply : Reply} (symbol : String) (now : ℕ)
    (hfailover : ¬ (d.breaker.trips reply ∧ d.breaker.hasFallback))
    (hretry : ¬ (reply = .timeout ∧ ¬ d.breaker.trips reply ∧ attempt < d.maxRetries)) :
    (d.afterPrimary attempt reply (d.breaker.onPrimaryReply symbol reply now).2).isOpen = false := by
  rw [BrokerCircuitBreaker.onPrimaryReply_outcome]
  split
  · rfl
  · split
    · next htrips =>
      rw [if_neg fun hfallback ↦ hfailover ⟨htrips, hfallback⟩]
      rfl
    · next htrips => exact afterError_closed fun h ↦ hretry ⟨h.1, htrips, h.2⟩

theorem step_fresh {d d' : Desk} {event : DeskEvent} (h : d.Fresh)
    (hok : AcceptedNotResent d event d') (hstep : d.step event = some d') : d'.Fresh := by
  cases event with
  | executeSignal order symbol agentEnabled =>
    simp only [Desk.step] at hstep
    split at hstep
    · obtain rfl := Option.some.inj hstep
      intro o u hu
      rw [Table.get?_setdefault] at hu
      split at hu
      · next ho =>
        obtain rfl := Option.some.inj hu
        cases hget : d.tickets.get? order with
        | none => exact ⟨Nat.zero_le _, fun _ ↦ rfl⟩
        | some t => exact h order t hget
      · exact h o u hu
    · obtain rfl := Option.some.inj hstep
      exact h
  | send order now =>
    simp only [Desk.step] at hstep
    split at hstep
    · next hget =>
      obtain rfl := Option.some.inj hstep
      exact fresh_advance (d := { d with breaker := _ }) h hget rfl fun hne ↦ absurd rfl hne
    · cases hstep
  | primaryEnds order accepted reply now =>
    simp only [Desk.step] at hstep
    split at hstep
    · next symbol attempt venues hget =>
      obtain rfl := Option.some.inj hstep
      refine fresh_advance (d := { d with breaker := _ }) h hget rfl fun hne ↦ ?_
      cases accepted with
      | false => exact absurd rfl hne
      | true =>
        obtain ⟨hfailover, hretry⟩ := hok symbol attempt venues hget rfl
        exact afterPrimary_closed symbol now hfailover hretry
    · cases hstep
  | fallbackEnds order accepted reply =>
    simp only [Desk.step] at hstep
    split at hstep
    · next symbol attempt venues hget =>
      obtain rfl := Option.some.inj hstep
      refine fresh_advance h hget rfl fun hne ↦ ?_
      cases accepted with
      | false => exact absurd rfl hne
      | true =>
        simp only [Desk.afterFallback]
        split
        · rfl
        · exact afterError_closed (hok symbol attempt venues hget rfl)
    · cases hstep

/-- In every interleaving of orders, retries, failovers and broker answers whose accepting
calls are not sent again, each order is accepted at most once over both brokers. -/
theorem no_duplicate_orders (maxRetries : ℕ) (breaker : BrokerCircuitBreaker)
    (events : List DeskEvent)
    (hok : Along Desk.step AcceptedNotResent (.init maxRetries breaker) events) :
    Along Desk.step (fun _ _ d ↦ NoDuplicates d) (.init maxRetries breaker) events := by
  have hinit : (Desk.init maxRetries breaker).Fresh := fun _ _ h ↦ by cases h
  refine along_of_invariant (fun d event d' h hok hstep ↦ ?_) hinit hok
  have hfresh := step_fresh h hok hstep
  exact ⟨hfresh, fun order t ht ↦ (hfresh order t ht).1⟩

theorem no_duplicate_orders_retried :
    Along Desk.step (fun _ _ d ↦ NoDuplicates d) (.init 3 (.init true))
      [.executeSignal 7 "TCS" true, .send 7 0, .primaryEnds 7 false .timeout 5, .send 7 6,
        .primaryEnds 7 true .response 7] := by
  apply no_duplicate_orders
  refine ⟨trivial, trivial, ?_, trivial, ?_, trivial⟩
  · rintro symbol attempt venues - h
    cases h
  · rintro symbol attempt venues - -
    refine ⟨by decide, ?_⟩
    rintro ⟨h, -⟩
    cases h

/-- The primary accepts the order, times out before answering, and is sent it again. -/
theorem timed_out_order_duplicated :
    ¬ Along Desk.step (fun _ _ d ↦ NoDuplicates d) (.init 3 (.init true))
      [.executeSignal 7 "TCS" true, .send 7 0, .primaryEnds 7 true .timeout 5, .send 7 6,
        .primaryEnds 7 true .response 7] := by
  intro h
  have hle := h.2.2.2.2.1 7 ⟨"TCS", .placed, [.primary, .primary]⟩ rfl
  revert hle
  decide

end TradingOS.Live
