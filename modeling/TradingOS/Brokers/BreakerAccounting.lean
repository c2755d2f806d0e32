import Mathlib.Data.List.TakeWhile
import Mathlib.Data.PNat.Basic
import TradingOS.Brokers.OpenCircuit
import TradingOS.Lib.Lists

namespace TradingOS.Brokers

open Lib Lib.Runs

inductive Broker
  | primary | fallback
  deriving DecidableEq

inductive Ending
  | acknowledged (broker : Broker)
  | raised
  | queued
  deriving DecidableEq

/-- An order, the time that passes before it, and what the brokers make of it: the primary's reply
and how long it takes, and the fallback's. -/
structure Order where
  after : ℕ
  symbol : String
  primary : Reply
  took : ℕ
  fallback : Reply
  deriving DecidableEq

/-- A breaker between two orders, and the primary's replies, the latest first. -/
structure Account where
  breaker : BrokerCircuitBreaker
  now : ℕ
  replies : List Reply
  deriving DecidableEq

structure Placed where
  account : Account
  calls : List (Broker × Reply)
  ending : Ending
  deriving DecidableEq

/-- What the order's caller sees of its way past the primary. `AdminAlert` goes with the queue. -/
def Route.ending (fallback : Reply) : Route → Ending
  | .primary | .fallback => if fallback = .response then .acknowledged .fallback else .raised
  | .queue => .queued

def Route.calls (fallback : Reply) : Route → List (Broker × Reply)
  | .primary | .fallback => [(.fallback, fallback)]
  | .queue => []

namespace Account

def begin (hasFallback : Bool) (failureThreshold : ℕ+) (cooldown : ℕ) : Account :=
  ⟨⟨hasFallback, failureThreshold, cooldown, .closed, 0, none, [], []⟩, 0, []⟩

/-- `place_order`, from its start to the end of the brokers' calls. -/
def place (s : Account) (o : Order) : Placed :=
  let now := s.now + o.after
  let (breaker, route) := s.breaker.placeOrder o.symbol now
  if route = .primary then
    let now := now + o.took
    let (breaker, outcome) := breaker.onPrimaryReply o.symbol o.primary now
    let account : Account := ⟨breaker, now, o.primary :: s.replies⟩
    match outcome with
    | .returned => ⟨account, [(.primary, o.primary)], .acknowledged .primary⟩
    | .raised => ⟨account, [(.primary, o.primary)], .raised⟩
    | .rerouted route =>
      ⟨account, (.primary, o.primary) :: route.calls o.fallback, route.ending o.fallback⟩
  else ⟨⟨breaker, now, s.replies⟩, route.calls o.fallback, route.ending o.fallback⟩

def step (s : Account) (o : Order) : Option Account := some (s.place o).account

/-- The breaker as the order finds it. -/
def found (s : Account) (o : Order) : BrokerCircuitBreaker :=
  s.breaker.maybeHalfOpen (s.now + o.after)

end Account

/-- The last `n` calls of the primary failed on its side. -/
def LastFailed (n : ℕ) (replies : List Reply) : Prop :=
  n ≤ replies.length ∧ (replies.take n).all Reply.isServerError

/-- The brokers that have acknowledged an order. -/
def acknowledgements (calls : List (Broker × Reply)) : List Broker :=
  (calls.filter (·.2 = .response)).map Prod.fst

/-- One broker has acknowledged the order, or none has, and only then is it queued. -/
def Placed.Settled (before : Account) (o : Order) (placed : Placed) : Prop :=
  let after := placed.account
  match placed.ending with
  | .acknowledged broker => acknowledgements placed.calls = [broker] ∧
      after.breaker.queuedOrders = before.breaker.queuedOrders
  | .raised => acknowledgements placed.calls = [] ∧
      after.breaker.queuedOrders = before.breaker.queuedOrders
  | .queued => acknowledgements placed.calls = [] ∧
      ∃ reason alert, after.breaker.queuedOrders =
          before.breaker.queuedOrders ++ [⟨o.symbol, after.now, reason⟩] ∧
        after.breaker.alerts = before.breaker.alerts ++ [alert]

/-- The circuit does what the replies of the primary say, and the order ends in one way. -/
structure Accounted (s : Account) (o : Order) (t : Account) : Prop where
  trips : (s.found o).state = .closed →
    (t.breaker.state = .opened ↔ LastFailed s.breaker.failureThreshold t.replies)
  probe : (s.found o).state = .halfOpen →
    (t.breaker.state = .opened ↔ o.primary.isServerError) ∧
      (t.breaker.state = .closed ↔ o.primary = .response)
  settled : (s.place o).Settled s o

/-- The calls of the primary since it last acknowledged an order. -/
def sinceAcknowledged (replies : List Reply) : List Reply := replies.takeWhile (· ≠ .response)

/-- Since then, no other failure has come between two on the server's side. -/
def Uninterrupted (replies : List Reply) : Prop :=
  ((sinceAcknowledged replies).dropWhile Reply.isServerError).all (¬ Reply.isServerError ·)

/-- The failure that the breaker's count reaches the threshold with has none but failures of the
server between it and the first that was counted. -/
def CountedInARow (s : Account) (o : Order) (_ : Account) : Prop :=
  (s.found o).state = .closed → o.primary.isServerError →
    s.breaker.failureThreshold ≤ s.breaker.consecutiveFailures + 1 → Uninterrupted s.replies

namespace BrokerCircuitBreaker

variable (b : BrokerCircuitBreaker) (symbol reason : String) (reply : Reply) (now : ℕ)

theorem onPrimaryReply_state : (b.onPrimaryReply symbol reply now).1.state =
    if reply = .response then .closed else if b.trips reply then .opened else b.state := by
  simp only [onPrimaryReply, trips]
  by_cases hresponse : reply = .response
  · simp [hresponse]
  · by_cases hserver : reply.isServerError = true
    · by_cases hhalf : b.state = .halfOpen
      · simp [hresponse, hserver, hhalf, routeToFallbackOrQueue_circuit, openCircuit]
      · by_cases hthreshold : b.failureThreshold ≤ b.consecutiveFailures + 1
        · simp [hresponse, hserver, hhalf, hthreshold, routeToFallbackOrQueue_circuit, openCircuit]
        · simp [hresponse, hserver, hhalf, hthreshold]
    · simp [hresponse, hserver]

theorem routeToFallbackOrQueue_count :
    let b' := (b.routeToFallbackOrQueue symbol reason now).1
    b'.failureThreshold = b.failureThreshold ∧ b'.consecutiveFailures = b.consecutiveFailures := by
  simp only [routeToFallbackOrQueue]
  split <;> exact ⟨rfl, rfl⟩

theorem onPrimaryReply_threshold :
    (b.onPrimaryReply symbol reply now).1.failureThreshold = b.failureThreshold := by
  simp only [onPrimaryReply]
  split_ifs
  · rfl
  · exact (routeToFallbackOrQueue_count _ _ _ _).1
  · exact (routeToFallbackOrQueue_count _ _ _ _).1
  · rfl
  · rfl

/-- In a closed circuit every failure of the server counts, and none but a success clears the
count. -/
theorem onPrimaryReply_count (hstate : b.state ≠ .halfOpen) :
    (b.onPrimaryReply symbol reply now).1.consecutiveFailures =
      if reply = .response then 0
      else b.consecutiveFailures + if reply.isServerError then 1 else 0 := by
  simp only [onPrimaryReply, hstate, if_false]
  split_ifs
  · rfl
  · exact (routeToFallbackOrQueue_count _ _ _ _).2
  · rfl
  · rfl

theorem maybeHalfOpen_cases : b.maybeHalfOpen now = b ∨
    b.state = .opened ∧ b.maybeHalfOpen now = { b with state := .halfOpen } := by
  simp only [maybeHalfOpen]
  split_ifs with h
  · exact .inr ⟨h.1, rfl⟩
  · exact .inl rfl

end BrokerCircuitBreaker

theorem lastFailed_iff_le {n : ℕ} {replies : List Reply} : LastFailed n replies ↔
    n ≤ ((sinceAcknowledged replies).takeWhile Reply.isServerError).length := by
  have hprefix : (sinceAcknowledged replies).takeWhile Reply.isServerError =
      replies.takeWhile Reply.isServerError := by
    rw [sinceAcknowledged, List.takeWhile_takeWhile]
    congr 1
    funext reply
    cases reply <;> simp [Reply.isServerError]
  rw [LastFailed, ← le_length_takeWhile_iff, hprefix]

/-- The failures counted since the last acknowledgement are the latest calls exactly if nothing
has come between them. -/
theorem lastFailed_iff (replies : List Reply) :
    LastFailed ((sinceAcknowledged replies).countP Reply.isServerError) replies ↔
      Uninterrupted replies := by
  rw [lastFailed_iff_le, Uninterrupted, countP_le_length_takeWhile_iff]

theorem LastFailed.le_countP {n : ℕ} {replies : List Reply} (h : LastFailed n replies) :
    n ≤ (sinceAcknowledged replies).countP Reply.isServerError := by
  have hall : ((sinceAcknowledged replies).takeWhile Reply.isServerError).countP
      Reply.isServerError = ((sinceAcknowledged replies).takeWhile Reply.isServerError).length :=
    List.countP_eq_length.mpr fun reply hreply ↦ List.mem_takeWhile_imp hreply
  exact (lastFailed_iff_le.mp h).trans
    (hall.symm.trans_le (List.takeWhile_sublist _).countP_le)

theorem lastFailed_cons {n : ℕ} {reply : Reply} {replies : List Reply} :
    LastFailed (n + 1) (reply :: replies) ↔ reply.isServerError ∧ LastFailed n replies := by
  simp [LastFailed, and_left_comm]

namespace Account

variable {s t : Account} {o : Order}

theorem place_opened (h : (s.found o).state = .opened) : s.place o =
    let now := s.now + o.after
    let routed := (s.found o).routeToFallbackOrQueue o.symbol "circuit open" now
    ⟨⟨routed.1, now, s.replies⟩, routed.2.calls o.fallback, routed.2.ending o.fallback⟩ := by
  have horder : s.breaker.placeOrder o.symbol (s.now + o.after) =
      (s.found o).routeToFallbackOrQueue o.symbol "circuit open" (s.now + o.after) := by
    rw [BrokerCircuitBreaker.placeOrder]
    exact if_pos h
  have hroute : ((s.found o).routeToFallbackOrQueue o.symbol "circuit open"
      (s.now + o.after)).2 ≠ .primary := by
    rw [BrokerCircuitBreaker.route_routeToFallbackOrQueue]
    split_ifs <;> simp
  simp only [place, horder, hroute, if_false]

theorem place_primary (h : (s.found o).state ≠ .opened) : s.place o =
    let now := s.now + o.after + o.took
    let replied := (s.found o).onPrimaryReply o.symbol o.primary now
    let account : Account := ⟨replied.1, now, o.primary :: s.replies⟩
    match replied.2 with
    | .returned => ⟨account, [(.primary, o.primary)], .acknowledged .primary⟩
    | .raised => ⟨account, [(.primary, o.primary)], .raised⟩
    | .rerouted route =>
      ⟨account, (.primary, o.primary) :: route.calls o.fallback, route.ending o.fallback⟩ := by
  have horder : s.breaker.placeOrder o.symbol (s.now + o.after) = (s.found o, .primary) := by
    rw [BrokerCircuitBreaker.placeOrder]
    exact if_neg h
  simp only [place, horder, if_true]

theorem account_place (h : (s.found o).state ≠ .opened) : (s.place o).account =
    ⟨((s.found o).onPrimaryReply o.symbol o.primary (s.now + o.after + o.took)).1,
      s.now + o.after + o.took, o.primary :: s.replies⟩ := by
  simp only [place_primary h]
  split <;> rfl

theorem found_cases (s : Account) (o : Order) : s.found o = s.breaker ∨
    s.breaker.state = .opened ∧ s.found o = { s.breaker with state := .halfOpen } :=
  s.breaker.maybeHalfOpen_cases _

theorem found_count (s : Account) (o : Order) :
    (s.found o).consecutiveFailures = s.breaker.consecutiveFailures ∧
      (s.found o).failureThreshold = s.breaker.failureThreshold ∧
      (s.found o).queuedOrders = s.breaker.queuedOrders ∧
      (s.found o).alerts = s.breaker.alerts := by
  rcases s.found_cases o with h | ⟨-, h⟩ <;> rw [h]
  · exact ⟨rfl, rfl, rfl, rfl⟩
  · exact ⟨rfl, rfl, rfl, rfl⟩

theorem found_closed (h : (s.found o).state = .closed) : s.breaker.state = .closed := by
  rcases s.found_cases o with hfound | ⟨-, hfound⟩ <;> rw [hfound] at h
  · exact h
  · cases h

/-- While the circuit is closed the count is that of the server's failures since it last
acknowledged an order, and below the threshold. -/
structure Counting (s : Account) : Prop where
  positive : 0 < s.breaker.failureThreshold
  closed : s.breaker.state = .closed →
    s.breaker.consecutiveFailures =
        (sinceAcknowledged s.replies).countP Reply.isServerError ∧
      s.breaker.consecutiveFailures < s.breaker.failureThreshold

theorem counting_begin (hasFallback : Bool) (failureThreshold : ℕ+) (cooldown : ℕ) :
    (begin hasFallback failureThreshold cooldown).Counting :=
  ⟨failureThreshold.pos, fun _ ↦ ⟨rfl, failureThreshold.pos⟩⟩

theorem countP_sinceAcknowledged (reply : Reply) (replies : List Reply) :
    (sinceAcknowledged (reply :: replies)).countP Reply.isServerError =
      if reply = .response then 0
      else (sinceAcknowledged replies).countP Reply.isServerError +
        if reply.isServerError then 1 else 0 := by
  by_cases h : reply = .response
  · simp [sinceAcknowledged, h]
  · simp [sinceAcknowledged, h, List.countP_cons]

theorem Counting.step (h : s.Counting) (hstep : s.step o = some t) : t.Counting := by
  obtain rfl := Option.some.inj hstep
  obtain ⟨hcount, hthreshold, -⟩ := s.found_count o
  by_cases hopened : (s.found o).state = .opened
  · have hcircuit := (s.found o).routeToFallbackOrQueue_circuit o.symbol "circuit open"
      (s.now + o.after)
    have hkept := (s.found o).routeToFallbackOrQueue_count o.symbol "circuit open"
      (s.now + o.after)
    rw [place_opened hopened]
    refine ⟨?_, fun hclosed ↦ ?_⟩
    · exact (hkept.1.trans hthreshold) ▸ h.positive
    · cases (hcircuit.1.trans hopened).symm.trans hclosed
  · rw [account_place hopened]
    refine ⟨?_, fun hclosed ↦ ?_⟩
    · rw [BrokerCircuitBreaker.onPrimaryReply_threshold, hthreshold]
      exact h.positive
    · rw [countP_sinceAcknowledged, BrokerCircuitBreaker.onPrimaryReply_threshold, hthreshold]
      rw [BrokerCircuitBreaker.onPrimaryReply_state] at hclosed
      split_ifs at hclosed with hresponse htrips
      · rw [hresponse]
        exact ⟨rfl, h.positive⟩
      · have hhalf : (s.found o).state ≠ .halfOpen := by
          rw [hclosed]
          exact fun he ↦ by cases he
        obtain ⟨hsame, hbelow⟩ := h.closed (found_closed hclosed)
        rw [BrokerCircuitBreaker.onPrimaryReply_count _ _ _ _ hhalf, hcount, ← hsame]
        refine ⟨rfl, ?_⟩
        rw [if_neg hresponse]
        by_cases hserver : o.primary.isServerError = true
        · simp [BrokerCircuitBreaker.trips, hserver, hhalf, hcount, hthreshold] at htrips
          simpa [hserver] using htrips
        · simpa [hserver] using hbelow

/-- The circuit is right to open, or to stay closed, exactly if the failures that its count reaches
the threshold with are in a row. -/
theorem Counting.trips_iff (h : s.Counting) (hclosed : (s.found o).state = .closed) :
    ((s.place o).account.breaker.state = .opened ↔
      LastFailed s.breaker.failureThreshold (s.place o).account.replies) ↔
        CountedInARow s o t := by
  have hfound : (s.found o).state ≠ .opened := by
    rw [hclosed]
    exact fun he ↦ by cases he
  obtain ⟨hcount, hthreshold, -⟩ := s.found_count o
  obtain ⟨hsame, hbelow⟩ := h.closed (found_closed hclosed)
  obtain ⟨m, hm⟩ := Nat.exists_eq_succ_of_ne_zero h.positive.ne'
  rw [account_place hfound, BrokerCircuitBreaker.onPrimaryReply_state, hclosed]
  simp only [hm, Nat.succ_eq_add_one, lastFailed_cons, CountedInARow, hclosed, forall_const,
    BrokerCircuitBreaker.trips, hcount, hthreshold]
  by_cases hserver : o.primary.isServerError = true
  · have hresponse : o.primary ≠ .response := by
      rintro he
      rw [he] at hserver
      cases hserver
    by_cases hreached : m + 1 ≤ s.breaker.consecutiveFailures + 1
    · have hlast : m = s.breaker.consecutiveFailures := by omega
      have hrow := lastFailed_iff s.replies
      rw [← hsame, ← hlast] at hrow
      simp [hresponse, hserver, hreached, hrow]
    · have hnot : ¬ LastFailed m s.replies := by
        intro hlast
        have hle := hlast.le_countP
        rw [← hsame] at hle
        omega
      simp [hresponse, hserver, hreached, hnot]
  · by_cases hresponse : o.primary = .response
    · simp [hresponse, Reply.isServerError]
    · simp [hresponse, hserver]

theorem probe_place (h : (s.found o).state = .halfOpen) :
    ((s.place o).account.breaker.state = .opened ↔ o.primary.isServerError) ∧
      ((s.place o).account.breaker.state = .closed ↔ o.primary = .response) := by
  have hfound : (s.found o).state ≠ .opened := by
    rw [h]
    exact fun he ↦ by cases he
  rw [account_place hfound, BrokerCircuitBreaker.onPrimaryReply_state, h]
  simp only [BrokerCircuitBreaker.trips, h]
  by_cases hresponse : o.primary = .response
  · simp [hresponse, Reply.isServerError]
  · by_cases hserver : o.primary.isServerError = true
    · simp [hresponse, hserver]
    · simp [hresponse, hserver]

/-- Past the primary, an order that nobody has acknowledged is so by the fallback, or it is not. -/
theorem settled_route {b : BrokerCircuitBreaker} (hqueued : b.queuedOrders = s.breaker.queuedOrders)
    (halerts : b.alerts = s.breaker.alerts) (reason : String) (now : ℕ) (replies : List Reply)
    {calls : List (Broker × Reply)} (hcalls : acknowledgements calls = []) :
    let routed := b.routeToFallbackOrQueue o.symbol reason now
    Placed.Settled s o ⟨⟨routed.1, now, replies⟩, calls ++ routed.2.calls o.fallback,
      routed.2.ending o.fallback⟩ := by
  have happend (call : Broker × Reply) : acknowledgements (calls ++ [call]) =
      acknowledgements [call] := by
    simp only [acknowledgements, List.filter_append, List.map_append] at hcalls ⊢
    rw [hcalls, List.nil_append]
  simp only [BrokerCircuitBreaker.routeToFallbackOrQueue]
  split_ifs
  · simp only [Route.calls, Route.ending]
    split_ifs with hresponse
    · exact ⟨(happend _).trans (by simp [acknowledgements, hresponse]), hqueued⟩
    · exact ⟨(happend _).trans (by simp [acknowledgements, hresponse]), hqueued⟩
  · simp only [Route.calls, Route.ending, List.append_nil]
    exact ⟨hcalls, reason, _, by rw [hqueued], by rw [halerts]⟩

theorem settled_place (s : Account) (o : Order) : (s.place o).Settled s o := by
  obtain ⟨-, -, hqueued, halerts⟩ := s.found_count o
  by_cases hopened : (s.found o).state = .opened
  · rw [place_opened hopened]
    have hcalls : acknowledgements [] = [] := rfl
    have hroute := settled_route (o := o) hqueued halerts "circuit open" (s.now + o.after) s.replies
      hcalls
    exact hroute
  · have hcalls (hresponse : o.primary ≠ .response) :
        acknowledgements [(.primary, o.primary)] = [] := by
      simp [acknowledgements, hresponse]
    rw [place_primary hopened]
    simp only [BrokerCircuitBreaker.onPrimaryReply]
    split_ifs with hresponse hserver hhalf hthreshold
    · exact ⟨by simp [acknowledgements, hresponse], hqueued⟩
    · exact settled_route (b := (s.found o).openCircuit _) hqueued halerts _ _ _ (hcalls hresponse)
    · let counted := { s.found o with
        consecutiveFailures := (s.found o).consecutiveFailures + 1 }
      exact settled_route (b := counted.openCircuit _) hqueued halerts _ _ _ (hcalls hresponse)
    · exact ⟨hcalls hresponse, hqueued⟩
    · exact ⟨hcalls hresponse, hqueued⟩

/-- For every history of orders, one after the other, and whatever the brokers make of them: the
circuit opens, closes and lets orders end as it should at every step exactly if, whenever its count
reaches the threshold, no other failure has come between the failures counted. -/
theorem breaker_accounting_iff (hasFallback : Bool) (failureThreshold : ℕ+) (cooldown : ℕ)
    (orders : List Order) :
    Along step Accounted (begin hasFallback failureThreshold cooldown) orders ↔
      Along step CountedInARow (begin hasFallback failureThreshold cooldown) orders := by
  refine along_iff_of_invariant (fun _ _ _ h hstep ↦ h.step hstep) (fun s o t h hstep ↦ ?_)
    (counting_begin hasFallback failureThreshold cooldown)
  obtain rfl := Option.some.inj hstep
  constructor
  · intro haccounted hclosed
    exact (h.trips_iff (t := (s.place o).account) hclosed).mp (haccounted.trips hclosed) hclosed
  · intro hrow
    exact ⟨fun hclosed ↦ (h.trips_iff hclosed).mpr hrow, probe_place, s.settled_place o⟩

section Example

def failing (symbol : String) (code : ℕ) : Order := ⟨1, symbol, .httpStatus code, 0, .response⟩

/-- A rejection comes between the first failure of the server and the next two. -/
def rejectionBetween : List Order :=
  [failing "INFY" 503, failing "TCS" 400, failing "SBIN" 503, failing "ITC" 503]

/-- The circuit opens, with only the last two calls having failed on the server's side. -/
theorem rejectionBetween_opens :
    (((exec step (begin true 3 60) rejectionBetween).map fun s ↦
      (s.breaker.state, s.replies)) =
        some (.opened, [.httpStatus 503, .httpStatus 503, .httpStatus 400, .httpStatus 503])) ∧
      ¬ Along step Accounted (begin true 3 60) rejectionBetween := by
  refine ⟨by decide +kernel, fun h ↦ ?_⟩
  obtain ⟨-, -, -, ⟨htrips, -, -⟩, -⟩ := h
  have hlast := (htrips (by decide +kernel)).mp (by decide +kernel)
  exact absurd hlast.2 (by decide +kernel)

end Example

end Account

end TradingOS.Brokers
