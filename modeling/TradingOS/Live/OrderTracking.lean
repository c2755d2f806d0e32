import TradingOS.Brokers.OrderBook

namespace TradingOS.Live.OrderTracking

open Brokers.OrderBook (RawOrder OrderError BookAnswer Adapter Texts)

/-- What becomes of a database write: it is committed, or it raises, and then the commit may have
reached the database before the answer was lost. -/
inductive WriteOutcome
  | committed
  | raises (applied : Bool)
  deriving DecidableEq

/-- What one turn of the polling loop meets. -/
structure Poll where
  answer : BookAnswer
  write : WriteOutcome
  now : ℕ

inductive Ending
  | terminal (finalStatus : OrderStatus)
  | timedOutPolling
  | raisedByBroker (error : OrderError)
  | raisedByDatabase

def response (o : Brokers.OrderBook.OrderResponse) : OrderResponse := ⟨o.status, o.rejectionReason⟩

/-- `_update_order_row` and its commit, where nobody else writes the row. -/
def updateOrderRow (row : OrderRow) (o : OrderResponse) (now : ℕ) : OrderRow :=
  match ((OrderTable.init row).updateOrderRow o now).assigned with
  | some assigned => (OrderTable.init row).write row assigned
  | none => row

section Tracking

variable (texts : Texts) (broker : Adapter) (brokerOrderId : String)

/-- The loop over the polls that are left, from the row as it stands. -/
def trackFrom (row : OrderRow) : List Poll → OrderRow × Ending
  | [] => (row, .timedOutPolling)
  | poll :: polls =>
    match broker.getOrderBook texts poll.answer with
    | .error e => (row, .raisedByBroker e)
    | .ok orderBook =>
      match orderBook.find? (·.brokerOrderId = brokerOrderId) with
      | none => trackFrom row polls
      | some o =>
        let updated := updateOrderRow row (response o) poll.now
        match poll.write with
        | .raises applied => (if applied then updated else row, .raisedByDatabase)
        | .committed =>
          if o.status.isTerminal then (updated, .terminal o.status) else trackFrom updated polls

def trackUntilTerminal (maxPolls : ℕ) (polls : List Poll) (row : OrderRow) : OrderRow × Ending :=
  trackFrom texts broker brokerOrderId row (polls.take maxPolls)

/-- The poll brings the tracked order in this state. -/
def Delivers (poll : Poll) (status : OrderStatus) : Prop :=
  ∃ orderBook o, broker.getOrderBook texts poll.answer = .ok orderBook ∧
    orderBook.find? (·.brokerOrderId = brokerOrderId) = some o ∧ o.status = status

/-- The order book is read, and what it says of the order is written. -/
def Undisturbed (poll : Poll) : Prop :=
  (∃ orderBook, broker.getOrderBook texts poll.answer = .ok orderBook) ∧
    ((∃ status, Delivers texts broker brokerOrderId poll status) → poll.write = .committed)

/-- The first of the polls that brings the order in a terminal state. -/
structure FirstTerminal (polls pre : List Poll) (poll : Poll) (status : OrderStatus) : Prop where
  split : ∃ post, polls = pre ++ poll :: post
  before : ∀ p ∈ pre, ∀ s, Delivers texts broker brokerOrderId p s → s.isTerminal = false
  delivers : Delivers texts broker brokerOrderId poll status
  terminal : status.isTerminal

/-- Once a poll has brought the order in a terminal state, the row is left in that state. -/
def SurvivesBadPolls (maxPolls : ℕ) (polls : List Poll) (row : OrderRow) : Prop :=
  ∀ pre poll status,
    FirstTerminal texts broker brokerOrderId (polls.take maxPolls) pre poll status →
    (trackUntilTerminal texts broker brokerOrderId maxPolls polls row).1.status = status

end Tracking

section Runs

variable {texts : Texts} {broker : Adapter} {brokerOrderId : String} {row : OrderRow} {poll : Poll}
  {polls pre post : List Poll} {status : OrderStatus}

@[simp] theorem status_updateOrderRow (row : OrderRow) (o : OrderResponse) (now : ℕ) :
    (updateOrderRow row o now).status = o.status := by
  by_cases h : o.status = row.status <;>
    simp [updateOrderRow, OrderTable.updateOrderRow, OrderSession.assigned, OrderTable.write,
      OrderTable.init, flushed, h]

/-- A poll that is not disturbed and brings no terminal state is followed by the rest. -/
theorem trackFrom_undisturbed (h : Undisturbed texts broker brokerOrderId poll)
    (hlive : ∀ s, Delivers texts broker brokerOrderId poll s → s.isTerminal = false)
    (hrow : row.status.isTerminal = false) : ∃ row', row'.status.isTerminal = false ∧
      trackFrom texts broker brokerOrderId row (poll :: polls) =
        trackFrom texts broker brokerOrderId row' polls := by
  obtain ⟨⟨orderBook, hbook⟩, hwrite⟩ := h
  rw [trackFrom, hbook]
  cases hfind : orderBook.find? (·.brokerOrderId = brokerOrderId) with
  | none => exact ⟨row, hrow, by simp [hfind]⟩
  | some o =>
    have hdelivers : Delivers texts broker brokerOrderId poll o.status :=
      ⟨orderBook, o, hbook, hfind, rfl⟩
    refine ⟨updateOrderRow row (response o) poll.now, ?_, ?_⟩
    · rw [status_updateOrderRow]
      exact hlive _ hdelivers
    · simp [hfind, hwrite ⟨_, hdelivers⟩, hlive _ hdelivers]

/-- A disturbed poll that brings no terminal state ends the tracking, and the row is not in one. -/
theorem trackFrom_disturbed (h : ¬ Undisturbed texts broker brokerOrderId poll)
    (hlive : ∀ s, Delivers texts broker brokerOrderId poll s → s.isTerminal = false)
    (hrow : row.status.isTerminal = false) :
    (trackFrom texts broker brokerOrderId row (poll :: polls)).1.status.isTerminal = false := by
  rw [trackFrom]
  cases hbook : broker.getOrderBook texts poll.answer with
  | error e => exact hrow
  | ok orderBook =>
    cases hfind : orderBook.find? (·.brokerOrderId = brokerOrderId) with
    | none =>
      refine absurd ⟨⟨orderBook, hbook⟩, ?_⟩ h
      rintro ⟨status, orderBook', o, hbook', hfind', -⟩
      obtain rfl := Except.ok.inj (hbook.symm.trans hbook')
      cases hfind.symm.trans hfind'
    | some o =>
      have hdelivers : Delivers texts broker brokerOrderId poll o.status :=
        ⟨orderBook, o, hbook, hfind, rfl⟩
      cases hwrite : poll.write with
      | committed => exact absurd ⟨⟨orderBook, hbook⟩, fun _ ↦ hwrite⟩ h
      | raises applied =>
        cases applied with
        | true => simpa [hfind, response] using hlive _ hdelivers
        | false => simpa [hfind] using hrow

theorem trackFrom_delivers (h : Delivers texts broker brokerOrderId poll status)
    (hterminal : status.isTerminal) (hrow : row.status.isTerminal = false) :
    (trackFrom texts broker brokerOrderId row (poll :: post)).1.status = status ↔
      poll.write ≠ .raises false := by
  obtain ⟨orderBook, o, hbook, hfind, rfl⟩ := h
  rw [trackFrom, hbook]
  cases hwrite : poll.write with
  | committed => simp [hfind, hterminal, response]
  | raises applied =>
    cases applied with
    | true => simp [hfind, response]
    | false =>
      have hne : row.status ≠ o.status := fun heq ↦ by simp [heq, hterminal] at hrow
      simp [hfind, hne]

/-- The row comes to the state that the first terminal answer brings exactly if no poll before it is
disturbed and its own write gets through. -/
theorem status_trackFrom_iff (hrow : row.status.isTerminal = false)
    (hlive : ∀ p ∈ pre, ∀ s, Delivers texts broker brokerOrderId p s → s.isTerminal = false)
    (hdelivers : Delivers texts broker brokerOrderId poll status) (hterminal : status.isTerminal) :
    (trackFrom texts broker brokerOrderId row (pre ++ poll :: post)).1.status = status ↔
      (∀ p ∈ pre, Undisturbed texts broker brokerOrderId p) ∧ poll.write ≠ .raises false := by
  induction pre generalizing row with
  | nil => simpa using trackFrom_delivers hdelivers hterminal hrow
  | cons p pre ih =>
    obtain ⟨hp, hlive⟩ := List.forall_mem_cons.mp hlive
    rw [List.cons_append, List.forall_mem_cons, and_assoc]
    by_cases hquiet : Undisturbed texts broker brokerOrderId p
    · obtain ⟨row', hrow', heq⟩ := trackFrom_undisturbed hquiet hp hrow
      rw [heq, ih hrow' hlive]
      exact (and_iff_right hquiet).symm
    · have hended : (trackFrom texts broker brokerOrderId row
          (p :: (pre ++ poll :: post))).1.status.isTerminal = false :=
        trackFrom_disturbed hquiet hp hrow
      refine iff_of_false (fun heq ↦ ?_) fun h ↦ hquiet h.1
      rw [heq, hterminal] at hended
      cases hended

/-- A tracked order's row survives bad polls exactly if there are none before its end is seen: every
book till then can be read and every write till then gets through. -/
theorem survivesBadPolls_iff (maxPolls : ℕ) (hrow : row.status.isTerminal = false) :
    SurvivesBadPolls texts broker brokerOrderId maxPolls polls row ↔
      ∀ pre poll status,
    FirstTerminal texts broker brokerOrderId (polls.take maxPolls) pre poll status →
        (∀ p ∈ pre, Undisturbed texts broker brokerOrderId p) ∧ poll.write ≠ .raises false := by
  refine forall₃_congr fun pre poll status ↦ forall_congr' fun hfirst ↦ ?_
  obtain ⟨⟨post, hsplit⟩, hlive, hdelivers, hterminal⟩ := hfirst
  rw [trackUntilTerminal, hsplit]
  exact status_trackFrom_iff hrow hlive hdelivers hterminal

end Runs

section Infy

open Brokers.OrderBook (asWritten)

def listed (orderId status : String) : RawOrder where
  orderId := some orderId
  status := some status
  transactionType := some "BUY"
  orderType := some "MARKET"
  quantity := some 10
  tradingSymbol := some "INFY"

/-- A gateway error, another order whose status has no place in the table, and a lost database. -/
def badPolls : List Poll := [
  ⟨.failed "502 Bad Gateway", .committed, 1⟩,
  ⟨.data [listed "A" "open", listed "B" "amo cancelled"], .committed, 1⟩,
  ⟨.data [listed "A" "open"], .raises false, 1⟩]

def complete : Poll := ⟨.data [listed "A" "complete"], .committed, 2⟩

def acknowledged : OrderRow := ⟨.opened, none, some 0⟩

theorem completed_at_once :
    SurvivesBadPolls asWritten .upstox "A" 60 [complete] acknowledged := by
  refine (survivesBadPolls_iff 60 rfl).mpr ?_
  rintro pre poll status ⟨⟨post, hsplit⟩, -, -, -⟩
  obtain ⟨rfl, rfl⟩ : pre = [] ∧ complete = poll := by
    cases pre with
    | nil => exact ⟨rfl, (List.cons.inj hsplit).1⟩
    | cons p pre => simp at hsplit
  exact ⟨by simp, by decide⟩

/-- The order is filled, and the row stays open. -/
theorem bad_poll_ends_tracking : badPolls.length = 3 ∧
    ∀ bad ∈ badPolls,
      ¬ SurvivesBadPolls asWritten .upstox "A" 60 [bad, complete] acknowledged := by
  have hlive : ∀ bad ∈ badPolls, ∀ s, Delivers asWritten .upstox "A" bad s →
      s.isTerminal = false := by
    simp only [badPolls, List.forall_mem_cons, List.not_mem_nil, false_imp_iff, implies_true,
      and_true]
    refine ⟨?_, ?_, ?_⟩
    · rintro s ⟨_, _, hbook, -, -⟩
      cases hbook
    · rintro s ⟨_, _, hbook, -, -⟩
      cases hbook
    · rintro s ⟨_, _, hbook, hfind, rfl⟩
      cases hbook
      cases hfind
      rfl
  have hopen : ∀ bad ∈ badPolls,
      (trackUntilTerminal asWritten .upstox "A" 60 [bad, complete] acknowledged).1.status =
        .opened := by
    simp only [badPolls, List.forall_mem_cons, List.not_mem_nil, false_imp_iff, implies_true,
      and_true]
    exact ⟨rfl, rfl, rfl⟩
  refine ⟨rfl, fun bad hbad hsurvives ↦ ?_⟩
  have hfilled := hsurvives [bad] complete .filled
    ⟨⟨[], rfl⟩, by simpa using hlive bad hbad, ⟨_, _, rfl, rfl, rfl⟩, rfl⟩
  rw [hopen bad hbad] at hfilled
  cases hfilled

end Infy

end TradingOS.Live.OrderTracking
