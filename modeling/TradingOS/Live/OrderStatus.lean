import Mathlib.Tactic.SplitIfs
import TradingOS.Lib.Runs

namespace TradingOS.Live

open Lib Lib.Runs

inductive OrderStatus
  | pending | opened | partiallyFilled | filled | cancelled | rejected
  deriving DecidableEq

/-- `TERMINAL_STATUSES`. -/
def OrderStatus.isTerminal : OrderStatus → Bool
  | .filled | .cancelled | .rejected => true
  | .pending | .opened | .partiallyFilled => false

structure OrderRow where
  status : OrderStatus
  rejectionReason : Option String
  acknowledgedAt : Option ℕ
  deriving DecidableEq

/-- What a broker says of the order. -/
structure OrderResponse where
  status : OrderStatus
  rejectionReason : Option String
  deriving DecidableEq

/-- What a session goes by: a report on the order, a cancel request and the broker's answer to it
once there is one, or the trip of the kill switch. -/
inductive Word
  | report (response : OrderResponse) (now : ℕ)
  | request (answer : Option OrderResponse)
  | trip (reason : String)
  deriving DecidableEq

/-- A database session that has loaded the order. -/
structure OrderSession where
  loaded : OrderRow
  word : Word
  deriving DecidableEq

/-- The row as the session has assigned to it by now. -/
def OrderSession.assigned (x : OrderSession) : Option OrderRow :=
  match x.word with
  | .report response now =>
    some
      { status := response.status
        rejectionReason := response.rejectionReason
        acknowledgedAt :=
          if x.loaded.acknowledgedAt.isNone ∧ response.status ≠ .pending then some now
          else x.loaded.acknowledgedAt }
  | .request none => none
  | .request (some response) => some { x.loaded with status := response.status }
  | .trip reason =>
    some { x.loaded with
      status := .cancelled, rejectionReason := some s!"Kill switch: {reason}" }

/-- The status that a report or an answer gives, or that the trip means. -/
def Word.status : Word → Option OrderStatus
  | .report response _ => some response.status
  | .request answer => answer.map OrderResponse.status
  | .trip _ => some .cancelled

/-- A flush sends a column only if the value assigned to it is not the one that was loaded. -/
def flushed {α : Type} [DecidableEq α] (current loaded assigned : α) : α :=
  if assigned = loaded then current else assigned

/-- The committed row of an order, the reports on it that trackers have fetched and not yet used, and
the sessions at work on it. -/
structure OrderTable where
  row : OrderRow
  fetched : List OrderResponse
  sessions : List OrderSession
  deriving DecidableEq

inductive OrderEvent
  | getOrderBook (response : OrderResponse)
  | updateOrderRow (poll now : ℕ)
  | cancelOrder
  | cancelAnswered (session : ℕ) (response : OrderResponse)
  | trip (reason : String)
  | commit (session : ℕ)
  | rollback (session : ℕ)
  deriving DecidableEq

namespace OrderTable

def init (row : OrderRow) : OrderTable := ⟨row, [], []⟩

variable (s : OrderTable)

/-- `_update_order_row` up to its commit. -/
def updateOrderRow (response : OrderResponse) (now : ℕ) : OrderSession :=
  ⟨s.row, .report response now⟩

/-- `trip` selects the order while it is pending. -/
def trip (reason : String) : List OrderSession :=
  if s.row.status = .pending then [⟨s.row, .trip reason⟩] else []

/-- An update finds its row by the key alone, whatever the row holds by then. -/
def write (loaded assigned : OrderRow) : OrderRow where
  status := flushed s.row.status loaded.status assigned.status
  rejectionReason := flushed s.row.rejectionReason loaded.rejectionReason assigned.rejectionReason
  acknowledgedAt := flushed s.row.acknowledgedAt loaded.acknowledgedAt assigned.acknowledgedAt

def step : OrderEvent → Option OrderTable
  | .getOrderBook response => some { s with fetched := s.fetched ++ [response] }
  | .updateOrderRow poll now =>
    (s.fetched[poll]?).map fun response ↦
      { s with
        fetched := s.fetched.eraseIdx poll
        sessions := s.sessions ++ [s.updateOrderRow response now] }
  | .cancelOrder => some { s with sessions := s.sessions ++ [⟨s.row, .request none⟩] }
  | .cancelAnswered session response =>
    match s.sessions[session]? with
    | some ⟨loaded, .request none⟩ =>
      some { s with sessions := s.sessions.set session ⟨loaded, .request (some response)⟩ }
    | _ => none
  | .trip reason => some { s with sessions := s.sessions ++ s.trip reason }
  | .commit session => do
    let x ← s.sessions[session]?
    let assigned ← x.assigned
    some { s with row := s.write x.loaded assigned, sessions := s.sessions.eraseIdx session }
  | .rollback session =>
    if session < s.sessions.length then
      some { s with sessions := s.sessions.eraseIdx session }
    else none

/-- A terminal status stays. -/
def Absorbs (s t : OrderTable) : Prop := s.row.status.isTerminal → t.row.status = s.row.status

/-- A report that is applied to an order found ended, and the answer to a request that found it so,
give the status it has ended with. And if the order ends while a session is at work on it, then
what the session goes by brings nothing new: it gives the status the order had before, or the one
it has ended with. -/
def Timely (s : OrderTable) : OrderEvent → Prop
  | .updateOrderRow poll _ => ∀ response, s.fetched[poll]? = some response →
    s.row.status.isTerminal → response.status = s.row.status
  | .cancelAnswered session response => ∀ x, s.sessions[session]? = some x →
    x.loaded.status.isTerminal → response.status = x.loaded.status
  | .commit session => ∀ x, s.sessions[session]? = some x → x.loaded.status.isTerminal = false →
    s.row.status.isTerminal →
      x.word.status = some x.loaded.status ∨ x.word.status = some s.row.status
  | _ => True

/-- An order that a session found ended has the status it found, and the session gives no other. -/
structure Settled (s : OrderTable) : Prop where
  found : ∀ x ∈ s.sessions, x.loaded.status.isTerminal → s.row.status = x.loaded.status
  given : ∀ x ∈ s.sessions, x.loaded.status.isTerminal →
    ∀ status, x.word.status = some status → status = x.loaded.status

end OrderTable

theorem OrderSession.status_of_assigned {x : OrderSession} {assigned : OrderRow}
    (h : x.assigned = some assigned) : x.word.status = some assigned.status := by
  obtain ⟨loaded, word⟩ := x
  cases word with
  | report response now =>
    obtain rfl := Option.some.inj h
    rfl
  | request answer =>
    cases answer with
    | none => cases h
    | some response =>
      obtain rfl := Option.some.inj h
      rfl
  | trip reason =>
    obtain rfl := Option.some.inj h
    rfl

namespace OrderTable

variable {s t : OrderTable} {event : OrderEvent}

theorem settled_init (row : OrderRow) : Settled (init row) :=
  ⟨fun _ hx ↦ (List.not_mem_nil hx).elim, fun _ hx ↦ (List.not_mem_nil hx).elim⟩

/-- A session is added that has loaded the row as it is. -/
theorem Settled.add (hs : s.Settled) {x : OrderSession} (hloaded : x.loaded = s.row)
    (hgiven : s.row.status.isTerminal → ∀ status, x.word.status = some status →
      status = s.row.status) (fetched : List OrderResponse) :
    Settled { s with fetched := fetched, sessions := s.sessions ++ [x] } := by
  refine ⟨fun y hy hterminal ↦ ?_, fun y hy hterminal ↦ ?_⟩
  · rcases List.mem_append.mp hy with hy | hy
    · exact hs.found y hy hterminal
    · rw [List.mem_singleton.mp hy, hloaded]
  · rcases List.mem_append.mp hy with hy | hy
    · exact hs.given y hy hterminal
    · rw [List.mem_singleton.mp hy] at hterminal ⊢
      rw [hloaded] at hterminal ⊢
      exact hgiven hterminal

theorem Settled.erase (hs : s.Settled) (session : ℕ) :
    Settled { s with sessions := s.sessions.eraseIdx session } :=
  ⟨fun x hx ↦ hs.found x (List.mem_of_mem_eraseIdx hx),
    fun x hx ↦ hs.given x (List.mem_of_mem_eraseIdx hx)⟩

/-- The row is written, and keeps its status if it had ended. -/
theorem Settled.setRow (hs : s.Settled) {row : OrderRow}
    (hrow : s.row.status.isTerminal → row.status = s.row.status) : Settled { s with row := row } := by
  refine ⟨fun x hx hterminal ↦ ?_, hs.given⟩
  have hfound := hs.found x hx hterminal
  exact (hrow (by rwa [hfound])).trans hfound

theorem write_status_of_eq {loaded assigned : OrderRow}
    (h : assigned.status = loaded.status ∨ assigned.status = s.row.status) :
    (s.write loaded assigned).status = s.row.status := by
  simp only [write, flushed]
  rcases h with h | h
  · exact if_pos h
  · rw [h, ite_self]

theorem commit_cases {session : ℕ} (h : s.step (.commit session) = some t) :
    ∃ x assigned, s.sessions[session]? = some x ∧ x.assigned = some assigned ∧
      t = { s with row := s.write x.loaded assigned, sessions := s.sessions.eraseIdx session } := by
  obtain ⟨x, hx, h⟩ := Option.bind_eq_some_iff.mp h
  obtain ⟨assigned, hassigned, h⟩ := Option.bind_eq_some_iff.mp h
  exact ⟨x, assigned, hx, hassigned, (Option.some.inj h).symm⟩

/-- A commit writes over no status that the order has ended with. -/
theorem absorbs_commit (hs : s.Settled) {session : ℕ} (htimely : s.Timely (.commit session))
    (h : s.step (.commit session) = some t) : s.Absorbs t := by
  intro hended
  obtain ⟨x, assigned, hx, hassigned, rfl⟩ := commit_cases h
  have hgives := OrderSession.status_of_assigned hassigned
  refine write_status_of_eq ?_
  cases hloaded : x.loaded.status.isTerminal with
  | true => exact .inl (hs.given x (List.mem_of_getElem? hx) hloaded _ hgives)
  | false =>
    exact (htimely x hx hloaded hended).imp (fun h ↦ Option.some.inj (hgives.symm.trans h))
      fun h ↦ Option.some.inj (hgives.symm.trans h)

theorem step_settled (hs : s.Settled) (htimely : s.Timely event) (h : s.step event = some t) :
    t.Settled ∧ s.Absorbs t := by
  cases event with
  | getOrderBook response =>
    obtain rfl := Option.some.inj h
    exact ⟨⟨hs.found, hs.given⟩, fun _ ↦ rfl⟩
  | updateOrderRow poll now =>
    obtain ⟨response, hpoll, rfl⟩ := Option.map_eq_some_iff.mp h
    refine ⟨hs.add rfl (fun hended status hstatus ↦ ?_) _, fun _ ↦ rfl⟩
    rw [← Option.some.inj hstatus]
    exact htimely response hpoll hended
  | cancelOrder =>
    obtain rfl := Option.some.inj h
    exact ⟨hs.add rfl (fun _ status hstatus ↦ by cases hstatus) s.fetched, fun _ ↦ rfl⟩
  | cancelAnswered session response =>
    simp only [step] at h
    split at h
    · next loaded hsession =>
      obtain rfl := Option.some.inj h
      have hmem := List.mem_of_getElem? hsession
      refine ⟨⟨fun x hx ↦ ?_, fun x hx ↦ ?_⟩, fun _ ↦ rfl⟩
      · rcases List.mem_or_eq_of_mem_set hx with hx | rfl
        · exact hs.found x hx
        · exact hs.found ⟨loaded, .request none⟩ hmem
      · rcases List.mem_or_eq_of_mem_set hx with hx | rfl
        · exact hs.given x hx
        · intro hended status hstatus
          rw [← Option.some.inj hstatus]
          exact htimely ⟨loaded, .request none⟩ hsession hended
    · cases h
  | trip reason =>
    obtain rfl := Option.some.inj h
    refine ⟨?_, fun _ ↦ rfl⟩
    simp only [trip]
    split_ifs with hpending
    · refine hs.add rfl (fun hended ↦ ?_) s.fetched
      rw [hpending] at hended
      cases hended
    · rw [List.append_nil]
      exact hs
  | commit session =>
    have habsorbs := absorbs_commit hs htimely h
    obtain ⟨x, assigned, hx, hassigned, rfl⟩ := commit_cases h
    exact ⟨(hs.erase session).setRow habsorbs, habsorbs⟩
  | rollback session =>
    simp only [step] at h
    split_ifs at h
    obtain rfl := Option.some.inj h
    exact ⟨hs.erase session, fun _ ↦ rfl⟩

/-- In every run of polls, cancel requests and trips, a terminal status is never written over if
nothing that a poll, an answer or the trip says of the order is news from before its end. -/
theorem terminal_absorbing (row : OrderRow) (events : List OrderEvent)
    (h : Along step (fun s event _ ↦ s.Timely event) (init row) events) :
    Along step (fun s _ t ↦ s.Absorbs t) (init row) events := by
  refine along_of_invariant (fun s event t hs htimely hstep ↦ ?_) (settled_init row) h
  exact step_settled hs htimely hstep

/-- The tracker has fetched the order book before the trip, and writes what it says after it. -/
def trippedBetween : List OrderEvent :=
  [.getOrderBook ⟨.opened, none⟩, .trip "drawdown", .commit 0, .updateOrderRow 0 1]

def trippedEnd : OrderTable :=
  (exec step (init ⟨.pending, none, none⟩) trippedBetween).get (by decide +kernel)

/-- The order that the kill switch has cancelled is open again. -/
theorem cancelled_order_reopened : ∃ s t, Run step (init ⟨.pending, none, none⟩) trippedBetween s ∧
    s.row.status = .cancelled ∧ s.step (.commit 0) = some t ∧ t.row.status = .opened := by
  have hrun : Run step (init ⟨.pending, none, none⟩) trippedBetween trippedEnd :=
    exec_eq_some.mp (Option.some_get (by decide +kernel)).symm
  refine ⟨trippedEnd, _, hrun, ?_, (Option.some_get (by decide +kernel)).symm, ?_⟩
  · decide +kernel
  · decide +kernel

/-- The order is filled while a cancel request waits for its answer, which says so too. -/
theorem terminal_absorbing_filledMeanwhile : Along step (fun s _ t ↦ s.Absorbs t)
    (init ⟨.opened, none, none⟩)
    [.cancelOrder, .getOrderBook ⟨.filled, none⟩, .updateOrderRow 0 1, .commit 1,
      .cancelAnswered 0 ⟨.filled, none⟩, .commit 0] := by
  refine terminal_absorbing _ _ ⟨trivial, trivial, ?_, ?_, ?_, ?_, trivial⟩
  · rintro response - hended
    cases hended
  · rintro x - - hended
    cases hended
  · rintro x hx hended
    obtain rfl := Option.some.inj hx
    cases hended
  · rintro x hx - -
    obtain rfl := Option.some.inj hx
    exact .inr rfl

end OrderTable

end TradingOS.Live
