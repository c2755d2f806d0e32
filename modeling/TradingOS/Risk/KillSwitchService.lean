import TradingOS.Core.AuditStorage
import TradingOS.Lib.Fallible
import TradingOS.Live.OrderStatus
import TradingOS.Risk.KillSwitch

namespace TradingOS.Risk

open Lib Live TradingOS.Core

structure PortfolioPosition where
  netQuantity : ℤ
  deriving DecidableEq

/-- The committed rows, each table in the order of its ids. -/
structure Tables where
  orders : List OrderRow
  positions : List PortfolioPosition
  auditLog : List AuditLog

structure KillSwitchTripResult where
  status : String
  liquidatedPositions : ℕ
  cancelledOrders : ℕ
  deriving DecidableEq

/-- What the service sends to the database, in the order in which it is sent. A commit that has
taken effect can still fail to be acknowledged. -/
inductive Statement
  | selectOrders | updateOrders | selectPositions | lockChain | updatePositions | selectLastHash
  | insertEntry | commit | acknowledgement
  deriving DecidableEq

/-- What a call finds outside the process: the statement that fails, if one does, two readings of
the clock, and the id that the log gives its next row. -/
structure DbSession where
  columns : Columns
  sha256 : String → String
  fault : Option Statement
  now : Datetime
  createdAt : Datetime
  nextId : ℕ

namespace DbSession

variable (session : DbSession)

def execute (statement : Statement) : Except Statement Unit :=
  if session.fault = some statement then .error statement else .ok ()

/-- A select first sends the changes that are pending. -/
def flush (dirty : Bool) (statement : Statement) : Except Statement Unit :=
  if dirty then session.execute statement else .ok ()

def entry (actorId action : String) (afterState : Payload) : Content Payload where
  actorType := if actorId ≠ "kill_switch_service" then "Human" else "System"
  actorId := actorId
  action := action
  entityType := "KillSwitch"
  entityId := none
  beforeState := noState
  afterState := afterState
  promptSnapshot := none
  ipAddress := none
  createdAt := session.createdAt

/-- `write_audit_entry`, with changes of the positions pending or not. -/
def writeAuditEntry (dirty : Bool) (auditLog : List AuditLog) (content : Content Payload) :
    Except Statement (List AuditLog) := do
  session.execute .lockChain
  session.flush dirty .updatePositions
  session.execute .selectLastHash
  session.execute .insertEntry
  return auditLog ++
    [Core.writeAuditEntry session.sha256 session.columns auditLog session.nextId content]

/-- What a transaction leaves in the tables, and how its call ends. -/
def transaction {α : Type} (tables : Tables) (work : Except Statement (Tables × α)) :
    Tables × Except Statement α :=
  match work with
  | .error statement => (tables, .error statement)
  | .ok (changed, result) =>
    match session.fault with
    | some .commit => (tables, .error .commit)
    | some .acknowledgement => (changed, .error .acknowledgement)
    | _ => (changed, .ok result)

end DbSession

/-- The globals of the process, and the tables. -/
structure KillSwitchService where
  killSwitch : MaxDrawdownKillSwitch
  trippedAt : Option Datetime
  tripReason : Option String
  tables : Tables

def cancelOrder (reason : String) (order : OrderRow) : OrderRow :=
  if order.status = .pending then
    { order with status := .cancelled, rejectionReason := some s!"Kill switch: {reason}" }
  else order

def flatten (position : PortfolioPosition) : PortfolioPosition :=
  if position.netQuantity ≠ 0 then { position with netQuantity := 0 } else position

def tripState (reason : String) (cancelledOrders liquidatedPositions : ℕ) : Payload where
  value := .dict [(.str "reason", .leaf (.str reason)),
    (.str "cancelled_orders", .leaf (.int cancelledOrders)),
    (.str "liquidated_positions", .leaf (.int liquidatedPositions))]
  accepted := rfl

namespace Tables

variable (session : DbSession) (reason actorId : String) (tables : Tables)

/-- `trip` between the globals and the commit. -/
def stop : Except Statement (Tables × KillSwitchTripResult) := do
  session.execute .selectOrders
  let openOrders := tables.orders.filter fun order ↦ order.status = .pending
  session.flush (openOrders ≠ []) .updateOrders
  session.execute .selectPositions
  let openPositions := tables.positions.filter fun position ↦ position.netQuantity ≠ 0
  let auditLog ← session.writeAuditEntry (openPositions ≠ []) tables.auditLog
    (session.entry actorId "KILL_SWITCH_TRIPPED"
      (tripState reason openOrders.length openPositions.length))
  return ({ orders := tables.orders.map (cancelOrder reason)
            positions := tables.positions.map flatten
            auditLog := auditLog },
    ⟨"TRIPPED", openPositions.length, openOrders.length⟩)

/-- `reset` between the globals and the commit. -/
def rearm : Except Statement (Tables × Unit) := do
  let auditLog ← session.writeAuditEntry false tables.auditLog
    (session.entry actorId "KILL_SWITCH_RESET" noState)
  return ({ tables with auditLog := auditLog }, ())

/-- What the log says last of the switch: the one trace of its state that outlives the process. -/
def tripped : Bool :=
  (tables.auditLog.reverse.find? fun row ↦ row.content.entityType = "KillSwitch").any
    fun row ↦ row.content.action = "KILL_SWITCH_TRIPPED"

end Tables

namespace KillSwitchService

variable (session : DbSession) (reason actorId : String) (s : KillSwitchService)

def isTripped : Bool := s.killSwitch.triggered

def trip : KillSwitchService × Except Statement KillSwitchTripResult :=
  let (tables, result) := session.transaction s.tables (s.tables.stop session reason actorId)
  (⟨s.killSwitch.trip, some session.now, some reason, tables⟩, result)

def reset : KillSwitchService × Except Statement Unit :=
  let (tables, result) := session.transaction s.tables (s.tables.rearm session actorId)
  (⟨s.killSwitch.reset, none, none, tables⟩, result)

end KillSwitchService

inductive ServiceCall
  | trip (reason actorId : String)
  | reset (actorId : String)
  deriving DecidableEq

/-- What a call leaves, and the statement that made it fail. -/
def ServiceCall.run (session : DbSession) (s : KillSwitchService) :
    ServiceCall → KillSwitchService × Except Statement Unit
  | .trip reason actorId =>
    let (after, result) := s.trip session reason actorId
    (after, result.map fun _ ↦ ())
  | .reset actorId => s.reset session actorId

/-- The number of rows that a call has changed. -/
def rowsChanged {α : Type} [DecidableEq α] (before after : List α) : ℕ :=
  (before.zip after).countP fun rows ↦ rows.1 ≠ rows.2

structure NothingLive (before after : Tables) (result : KillSwitchTripResult) : Prop where
  orders : ∀ order ∈ after.orders, order.status.isTerminal
  positions : ∀ position ∈ after.positions, position.netQuantity = 0
  cancelledOrders : result.cancelledOrders = rowsChanged before.orders after.orders
  liquidatedPositions : result.liquidatedPositions = rowsChanged before.positions after.positions

/-- The switch and its trace in the log stay tripped, no order is reopened, and no position is. -/
structure NotLessSafe (before after : KillSwitchService) : Prop where
  memory : before.isTripped → after.isTripped
  persisted : before.tables.tripped → after.tables.tripped
  orders : List.Forall₂ (fun order order' ↦ order' = order ∨ order'.status.isTerminal)
    before.tables.orders after.tables.orders
  positions : List.Forall₂
    (fun position position' ↦ position' = position ∨ position'.netQuantity = 0)
    before.tables.positions after.tables.positions

def FailsSafe (session : DbSession) (call : ServiceCall) (s : KillSwitchService) : Prop :=
  ∀ statement, (call.run session s).2 = .error statement →
    NotLessSafe s (call.run session s).1 ∧
      ∀ reason actorId, call = .trip reason actorId → (call.run session s).1.isTripped

/-- What `reset` sends. -/
def resetStatements : List Statement :=
  [.lockChain, .selectLastHash, .insertEntry, .commit, .acknowledgement]

section Transactions

variable {session : DbSession}

theorem writeAuditEntry_eq_ok {dirty : Bool} {auditLog auditLog' : List AuditLog}
    {content : Content Payload}
    (h : session.writeAuditEntry dirty auditLog content = .ok auditLog') :
    auditLog' = auditLog ++
      [Core.writeAuditEntry session.sha256 session.columns auditLog session.nextId content] := by
  obtain ⟨-, -, h⟩ := bind_eq_ok.mp h
  obtain ⟨-, -, h⟩ := bind_eq_ok.mp h
  obtain ⟨-, -, h⟩ := bind_eq_ok.mp h
  obtain ⟨-, -, h⟩ := bind_eq_ok.mp h
  exact (Except.ok.inj h).symm

/-- A call that returns leaves what it has written. -/
theorem transaction_eq_ok {α : Type} {tables : Tables} {work : Except Statement (Tables × α)}
    {result : α} (h : (session.transaction tables work).2 = .ok result) :
    work = .ok ((session.transaction tables work).1, result) := by
  unfold DbSession.transaction at h ⊢
  split at h
  · cases h
  · split at h
    · cases h
    · cases h
    · cases h
      rfl

/-- A call that fails leaves the tables, unless all of it was done and the last answer was lost. -/
theorem transaction_eq_error {α : Type} {tables : Tables} {work : Except Statement (Tables × α)}
    {statement : Statement} (h : (session.transaction tables work).2 = .error statement) :
    (session.transaction tables work).1 = tables ∨ session.fault = some .acknowledgement ∧
      ∃ result, work = .ok ((session.transaction tables work).1, result) := by
  unfold DbSession.transaction at h ⊢
  split at h
  · exact .inl rfl
  · split at h
    · exact .inl rfl
    · next hfault => exact .inr ⟨hfault, _, rfl⟩
    · cases h

end Transactions

namespace Tables

variable {session : DbSession} {reason actorId : String} {tables changed : Tables}

theorem stop_eq_ok {result : KillSwitchTripResult}
    (h : tables.stop session reason actorId = .ok (changed, result)) :
    changed.orders = tables.orders.map (cancelOrder reason) ∧
      changed.positions = tables.positions.map flatten ∧ changed.tripped ∧
      result.cancelledOrders = tables.orders.countP (fun order ↦ order.status = .pending) ∧
      result.liquidatedPositions =
        tables.positions.countP (fun position ↦ position.netQuantity ≠ 0) := by
  obtain ⟨-, -, h⟩ := bind_eq_ok.mp h
  obtain ⟨-, -, h⟩ := bind_eq_ok.mp h
  obtain ⟨-, -, h⟩ := bind_eq_ok.mp h
  obtain ⟨auditLog, hlog, h⟩ := bind_eq_ok.mp h
  cases h
  refine ⟨rfl, rfl, ?_, List.countP_eq_length_filter.symm, List.countP_eq_length_filter.symm⟩
  rw [tripped, writeAuditEntry_eq_ok hlog, List.reverse_append]
  rfl

theorem rearm_eq_ok (h : tables.rearm session actorId = .ok (changed, ())) :
    changed.orders = tables.orders ∧ changed.positions = tables.positions ∧
      changed.tripped = false := by
  obtain ⟨auditLog, hlog, h⟩ := bind_eq_ok.mp h
  cases h
  refine ⟨rfl, rfl, ?_⟩
  rw [tripped, writeAuditEntry_eq_ok hlog, List.reverse_append]
  rfl

end Tables

theorem rowsChanged_map {α : Type} [DecidableEq α] (f : α → α) (rows : List α) :
    rowsChanged rows (rows.map f) = rows.countP fun row ↦ row ≠ f row := by
  induction rows with
  | nil => rfl
  | cons row rows ih =>
    have hcons : rowsChanged (row :: rows) ((row :: rows).map f) =
      ((row, f row) :: rows.zip (rows.map f)).countP fun rows ↦ rows.1 ≠ rows.2 := rfl
    rw [hcons, List.countP_cons, List.countP_cons, ← ih, rowsChanged]

theorem isTerminal_cancelOrder {reason : String} {order : OrderRow} :
    (cancelOrder reason order).status.isTerminal ↔
      order.status ≠ .opened ∧ order.status ≠ .partiallyFilled := by
  obtain ⟨status, rejectionReason, acknowledgedAt⟩ := order
  cases status <;> simp [cancelOrder, OrderStatus.isTerminal]

theorem cancelOrder_ne {reason : String} {order : OrderRow} :
    order ≠ cancelOrder reason order ↔ order.status = .pending := by
  unfold cancelOrder
  split
  · next hpending =>
    refine iff_of_true (fun h ↦ ?_) hpending
    have hstatus := congrArg OrderRow.status h
    rw [hpending] at hstatus
    cases hstatus
  · next hpending => exact iff_of_false (fun h ↦ h rfl) hpending

theorem netQuantity_flatten (position : PortfolioPosition) :
    (flatten position).netQuantity = 0 := by
  unfold flatten
  split
  · rfl
  · next hzero => exact not_not.mp hzero

theorem flatten_ne {position : PortfolioPosition} :
    position ≠ flatten position ↔ position.netQuantity ≠ 0 := by
  unfold flatten
  split
  · next hopen => exact iff_of_true (fun h ↦ hopen (congrArg PortfolioPosition.netQuantity h)) hopen
  · next hopen => exact iff_of_false (fun h ↦ h rfl) hopen

theorem Tables.nothingLive_iff {session : DbSession} {reason actorId : String}
    {tables changed : Tables} {result : KillSwitchTripResult}
    (h : tables.stop session reason actorId = .ok (changed, result)) :
    NothingLive tables changed result ↔
      ∀ order ∈ tables.orders, order.status ≠ .opened ∧ order.status ≠ .partiallyFilled := by
  obtain ⟨horders, hpositions, -, hcancelled, hliquidated⟩ := stop_eq_ok h
  have hterminal : (∀ order ∈ changed.orders, order.status.isTerminal) ↔
      ∀ order ∈ tables.orders, order.status ≠ .opened ∧ order.status ≠ .partiallyFilled := by
    rw [horders, List.forall_mem_map]
    exact forall₂_congr fun _ _ ↦ isTerminal_cancelOrder
  refine ⟨fun hlive ↦ hterminal.mp hlive.orders, fun hclosed ↦ ⟨hterminal.mpr hclosed, ?_, ?_, ?_⟩⟩
  · rw [hpositions, List.forall_mem_map]
    exact fun position _ ↦ netQuantity_flatten position
  · simp only [hcancelled, horders, rowsChanged_map, cancelOrder_ne]
  · simp only [hliquidated, hpositions, rowsChanged_map, flatten_ne]

namespace KillSwitchService

/-- An order that the broker has open, or has filled in part, is left as it is. -/
theorem trip_nothingLive_iff (session : DbSession) (reason actorId : String)
    (s : KillSwitchService) :
    (session.fault = none → ∃ result, (s.trip session reason actorId).2 = .ok result) ∧
      ∀ result, (s.trip session reason actorId).2 = .ok result →
        (NothingLive s.tables (s.trip session reason actorId).1.tables result ↔
          ∀ order ∈ s.tables.orders, order.status ≠ .opened ∧ order.status ≠ .partiallyFilled) := by
  refine ⟨fun hfault ↦ ?_, fun result h ↦ Tables.nothingLive_iff (transaction_eq_ok h)⟩
  have hexecute (statement : Statement) : session.execute statement = .ok () := by
    simp [DbSession.execute, hfault]
  have hflush (dirty : Bool) (statement : Statement) : session.flush dirty statement = .ok () := by
    cases dirty with
    | false => rfl
    | true => exact hexecute statement
  simp [trip, Tables.stop, DbSession.writeAuditEntry, DbSession.transaction, hexecute, hflush,
    hfault, bind, Except.bind, pure, Except.pure]

theorem reset_eq_error (session : DbSession) (actorId : String) (s : KillSwitchService)
    (statement : Statement) : (s.reset session actorId).2 = .error statement ↔
      statement ∈ resetStatements ∧ session.fault = some statement := by
  obtain ⟨columns, sha256, fault, now, createdAt, nextId⟩ := session
  rcases fault with _ | fault
  · exact iff_of_false (fun h ↦ by cases h) fun h ↦ by cases h.2
  · cases fault with
    | selectOrders | updateOrders | selectPositions | updatePositions =>
      refine iff_of_false (fun h ↦ by cases h) fun h ↦ ?_
      exact absurd (Option.some.inj h.2 ▸ h.1) (by decide)
    | lockChain | selectLastHash | insertEntry | commit | acknowledgement =>
      constructor
      · intro h
        cases h
        exact ⟨by decide, rfl⟩
      · intro h
        cases h.2
        rfl

/-- What a reset that fails leaves in the tables. -/
theorem reset_tables {session : DbSession} {actorId : String} {s : KillSwitchService}
    {statement : Statement} (h : (s.reset session actorId).2 = .error statement) :
    let after := (s.reset session actorId).1
    after.tables.orders = s.tables.orders ∧ after.tables.positions = s.tables.positions ∧
      (after.tables.tripped ↔ s.tables.tripped ∧ statement ≠ .acknowledgement) := by
  obtain ⟨columns, sha256, fault, now, createdAt, nextId⟩ := session
  rcases fault with _ | fault
  · cases h
  · cases fault with
    | selectOrders | updateOrders | selectPositions | updatePositions => cases h
    | lockChain | selectLastHash | insertEntry | commit =>
      cases h
      exact ⟨rfl, rfl, (and_iff_left (by decide)).symm⟩
    | acknowledgement =>
      cases h
      have hwork : s.tables.rearm ⟨columns, sha256, some .acknowledgement, now, createdAt, nextId⟩
        actorId = .ok (_, ()) := rfl
      obtain ⟨horders, hpositions, htripped⟩ := Tables.rearm_eq_ok hwork
      exact ⟨horders, hpositions, iff_of_false (Bool.eq_false_iff.mp htripped) fun h ↦ h.2 rfl⟩

theorem notLessSafe_of_tables {before after : KillSwitchService}
    (hmemory : before.isTripped → after.isTripped)
    (hpersisted : before.tables.tripped → after.tables.tripped)
    (horders : after.tables.orders = before.tables.orders)
    (hpositions : after.tables.positions = before.tables.positions) : NotLessSafe before after := by
  refine ⟨hmemory, hpersisted, ?_, ?_⟩
  · rw [horders]
    exact List.forall₂_same.mpr fun _ _ ↦ .inl rfl
  · rw [hpositions]
    exact List.forall₂_same.mpr fun _ _ ↦ .inl rfl

theorem failsSafe_trip (session : DbSession) (reason actorId : String) (s : KillSwitchService) :
    FailsSafe session (.trip reason actorId) s := by
  intro statement h
  refine ⟨?_, fun _ _ _ ↦ rfl⟩
  have herror : (s.trip session reason actorId).2 = .error statement := by
    have hmap : (s.trip session reason actorId).2.map (fun _ ↦ ()) = .error statement := h
    cases hresult : (s.trip session reason actorId).2 with
    | error statement' =>
      rw [hresult] at hmap
      cases hmap
      rfl
    | ok result =>
      rw [hresult] at hmap
      cases hmap
  rcases transaction_eq_error herror with htables | ⟨-, result, hwork⟩
  · have hsame : (s.trip session reason actorId).1.tables = s.tables := htables
    refine notLessSafe_of_tables (fun _ ↦ rfl) ?_ (congrArg Tables.orders hsame)
      (congrArg Tables.positions hsame)
    exact fun htripped ↦ (congrArg Tables.tripped hsame).trans htripped
  · obtain ⟨horders, hpositions, htripped, -, -⟩ := Tables.stop_eq_ok hwork
    refine ⟨fun _ ↦ rfl, fun _ ↦ htripped, horders ▸ ?_, hpositions ▸ ?_⟩
    · refine List.forall₂_map_right_iff.mpr (List.forall₂_same.mpr fun order _ ↦ ?_)
      by_cases hpending : order.status = .pending
      · exact .inr (isTerminal_cancelOrder.mpr (by simp [hpending]))
      · exact .inl (if_neg hpending)
    · exact List.forall₂_map_right_iff.mpr (List.forall₂_same.mpr fun position _ ↦
        .inr (netQuantity_flatten position))

/-- `reset` clears the switch before it writes anything down. -/
theorem failsSafe_iff (session : DbSession) (call : ServiceCall) (s : KillSwitchService) :
    FailsSafe session call s ↔
      ∀ actorId, call = .reset actorId → ∀ statement ∈ resetStatements,
        session.fault = some statement → s.isTripped = false ∧
          (statement = .acknowledgement → s.tables.tripped = false) := by
  cases call with
  | trip reason actorId => exact iff_of_true (failsSafe_trip session reason actorId s) nofun
  | reset actorId =>
    refine ⟨fun hsafe actorId' hcall statement hmem hfault ↦ ?_, fun hclear statement h ↦ ?_⟩
    · cases hcall
      have herror := (reset_eq_error session actorId s statement).mpr ⟨hmem, hfault⟩
      obtain ⟨hnot, -⟩ := hsafe statement herror
      obtain ⟨-, -, htripped⟩ := reset_tables herror
      refine ⟨Bool.eq_false_iff.mpr fun h ↦ ?_, fun hlast ↦ Bool.eq_false_iff.mpr fun h ↦ ?_⟩
      · cases hnot.memory h
      · exact (htripped.mp (hnot.persisted h)).2 hlast
    · obtain ⟨hmem, hfault⟩ := (reset_eq_error session actorId s statement).mp h
      obtain ⟨hmemory, hlog⟩ := hclear actorId rfl statement hmem hfault
      obtain ⟨horders, hpositions, htripped⟩ := reset_tables h
      refine ⟨notLessSafe_of_tables ?_ ?_ horders hpositions, nofun⟩
      · intro hs
        rw [hmemory] at hs
        cases hs
      · refine fun hs ↦ htripped.mpr ⟨hs, fun hlast ↦ ?_⟩
        rw [hlog hlast] at hs
        cases hs

section Example

def serving (fault : Option Statement) : DbSession where
  columns := postgres
  sha256 := Sha256.hexdigest
  fault := fault
  now := ⟨2026, 9, 14, 9, 20, 0, 0, true, by decide, by decide⟩
  createdAt := ⟨2026, 9, 14, 9, 20, 0, 1, true, by decide, by decide⟩
  nextId := 1

def workingOrder : KillSwitchService :=
  ⟨.init, none, none, ⟨[⟨.opened, none, some 5⟩], [⟨10⟩], []⟩⟩

def trippedService : KillSwitchService :=
  (workingOrder.trip (serving none) "drawdown" "kill_switch_service").1

theorem not_nothingLive_workingOrder :
    let after := workingOrder.trip (serving none) "drawdown" "kill_switch_service"
    after.2 = .ok ⟨"TRIPPED", 1, 0⟩ ∧
      ∀ result, ¬ NothingLive workingOrder.tables after.1.tables result := by
  refine ⟨rfl, fun result h ↦ ?_⟩
  have hopen := h.orders ⟨.opened, none, some 5⟩ (List.mem_singleton_self _)
  cases hopen

theorem not_failsSafe_reset :
    (trippedService.reset (serving (some .insertEntry)) "risk_manager").2 = .error .insertEntry ∧
      trippedService.isTripped ∧ trippedService.tables.tripped ∧
      ¬ FailsSafe (serving (some .insertEntry)) (.reset "risk_manager") trippedService := by
  refine ⟨rfl, rfl, rfl, fun h ↦ ?_⟩
  obtain ⟨hnot, -⟩ := h .insertEntry rfl
  cases hnot.memory rfl

end Example

end KillSwitchService

end TradingOS.Risk
