import TradingOS.Orchestration.ReadyPass

namespace TradingOS.Orchestration

open Lib Lib.Runs

/-- A task as a session has loaded it, and as it stands in the session. -/
structure TaskUpdate where
  taskId : TaskId
  loaded : Task
  current : Task

/-- The `UPDATE` names its row by the key, and sets the columns in which the task has come to
differ from the row it was loaded from. -/
def TaskUpdate.write (u : TaskUpdate) (t : Task) : Task :=
  { t with
    status := if u.current.status = u.loaded.status then t.status else u.current.status
    assignedAgent :=
      if u.current.assignedAgent = u.loaded.assignedAgent then t.assignedAgent
      else u.current.assignedAgent
    retryCount :=
      if u.current.retryCount = u.loaded.retryCount then t.retryCount else u.current.retryCount
    blockedReason :=
      if u.current.blockedReason = u.loaded.blockedReason then t.blockedReason
      else u.current.blockedReason
    failureReason :=
      if u.current.failureReason = u.loaded.failureReason then t.failureReason
      else u.current.failureReason }

/-- What a transaction has still to do: a candidate of `ready_tasks` to settle, the dependencies
of a finished task to select, and one of these to turn and its dependent to wake or to block. -/
inductive Todo
  | settle (tid : TaskId) (row : Task)
  | evaluateOnCompletion (completedTask : TaskId)
  | markUnsatisfiable (prerequisite : TaskId) (capability reason : String)
  | wake (d : TaskDependency)
  | block (d : TaskDependency) (capability reason : String)

/-- A transaction of the task engine. `completes` is the dispatch whose thread runs it. -/
structure Transaction where
  todo : List Todo
  unsent : Option TaskUpdate
  sent : List TaskUpdate
  turned : List ((TaskId × TaskId) × DependencyState)
  completes : Option TaskId

namespace Db

def applyUpdates (db : Db) (sent : List TaskUpdate) : Db :=
  sent.foldl (fun db u ↦ db.modifyTask u.taskId u.write) db

/-- A pair of tasks has one dependency at most (`uq_task_dependency_pair`). -/
def turnDeps (db : Db) (turned : List ((TaskId × TaskId) × DependencyState)) : Db :=
  { db with
    deps := db.deps.map fun d ↦
      { d with state := (turned.lookup (d.dependentTaskId, d.prerequisiteTaskId)).getD d.state } }

def runningRow (db : Db) (tid : TaskId) : Option Task :=
  (db.tasks.get? tid).filter fun t ↦ t.status = .running

end Db

namespace Transaction

def readyTasks (db : Db) : Transaction where
  todo := (db.tasks.rows.filter (·.2.status.isCandidate)).map fun r ↦ .settle r.1 r.2
  unsent := none
  sent := []
  turned := []
  completes := none

/-- `_run_dispatch_and_complete` after its conditional update. -/
def complete (tid : TaskId) (row : Task) : Transaction where
  todo := [.evaluateOnCompletion tid]
  unsent := none
  sent := [⟨tid, row, { row with status := .completed }⟩]
  turned := []
  completes := some tid

/-- `_handle_task_timeout` after its conditional update. -/
def handleTaskTimeout (tid : TaskId) (row : Task) : Transaction where
  todo :=
    let seconds := row.timeoutSeconds
    [.markUnsatisfiable tid row.capability s!"timed out after {seconds}s"]
  unsent := none
  sent :=
    let seconds := row.timeoutSeconds
    [⟨tid, row, { row with
      status := .failed, failureReason := some s!"timed out after {seconds}s" }⟩]
  turned := []
  completes := none

def ofRow (tid : TaskId) (row row' : Task) (todo : List Todo) : Transaction where
  todo := todo
  unsent := some ⟨tid, row, row'⟩
  sent := []
  turned := []
  completes := none

/-- The handlers of the failing outcomes, when they have read their task and assigned to it. -/
def handle (tid : TaskId) (row : Task) : DispatchOutcome → Transaction
  | .success => ofRow tid row row []
  | .dataStale dataset =>
    let reason := s!"data stale: {dataset}"
    ofRow tid row { row with status := .blocked, blockedReason := some reason }
      [.markUnsatisfiable tid row.capability reason]
  | .agentUnavailable error registry =>
    match Db.replacements registry row.capability row.assignedAgent with
    | newAgent :: _ => ofRow tid row { row with assignedAgent := newAgent, status := .ready } []
    | [] =>
      let reason := s!"agent unavailable: {error}"
      ofRow tid row { row with status := .escalated, blockedReason := some reason }
        [.markUnsatisfiable tid row.capability reason]
  | .raised error =>
    if row.retryCount < row.maxRetries then
      ofRow tid row { row with retryCount := row.retryCount + 1, status := .retrying } []
    else
      ofRow tid row { row with status := .failed, failureReason := some error }
        [.markUnsatisfiable tid row.capability "failed after exhausting retries"]

/-- The tables as the transaction sees them: what is committed, under its own writes. -/
def view (x : Transaction) (db : Db) : Db := (db.applyUpdates x.sent).turnDeps x.turned

def turn (x : Transaction) (d : TaskDependency) (st : DependencyState) : Transaction :=
  { x with turned := ((d.dependentTaskId, d.prerequisiteTaskId), st) :: x.turned }

/-- An assignment of the status a task has already is no change. -/
def assign (x : Transaction) (tid : TaskId) (row : Task) (st : TaskStatus) : Transaction :=
  { x with unsent := if row.status = st then none else some ⟨tid, row, { row with status := st }⟩ }

/-- The next statements that read, up to the next update. -/
def perform (x : Transaction) (db : Db) : Todo → Transaction
  | .settle tid row => x.assign tid row ((x.view db).verdict tid)
  | .evaluateOnCompletion completedTask =>
    { x with
      todo := ((x.view db).deps.filter (Db.satisfiedBy completedTask)).map .wake ++ x.todo }
  | .markUnsatisfiable prerequisite capability reason =>
    { x with
      todo := ((x.view db).deps.filter (Db.failedBy prerequisite)).map
        (.block · capability reason) ++ x.todo }
  | .wake d =>
    let x := x.turn d .satisfied
    match (x.view db).tasks.get? d.dependentTaskId with
    | none => x
    | some row =>
      if ¬ row.status.isTerminal ∧ (x.view db).hardSatisfied d.dependentTaskId then
        x.assign d.dependentTaskId row .ready
      else x
  | .block d capability reason =>
    let x := x.turn d .failed
    match (x.view db).tasks.get? d.dependentTaskId with
    | none => x
    | some row =>
      if row.status.isTerminal then x
      else
        { x with
          unsent := some ⟨d.dependentTaskId, row, { row with
            status := .blocked
            blockedReason := some s!"prerequisite task '{capability}' {reason}" }⟩ }

def next (x : Transaction) (db : Db) : Option Transaction :=
  match x.todo, x.unsent with
  | item :: rest, none => some ({ x with todo := rest }.perform db item)
  | _, _ => none

def send (x : Transaction) : Option Transaction :=
  x.unsent.map fun u ↦ { x with unsent := none, sent := x.sent ++ [u] }

def isOver (x : Transaction) : Bool := x.todo.isEmpty && x.unsent.isNone

end Transaction

/-- The tasks of a run under any number of open transactions. A timeout leaves its dispatch
among `dispatches`: nobody kills its thread. -/
structure TaskRace where
  db : Db
  eventLock : Option ℕ
  transactions : ℕ → Option Transaction
  dispatches : List TaskId

namespace TaskRace

inductive Event
  | claim (tid : TaskId)
  | readyTasks (i : ℕ)
  | complete (i : ℕ) (tid : TaskId)
  | handle (i : ℕ) (tid : TaskId) (outcome : DispatchOutcome)
  | timeout (i : ℕ) (tid : TaskId)
  | next (i : ℕ)
  | send (i : ℕ)
  | commit (i : ℕ)
  | rollback (i : ℕ)
  | cancelRun
  deriving DecidableEq

def setTransaction (s : TaskRace) (i : ℕ) (x : Option Transaction) : TaskRace :=
  { s with transactions := Function.update s.transactions i x }

def release (s : TaskRace) (i : ℕ) : Option ℕ := if s.eventLock = some i then none else s.eventLock

/-- The rows under an update that is not committed. -/
def lockedRows (s : TaskRace) : List TaskId :=
  match s.eventLock.bind s.transactions with
  | none => []
  | some x => x.sent.map TaskUpdate.taskId

/-- An update `WHERE status = 'running'`, and the event that follows it if it finds its row. -/
def updateRunning (s : TaskRace) (i : ℕ) (tid : TaskId) (x : TaskId → Task → Transaction) :
    Option TaskRace :=
  match s.db.runningRow tid with
  | none => some s
  | some row =>
    if s.eventLock = none then
      some { s.setTransaction i (some (x tid row)) with eventLock := some i }
    else none

/-- An update is sent when its event has taken the run's event lock, which is held to the end of
the transaction. A thread whose completion is rolled back has still to report the error. The
cancellation of the run emits no event, and waits for the rows alone. -/
def step (s : TaskRace) : Event → Option TaskRace
  | .claim tid =>
    match s.db.claim tid with
    | none => some s
    | some db =>
      if s.eventLock = none then some { s with db := db, dispatches := tid :: s.dispatches }
      else none
  | .readyTasks i =>
    if (s.transactions i).isNone then some (s.setTransaction i (some (.readyTasks s.db))) else none
  | .complete i tid =>
    if tid ∈ s.dispatches ∧ (s.transactions i).isNone then
      { s with dispatches := s.dispatches.erase tid }.updateRunning i tid .complete
    else none
  | .handle i tid outcome =>
    if tid ∈ s.dispatches ∧ (s.transactions i).isNone ∧ outcome ≠ .success then
      let s := { s with dispatches := s.dispatches.erase tid }
      match s.db.tasks.get? tid with
      | none => some s
      | some row => some (s.setTransaction i (some (.handle tid row outcome)))
    else none
  | .timeout i tid =>
    if (s.transactions i).isNone then s.updateRunning i tid .handleTaskTimeout else none
  | .next i => ((s.transactions i).bind (·.next s.db)).map fun x ↦ s.setTransaction i (some x)
  | .send i =>
    if s.eventLock = none ∨ s.eventLock = some i then
      ((s.transactions i).bind Transaction.send).map fun x ↦
        { s.setTransaction i (some x) with eventLock := some i }
    else none
  | .commit i =>
    match s.transactions i with
    | none => none
    | some x =>
      if x.isOver then
        some { s.setTransaction i none with db := x.view s.db, eventLock := s.release i }
      else none
  | .rollback i =>
    (s.transactions i).map fun x ↦
      { s.setTransaction i none with
        eventLock := s.release i
        dispatches := x.completes.toList ++ s.dispatches }
  | .cancelRun =>
    if ∀ k ∈ s.lockedRows, s.db.cancelTasks.statusOf k = s.db.statusOf k then
      some { s with db := s.db.cancelTasks }
    else none

/-- A step of the engine itself (anything but the user's cancel) leaves every terminal task
as it is. -/
def TerminalKept (s : TaskRace) (event : Event) (s' : TaskRace) : Prop :=
  event ≠ .cancelRun → s.db.Keeps s'.db

/-- A failing result finds its task open, or in the status it writes itself; and no task ends
between the statement that reads it and the update that names it by its key. -/
def Undisturbed (s : TaskRace) : Event → TaskRace → Prop
  | .handle _ tid outcome, _ =>
    ∀ row, s.db.tasks.get? tid = some row → row.status.isTerminal → outcome.HarmlessFor row
  | .send i, _ =>
    ∀ x u row, s.transactions i = some x → x.unsent = some u →
      s.db.tasks.get? u.taskId = some row → row.status.isTerminal → u.loaded.status = row.status
  | _, _ => True

end TaskRace

section Updates

variable {db : Db}

def TaskUpdate.KeepsStatus (u : TaskUpdate) : Prop := u.current.status = u.loaded.status

theorem TaskUpdate.KeepsStatus.write {u : TaskUpdate} (h : u.KeepsStatus) (t : Task) :
    (u.write t).status = t.status := if_pos h

theorem Db.applyUpdates_statusOf {sent : List TaskUpdate} {k : TaskId}
    (h : ∀ u ∈ sent, u.taskId = k → u.KeepsStatus) :
    (db.applyUpdates sent).statusOf k = db.statusOf k := by
  induction sent generalizing db with
  | nil => rfl
  | cons u sent ih =>
    have hrest : ((db.modifyTask u.taskId u.write).applyUpdates sent).statusOf k =
        (db.modifyTask u.taskId u.write).statusOf k := ih fun v hv ↦ h v (.tail u hv)
    refine hrest.trans ?_
    rw [Db.statusOf, Db.modifyTask_get?]
    split_ifs with hk
    · have hu := h u List.mem_cons_self hk.symm
      rw [Db.statusOf, Option.map_map]
      exact congrArg (Option.map · _) (funext hu.write)
    · rfl

theorem Db.runningRow_eq_some {tid : TaskId} {row : Task} :
    db.runningRow tid = some row ↔ db.tasks.get? tid = some row ∧ row.status = .running := by
  simp only [runningRow, Option.filter_eq_some_iff, decide_eq_true_eq]

theorem DispatchOutcome.HarmlessFor.keepsStatus {tid : TaskId} {row : Task}
    {outcome : DispatchOutcome} (h : outcome.HarmlessFor row) {u : TaskUpdate}
    (hu : (Transaction.handle tid row outcome).unsent = some u) : u.KeepsStatus := by
  cases outcome with
  | success =>
    obtain rfl := Option.some.inj hu
    rfl
  | dataStale dataset =>
    obtain rfl := Option.some.inj hu
    exact h.symm
  | agentUnavailable error registry =>
    simp only [Transaction.handle, h.2] at hu
    obtain rfl := Option.some.inj hu
    exact h.1.symm
  | raised error =>
    simp only [Transaction.handle, if_neg (Nat.not_lt.mpr h.2)] at hu
    obtain rfl := Option.some.inj hu
    exact h.1.symm

/-- What a handler assigns to is the row it has read, and it has sent nothing. -/
theorem Transaction.handle_spec (tid : TaskId) (row : Task) (outcome : DispatchOutcome) :
    (∀ k r, Todo.settle k r ∉ (handle tid row outcome).todo) ∧
      (handle tid row outcome).sent = [] ∧
      ∀ u, (handle tid row outcome).unsent = some u → u.loaded = row := by
  cases outcome with
  | agentUnavailable error registry =>
    simp only [handle]
    split <;> simp [ofRow]
  | raised error =>
    simp only [handle]
    split <;> simp [ofRow]
  | _ => simp [handle, ofRow]

end Updates

/-- A transaction has read open tasks only, or assigns the status it has read; and so far as its
updates have been sent, the rows they name are open or keep their status. -/
structure Transaction.Fits (db : Db) (x : Transaction) : Prop where
  settle : ∀ tid row, .settle tid row ∈ x.todo → row.status.isTerminal = false
  unsent : ∀ u, x.unsent = some u → u.loaded.status.isTerminal → u.KeepsStatus
  sent : ∀ u ∈ x.sent, ∀ st, db.statusOf u.taskId = some st → st.isTerminal → u.KeepsStatus

namespace Transaction

variable {db : Db} {x : Transaction}

theorem Fits.assign (h : x.Fits db) {row : Task} (hrow : row.status.isTerminal = false)
    (tid : TaskId) (st : TaskStatus) : (x.assign tid row st).Fits db := by
  refine ⟨h.settle, fun u hu hterm ↦ ?_, h.sent⟩
  simp only [Transaction.assign] at hu
  split_ifs at hu
  obtain rfl := Option.some.inj hu
  simp [hrow] at hterm

theorem Fits.turn (h : x.Fits db) (d : TaskDependency) (st : DependencyState) :
    (x.turn d st).Fits db :=
  ⟨h.settle, h.unsent, h.sent⟩

theorem Fits.prepend (h : x.Fits db) {items : List Todo}
    (hitems : ∀ tid row, Todo.settle tid row ∉ items) :
    Fits db { x with todo := items ++ x.todo } := by
  refine ⟨fun tid row hmem ↦ ?_, h.unsent, h.sent⟩
  rcases List.mem_append.mp hmem with hmem | hmem
  · exact (hitems tid row hmem).elim
  · exact h.settle tid row hmem

theorem Fits.perform (h : x.Fits db) {item : Todo}
    (hitem : ∀ tid row, item = .settle tid row → row.status.isTerminal = false) :
    (x.perform db item).Fits db := by
  cases item with
  | settle tid row => exact h.assign (hitem tid row rfl) _ _
  | evaluateOnCompletion completedTask => exact h.prepend fun tid row ↦ by simp
  | markUnsatisfiable prerequisite capability reason => exact h.prepend fun tid row ↦ by simp
  | wake d =>
    have hturn := h.turn d .satisfied
    simp only [Transaction.perform]
    split
    · exact hturn
    · next row hrow =>
      split_ifs with hopen
      · exact hturn.assign (by simpa using hopen.1) _ _
      · exact hturn
  | block d capability reason =>
    have hturn := h.turn d .failed
    simp only [Transaction.perform]
    split
    · exact hturn
    · next row hrow =>
      split_ifs with hterm
      · exact hturn
      · refine ⟨hturn.settle, fun u hu hloaded ↦ ?_, hturn.sent⟩
        obtain rfl := Option.some.inj hu
        exact absurd hloaded hterm

theorem Fits.next (h : x.Fits db) {y : Transaction} (hnext : x.next db = some y) :
    y.Fits db := by
  simp only [Transaction.next] at hnext
  split at hnext
  · next item rest htodo hunsent =>
    obtain rfl := Option.some.inj hnext
    have hrest : Fits db { x with todo := rest } :=
      ⟨fun tid row hmem ↦ h.settle tid row (by rw [htodo]; exact .tail item hmem),
        h.unsent, h.sent⟩
    refine hrest.perform fun tid row hitem ↦ h.settle tid row ?_
    rw [htodo, hitem]
    exact List.mem_cons_self
  · cases hnext

/-- What a transaction reads and assigns does not touch what it has sent. -/
theorem next_sent {y : Transaction} (hnext : x.next db = some y) : y.sent = x.sent := by
  simp only [Transaction.next] at hnext
  split at hnext
  · next item rest _ _ =>
    obtain rfl := Option.some.inj hnext
    cases item with
    | wake d =>
      simp only [perform]
      split
      · rfl
      · split_ifs <;> rfl
    | block d capability reason =>
      simp only [perform]
      split
      · rfl
      · split_ifs <;> rfl
    | _ => rfl
  · cases hnext

theorem Fits.of_statusOf (h : x.Fits db) {db' : Db}
    (hdb' : ∀ u ∈ x.sent, db'.statusOf u.taskId = db.statusOf u.taskId) : x.Fits db' :=
  ⟨h.settle, h.unsent, fun u hu st hst ↦ h.sent u hu st (hdb' u hu ▸ hst)⟩

theorem fits_readyTasks (db : Db) : (readyTasks db).Fits db := by
  refine ⟨fun tid row hmem ↦ ?_, fun u hu ↦ (Option.some_ne_none u hu.symm).elim,
    fun u hu ↦ (List.not_mem_nil hu).elim⟩
  obtain ⟨r, hr, he⟩ := List.mem_map.mp hmem
  obtain ⟨-, rfl⟩ := Todo.settle.inj he
  exact TaskStatus.not_isTerminal_of_isCandidate (List.mem_filter.mp hr).2

/-- A row found `running` is open, and stays so under the update. -/
theorem fits_of_running {tid : TaskId} {row : Task} (hrow : db.runningRow tid = some row)
    (htodo : ∀ k r, Todo.settle k r ∉ x.todo) (hunsent : x.unsent = none)
    (hsent : ∀ u ∈ x.sent, u.taskId = tid) : x.Fits db := by
  obtain ⟨hget, hrunning⟩ := Db.runningRow_eq_some.mp hrow
  refine ⟨fun k r hmem ↦ (htodo k r hmem).elim, fun u hu ↦ ?_, fun u hu st hst hterm ↦ ?_⟩
  · rw [hunsent] at hu
    cases hu
  · obtain ⟨t, ht, rfl⟩ := Db.statusOf_eq_some.mp (hsent u hu ▸ hst)
    obtain rfl := Option.some.inj (hget.symm.trans ht)
    simp [hrunning, TaskStatus.isTerminal] at hterm

theorem Fits.keeps_view (h : x.Fits db) : db.Keeps (x.view db) := by
  intro tid st hst hterm
  refine (Db.applyUpdates_statusOf fun u hu htid ↦ ?_).trans hst
  exact h.sent u hu st (by rw [htid]; exact hst) hterm

end Transaction

namespace TaskRace

structure Inv (s : TaskRace) : Prop where
  fits : ∀ i x, s.transactions i = some x → x.Fits s.db
  lock : ∀ i x, s.transactions i = some x → x.sent ≠ [] → s.eventLock = some i

variable {s t : TaskRace}

/-- The tables of a run with no transaction open. -/
def begin (db : Db) (dispatches : List TaskId) : TaskRace := ⟨db, none, fun _ ↦ none, dispatches⟩

theorem inv_begin (db : Db) (dispatches : List TaskId) : Inv (begin db dispatches) :=
  ⟨fun _ x hx ↦ (Option.some_ne_none x hx.symm).elim,
    fun _ x hx ↦ (Option.some_ne_none x hx.symm).elim⟩

@[simp] theorem setTransaction_self (i : ℕ) (x : Option Transaction) :
    (s.setTransaction i x).transactions i = x := by
  simp only [setTransaction, Function.update_self]

theorem setTransaction_ne {i j : ℕ} (hj : j ≠ i) (x : Option Transaction) :
    (s.setTransaction i x).transactions j = s.transactions j := by
  simp only [setTransaction, Function.update_of_ne hj]

theorem Inv.setTransaction (h : Inv s) {i : ℕ} {x : Option Transaction} {lock : Option ℕ}
    (hfits : ∀ y, x = some y → y.Fits s.db) (hlock : ∀ y, x = some y → y.sent ≠ [] → lock = some i)
    (hother : ∀ j, j ≠ i → s.eventLock = some j → lock = some j) (dispatches : List TaskId) :
    Inv { s.setTransaction i x with eventLock := lock, dispatches := dispatches } := by
  refine ⟨fun j y hy ↦ ?_, fun j y hy hsent ↦ ?_⟩
  · by_cases hj : j = i
    · subst hj
      exact hfits y ((s.setTransaction_self j x).symm.trans hy)
    · exact h.fits j y ((setTransaction_ne hj x).symm.trans hy)
  · by_cases hj : j = i
    · subst hj
      exact hlock y ((s.setTransaction_self j x).symm.trans hy) hsent
    · exact hother j hj (h.lock j y ((setTransaction_ne hj x).symm.trans hy) hsent)

/-- The tables change only in rows that no open transaction has an update on. -/
theorem Inv.setDb (h : Inv s) {db : Db} (dispatches : List TaskId)
    (hrows : ∀ i x, s.transactions i = some x → ∀ u ∈ x.sent,
      db.statusOf u.taskId = s.db.statusOf u.taskId) :
    Inv { s with db := db, dispatches := dispatches } :=
  ⟨fun i x hx ↦ (h.fits i x hx).of_statusOf (hrows i x hx), h.lock⟩

theorem Inv.sent_eq_nil (h : Inv s) (hlock : s.eventLock = none) {i : ℕ} {x : Transaction}
    (hx : s.transactions i = some x) : x.sent = [] := by
  by_contra hsent
  have := h.lock i x hx hsent
  rw [hlock] at this
  cases this

theorem Inv.updateRunning (h : Inv s) {i : ℕ} {tid : TaskId} {x : TaskId → Task → Transaction}
    (htodo : ∀ row k r, Todo.settle k r ∉ (x tid row).todo)
    (hunsent : ∀ row, (x tid row).unsent = none)
    (hsent : ∀ row, ∀ u ∈ (x tid row).sent, u.taskId = tid)
    (hstep : s.updateRunning i tid x = some t) : Inv t := by
  simp only [TaskRace.updateRunning] at hstep
  split at hstep
  · obtain rfl := Option.some.inj hstep
    exact h
  · next row hrow =>
    split_ifs at hstep with hlock
    obtain rfl := Option.some.inj hstep
    refine h.setTransaction (fun y hy ↦ ?_) (fun _ _ _ ↦ rfl) (fun j _ hj ↦ ?_) s.dispatches
    · obtain rfl := Option.some.inj hy
      exact Transaction.fits_of_running hrow (htodo row) (hunsent row) (hsent row)
    · rw [hlock] at hj
      cases hj

theorem Inv.claim (h : Inv s) {tid : TaskId} (hstep : s.step (.claim tid) = some t) : Inv t := by
  simp only [step] at hstep
  split at hstep
  · obtain rfl := Option.some.inj hstep
    exact h
  · next db hclaim =>
    split_ifs at hstep with hlock
    obtain rfl := Option.some.inj hstep
    refine h.setDb (tid :: s.dispatches) fun i x hx u hu ↦ ?_
    rw [h.sent_eq_nil hlock hx] at hu
    cases hu

theorem Inv.handle (h : Inv s) {i : ℕ} {tid : TaskId} {outcome : DispatchOutcome}
    (hcond : s.Undisturbed (.handle i tid outcome) t)
    (hstep : s.step (.handle i tid outcome) = some t) : Inv t := by
  simp only [step] at hstep
  split_ifs at hstep with hgo
  split at hstep
  · obtain rfl := Option.some.inj hstep
    exact ⟨h.fits, h.lock⟩
  · next row hrow =>
    obtain rfl := Option.some.inj hstep
    obtain ⟨hsettle, hsent, hloaded⟩ := Transaction.handle_spec tid row outcome
    refine h.setTransaction (fun y hy ↦ ?_) (fun y hy hne ↦ ?_) (fun _ _ ↦ id) _
    · obtain rfl := Option.some.inj hy
      refine ⟨fun k r hk ↦ (hsettle k r hk).elim, fun u hu hterm ↦ ?_, fun u hu ↦ ?_⟩
      · have hharmless := hcond row hrow (hloaded u hu ▸ hterm)
        exact hharmless.keepsStatus hu
      · rw [hsent] at hu
        cases hu
    · obtain rfl := Option.some.inj hy
      exact (hne hsent).elim

theorem Inv.next (h : Inv s) {i : ℕ} (hstep : s.step (.next i) = some t) : Inv t := by
  simp only [step] at hstep
  obtain ⟨y, hy, rfl⟩ := Option.map_eq_some_iff.mp hstep
  obtain ⟨x, hx, hnext⟩ := Option.bind_eq_some_iff.mp hy
  refine h.setTransaction (fun z hz ↦ ?_) (fun z hz hne ↦ ?_) (fun _ _ ↦ id) s.dispatches
  · obtain rfl := Option.some.inj hz
    exact (h.fits i x hx).next hnext
  · obtain rfl := Option.some.inj hz
    exact h.lock i x hx (Transaction.next_sent hnext ▸ hne)

/-- An update is sent to a row that is still open, or in the terminal status it was read in. -/
theorem Inv.send (h : Inv s) {i : ℕ} (hcond : s.Undisturbed (.send i) t)
    (hstep : s.step (.send i) = some t) : Inv t := by
  simp only [step] at hstep
  split_ifs at hstep with hlock
  obtain ⟨y, hy, rfl⟩ := Option.map_eq_some_iff.mp hstep
  obtain ⟨x, hx, hsend⟩ := Option.bind_eq_some_iff.mp hy
  obtain ⟨u, hu, rfl⟩ := Option.map_eq_some_iff.mp hsend
  have hx' := h.fits i x hx
  refine h.setTransaction (fun z hz ↦ ?_) (fun _ _ _ ↦ rfl) (fun j hj hheld ↦ ?_) s.dispatches
  · obtain rfl := Option.some.inj hz
    refine ⟨hx'.settle, fun v hv ↦ (Option.some_ne_none v hv.symm).elim,
      fun v hv st hst hterm ↦ ?_⟩
    rcases List.mem_append.mp hv with hv | hv
    · exact hx'.sent v hv st hst hterm
    · obtain rfl := List.mem_singleton.mp hv
      obtain ⟨row, hrow, rfl⟩ := Db.statusOf_eq_some.mp hst
      have hloaded := hcond x v row hx hu hrow hterm
      exact hx'.unsent v hu (hloaded ▸ hterm)
  · rcases hlock with hfree | hmine
    · rw [hfree] at hheld
      cases hheld
    · exact (hj (Option.some.inj (hheld.symm.trans hmine))).elim

theorem release_eq_some {i j : ℕ} (hj : j ≠ i) (hheld : s.eventLock = some j) :
    s.release i = some j := by
  rw [release, hheld, if_neg fun he ↦ hj (Option.some.inj he)]

theorem Inv.close (h : Inv s) (i : ℕ) (dispatches : List TaskId) :
    Inv { s.setTransaction i none with eventLock := s.release i, dispatches := dispatches } :=
  h.setTransaction (fun y hy ↦ (Option.some_ne_none y hy.symm).elim)
    (fun y hy ↦ (Option.some_ne_none y hy.symm).elim) (fun _ ↦ release_eq_some) dispatches

theorem Inv.commit (h : Inv s) {i : ℕ} (hstep : s.step (.commit i) = some t) : Inv t := by
  simp only [step] at hstep
  split at hstep
  · cases hstep
  · next x hx =>
    split_ifs at hstep with hover
    obtain rfl := Option.some.inj hstep
    refine (h.close i s.dispatches).setDb s.dispatches fun j y hy u hu ↦ ?_
    by_cases hj : j = i
    · subst hj
      cases (s.setTransaction_self j none).symm.trans hy
    · have hheld := h.lock j y ((setTransaction_ne hj none).symm.trans hy) (List.ne_nil_of_mem hu)
      have hnil : x.sent = [] := by
        by_contra hsent
        exact hj (Option.some.inj (hheld.symm.trans (h.lock i x hx hsent)))
      exact Db.applyUpdates_statusOf fun v hv ↦ by rw [hnil] at hv; cases hv

theorem mem_lockedRows (h : Inv s) {i : ℕ} {x : Transaction} (hx : s.transactions i = some x)
    {u : TaskUpdate} (hu : u ∈ x.sent) : u.taskId ∈ s.lockedRows := by
  have hheld := h.lock i x hx (List.ne_nil_of_mem hu)
  simp only [lockedRows, hheld, Option.bind_some, hx]
  exact List.mem_map_of_mem hu

theorem Inv.cancelRun (h : Inv s) (hstep : s.step .cancelRun = some t) : Inv t := by
  simp only [step] at hstep
  split_ifs at hstep with hrows
  obtain rfl := Option.some.inj hstep
  exact h.setDb s.dispatches fun i x hx u hu ↦ hrows u.taskId (mem_lockedRows h hx hu)

theorem Inv.step (h : Inv s) (e : Event) (hcond : s.Undisturbed e t) (hstep : s.step e = some t) :
    Inv t := by
  cases e with
  | claim tid => exact h.claim hstep
  | readyTasks i =>
    simp only [TaskRace.step] at hstep
    split_ifs at hstep
    obtain rfl := Option.some.inj hstep
    refine h.setTransaction (fun y hy ↦ ?_) (fun y hy hne ↦ ?_) (fun _ _ ↦ id) s.dispatches
    · obtain rfl := Option.some.inj hy
      exact Transaction.fits_readyTasks s.db
    · obtain rfl := Option.some.inj hy
      exact (hne rfl).elim
  | complete i tid =>
    simp only [TaskRace.step] at hstep
    split_ifs at hstep
    have hbefore : Inv { s with dispatches := s.dispatches.erase tid } := ⟨h.fits, h.lock⟩
    exact hbefore.updateRunning (by simp [Transaction.complete]) (fun _ ↦ rfl)
      (by simp [Transaction.complete]) hstep
  | handle i tid outcome => exact h.handle hcond hstep
  | timeout i tid =>
    simp only [TaskRace.step] at hstep
    split_ifs at hstep
    exact h.updateRunning (by simp [Transaction.handleTaskTimeout]) (fun _ ↦ rfl)
      (by simp [Transaction.handleTaskTimeout]) hstep
  | next i => exact h.next hstep
  | send i => exact h.send hcond hstep
  | commit i => exact h.commit hstep
  | rollback i =>
    simp only [TaskRace.step] at hstep
    obtain ⟨x, -, rfl⟩ := Option.map_eq_some_iff.mp hstep
    exact h.close i _
  | cancelRun => exact h.cancelRun hstep

theorem db_of_updateRunning {i : ℕ} {tid : TaskId} {x : TaskId → Task → Transaction}
    (hstep : s.updateRunning i tid x = some t) : t.db = s.db := by
  simp only [TaskRace.updateRunning] at hstep
  split at hstep
  · rw [← Option.some.inj hstep]
  · split_ifs at hstep
    rw [← Option.some.inj hstep]
    rfl

/-- A claim and a commit are the engine's only steps that change the tables. -/
theorem db_of_step {e : Event} (hstep : s.step e = some t) :
    t.db = s.db ∨ (∃ tid, s.db.claim tid = some t.db) ∨
      (∃ i x, e = .commit i ∧ s.transactions i = some x ∧ t.db = x.view s.db) ∨
      e = .cancelRun := by
  cases e with
  | claim tid =>
    simp only [TaskRace.step] at hstep
    split at hstep
    · exact .inl (Option.some.inj hstep ▸ rfl)
    · next db hclaim =>
      split_ifs at hstep
      exact .inr (.inl ⟨tid, Option.some.inj hstep ▸ hclaim⟩)
  | readyTasks i =>
    simp only [TaskRace.step] at hstep
    split_ifs at hstep
    exact .inl (Option.some.inj hstep ▸ rfl)
  | complete i tid =>
    simp only [TaskRace.step] at hstep
    split_ifs at hstep
    have hdb := db_of_updateRunning hstep
    exact .inl hdb
  | handle i tid outcome =>
    simp only [TaskRace.step] at hstep
    split_ifs at hstep
    split at hstep
    · exact .inl (Option.some.inj hstep ▸ rfl)
    · exact .inl (Option.some.inj hstep ▸ rfl)
  | timeout i tid =>
    simp only [TaskRace.step] at hstep
    split_ifs at hstep
    exact .inl (db_of_updateRunning hstep)
  | next i =>
    simp only [TaskRace.step] at hstep
    obtain ⟨y, -, rfl⟩ := Option.map_eq_some_iff.mp hstep
    exact .inl rfl
  | send i =>
    simp only [TaskRace.step] at hstep
    split_ifs at hstep
    obtain ⟨y, -, rfl⟩ := Option.map_eq_some_iff.mp hstep
    exact .inl rfl
  | commit i =>
    simp only [TaskRace.step] at hstep
    split at hstep
    · cases hstep
    · next x hx =>
      split_ifs at hstep
      exact .inr (.inr (.inl ⟨i, x, rfl, hx, Option.some.inj hstep ▸ rfl⟩))
  | rollback i =>
    simp only [TaskRace.step] at hstep
    obtain ⟨x, -, rfl⟩ := Option.map_eq_some_iff.mp hstep
    exact .inl rfl
  | cancelRun => exact .inr (.inr (.inr rfl))

theorem Inv.terminalKept (h : Inv s) {e : Event} (hstep : s.step e = some t) :
    s.TerminalKept e t := by
  intro hne
  rcases db_of_step hstep with hdb | ⟨tid, hclaim⟩ | ⟨i, x, rfl, hx, hdb⟩ | he
  · rw [hdb]
    exact .refl s.db
  · exact Db.claim_keeps hclaim
  · rw [hdb]
    exact (h.fits i x hx).keeps_view
  · exact absurd he hne

/-- In every interleaving of the engine's transactions and of user cancels, the engine leaves the
terminal statuses alone if no failing result finds its task terminal, but in the status that it
writes itself, and no task ends between the statement that reads it and the update of its row. -/
theorem terminal_statuses_absorbing (db : Db) (dispatches : List TaskId) (events : List Event)
    (h : Along step Undisturbed (begin db dispatches) events) :
    Along step TerminalKept (begin db dispatches) events :=
  along_of_invariant (fun _ e _ hinv hcond hstep ↦ ⟨hinv.step e hcond hstep, hinv.terminalKept hstep⟩)
    (inv_begin db dispatches) h

section Example

def loneTask : TaskRace :=
  begin
    { tasks := ⟨[(0, ⟨"screen", "screener", .planned, true, 0, 3, 600, none, none⟩)],
        List.nodup_singleton _⟩
      deps := [] } []

def pollAndClaim : List Event := [.readyTasks 0, .next 0, .send 0, .commit 0, .claim 0]

/-- The task times out while its thread is about to report a success. -/
theorem terminal_statuses_absorbing_lateSuccess :
    Along step TerminalKept loneTask
      (pollAndClaim ++ [.timeout 0 0, .next 0, .commit 0, .complete 1 0, .cancelRun]) := by
  refine terminal_statuses_absorbing _ [] _ ?_
  refine ⟨trivial, trivial, ?_, trivial, trivial, trivial, trivial, trivial, trivial, trivial,
    trivial⟩
  intro x u row hx hu hrow hterm
  cases hx
  cases hu
  cases hrow
  cases hterm

/-- The task times out, its thread raises afterwards: the failed task is put back to
`retrying`. -/
theorem late_orphan_revives_failed_task :
    ¬ Along step TerminalKept loneTask
      (pollAndClaim ++ [.timeout 0 0, .next 0, .commit 0, .handle 1 0 (.raised "connection reset"),
        .send 1, .commit 1]) := by
  intro h
  have hkept := h.2.2.2.2.2.2.2.2.2.2.1 (by decide) 0 .failed (by decide +kernel) rfl
  exact absurd hkept (by decide +kernel)

/-- The user cancels the run between the poll's reading and its update. -/
theorem poll_readies_cancelled_task :
    ¬ Along step TerminalKept loneTask [.readyTasks 0, .next 0, .cancelRun, .send 0, .commit 0] := by
  intro h
  have hkept := h.2.2.2.2.1 (by decide) 0 .cancelled (by decide +kernel) rfl
  exact absurd hkept (by decide +kernel)

end Example

end TaskRace

end TradingOS.Orchestration
