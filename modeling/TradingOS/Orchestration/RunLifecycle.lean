import Mathlib.Logic.Function.Basic
import TradingOS.Orchestration.TaskLifecycle

namespace TradingOS.Orchestration

open Lib Lib.Runs

/-- `_TERMINAL_RUN_STATUSES` of the run manager. -/
def RunStatus.isTerminal : RunStatus → Bool
  | completed | failed | cannotPlan | cancelled => true
  | _ => false

inductive Writer
  | cancelRun | runSchedulerLoop | finalize | settleRunAfterApproval | recordCannotPlan
  | planRunFailed | checkStalledRuns | promoteQueued
  deriving DecidableEq

abbrev ThreadId := ℕ

/-- A writer between its `session.get` and its commit. -/
structure Session where
  writer : Writer
  snapshot : RunStatus
  decision : Option RunStatus
  decided : Bool
  deriving DecidableEq

structure OrgRun where
  status : RunStatus
  engine : Engine
  undispositioned : ℕ
  pendingApproval : Bool
  sessions : ThreadId → Option Session

inductive OrgEvent
  | read (thread : ThreadId) (writer : Writer)
  | decide (thread : ThreadId)
  | commit (thread : ThreadId)
  | rollback (thread : ThreadId)
  | task (event : Event)
  | reapTasks
  | setDispositions (undispositioned : ℕ)
  | setPendingApproval (pending : Bool)
  deriving DecidableEq

/-- The writer's own check of the status it reads: only these go on. -/
def Writer.admits : Writer → RunStatus → Bool
  | .cancelRun, st => st ∉ [RunStatus.completed, .failed, .cancelled]
  | .runSchedulerLoop, _ => true
  | .finalize, _ => true
  | .settleRunAfterApproval, st => ¬ st.isTerminal
  | .recordCannotPlan, st => st = .planning
  | .planRunFailed, st => st ∉ [RunStatus.cannotPlan, .failed]
  | .checkStalledRuns, st => st = .waiting
  | .promoteQueued, st => st = .queued

namespace Db

def openTasks (db : Db) : ℕ := db.tasks.values.countP fun t ↦ ¬ t.status.isTerminal

def reapTasks (db : Db) : Db :=
  { db with
    tasks := db.tasks.mapVals fun _ t ↦
      if t.status = .running then
        if t.isConcurrencySafe then { t with status := .ready }
        else
          { t with
            status := .failed
            failureReason := some "process restarted mid-execution; not safely re-runnable" }
      else t }

end Db

namespace OrgRun

/-- The status a writer assigns (`none`: it returns without a write). -/
def decision (r : OrgRun) : Writer → Option RunStatus
  | .cancelRun => some .cancelled
  | .runSchedulerLoop => some .running
  | .finalize => (r.engine.db.finalize r.undispositioned r.pendingApproval).1
  | .settleRunAfterApproval =>
    if r.pendingApproval then none else if r.engine.db.openTasks ≠ 0 then none else some .completed
  | .recordCannotPlan => some .cannotPlan
  | .planRunFailed => some .failed
  | .checkStalledRuns => if r.pendingApproval then none else some .stalled
  | .promoteQueued => some .planning

/-- What the `UPDATE` of a commit leaves in the column: the assigned value, unless it is the
one the session has read, which the ORM does not send. -/
def written (r : OrgRun) (session : Session) : RunStatus :=
  match session.decision with
  | none => r.status
  | some st => if st = session.snapshot then r.status else st

def closeSession (r : OrgRun) (thread : ThreadId) : OrgRun :=
  { r with sessions := Function.update r.sessions thread none }

def commit (r : OrgRun) (thread : ThreadId) (session : Session) : OrgRun :=
  { r.closeSession thread with
    status := r.written session
    engine :=
      if session.writer = .cancelRun then { r.engine with db := r.engine.db.cancelTasks }
      else r.engine }

/-- Sessions of all writers run side by side; a writer may start at any moment, since its
caller has checked the run, if at all, in a session of its own. -/
def step (r : OrgRun) : OrgEvent → Option OrgRun
  | .read thread writer =>
    if r.sessions thread = none then
      if writer.admits r.status then
        some
          { r with
            sessions := Function.update r.sessions thread (some ⟨writer, r.status, none, false⟩) }
      else some r
    else none
  | .decide thread =>
    match r.sessions thread with
    | none => none
    | some session =>
      some
        { r with
          sessions := Function.update r.sessions thread
            (some { session with decision := r.decision session.writer, decided := true }) }
  | .commit thread =>
    match r.sessions thread with
    | none => none
    | some session => if session.decided then some (r.commit thread session) else none
  | .rollback thread =>
    match r.sessions thread with
    | none => none
    | some _ => some (r.closeSession thread)
  | .task event => (r.engine.step event).map fun engine ↦ { r with engine := engine }
  | .reapTasks => some { r with engine := { r.engine with db := r.engine.db.reapTasks } }
  | .setDispositions undispositioned => some { r with undispositioned := undispositioned }
  | .setPendingApproval pending => some { r with pendingApproval := pending }

end OrgRun

def StatusKept (r : OrgRun) (_ : OrgEvent) (r' : OrgRun) : Prop :=
  r.status.isTerminal → r'.status = r.status

/-- No writer without a check of its own starts on a run that has ended, and none commits
after the run has ended behind the status it read. -/
def Orderly (r : OrgRun) : OrgEvent → OrgRun → Prop
  | .read _ writer, _ => r.status.isTerminal → writer.admits r.status = false
  | .commit thread, _ => ∀ session, r.sessions thread = some session →
    r.status.isTerminal → session.snapshot = r.status
  | _, _ => True

def ReadOpen (r : OrgRun) : Prop :=
  ∀ thread session, r.sessions thread = some session → session.snapshot.isTerminal = false

theorem readOpen_update {r r' : OrgRun} {thread : ThreadId} {new : Option Session}
    (h : ReadOpen r) (hr' : r'.sessions = Function.update r.sessions thread new)
    (hnew : ∀ session, new = some session → session.snapshot.isTerminal = false) :
    ReadOpen r' := by
  intro k session hk
  rw [hr', Function.update_apply] at hk
  split at hk
  · exact hnew session hk
  · exact h k session hk

theorem step_readOpen {r r' : OrgRun} {event : OrgEvent} (h : ReadOpen r)
    (hord : Orderly r event r') (hstep : r.step event = some r') :
    ReadOpen r' ∧ StatusKept r event r' := by
  cases event with
  | read thread writer =>
    simp only [OrgRun.step] at hstep
    split at hstep
    · split at hstep
      · next hadmits =>
        obtain rfl := Option.some.inj hstep
        refine ⟨readOpen_update h rfl ?_, fun _ ↦ rfl⟩
        rintro session hs
        obtain rfl := Option.some.inj hs
        by_contra hterm
        have hrefused := hord (by simpa using hterm)
        rw [hadmits] at hrefused
        cases hrefused
      · obtain rfl := Option.some.inj hstep
        exact ⟨h, fun _ ↦ rfl⟩
    · cases hstep
  | decide thread =>
    simp only [OrgRun.step] at hstep
    split at hstep
    · cases hstep
    · next session hs =>
      obtain rfl := Option.some.inj hstep
      refine ⟨readOpen_update h rfl ?_, fun _ ↦ rfl⟩
      rintro _ hnew
      obtain rfl := Option.some.inj hnew
      exact h thread session hs
  | commit thread =>
    simp only [OrgRun.step] at hstep
    split at hstep
    · cases hstep
    · next session hs =>
      split at hstep
      · obtain rfl := Option.some.inj hstep
        refine ⟨readOpen_update h rfl (fun _ hnew ↦ by cases hnew), fun hterm ↦ ?_⟩
        have hopen := h thread session hs
        rw [hord session hs hterm, hterm] at hopen
        cases hopen
      · cases hstep
  | rollback thread =>
    simp only [OrgRun.step] at hstep
    split at hstep
    · cases hstep
    · obtain rfl := Option.some.inj hstep
      exact ⟨readOpen_update h rfl (fun _ hnew ↦ by cases hnew), fun _ ↦ rfl⟩
  | task event =>
    obtain ⟨engine, -, rfl⟩ := Option.map_eq_some_iff.mp hstep
    exact ⟨h, fun _ ↦ rfl⟩
  | reapTasks =>
    obtain rfl := Option.some.inj hstep
    exact ⟨h, fun _ ↦ rfl⟩
  | setDispositions undispositioned =>
    obtain rfl := Option.some.inj hstep
    exact ⟨h, fun _ ↦ rfl⟩
  | setPendingApproval pending =>
    obtain rfl := Option.some.inj hstep
    exact ⟨h, fun _ ↦ rfl⟩

/-- A run as `create_run` leaves it, with its plan's tasks and no writer at work. -/
def OrgRun.created (status : RunStatus) (engine : Engine) : OrgRun where
  status := status
  engine := engine
  undispositioned := 0
  pendingApproval := false
  sessions := fun _ ↦ none

/-- In every interleaving of the writers that is orderly, the end of the run is final. -/
theorem run_termination_final (status : RunStatus) (engine : Engine) (events : List OrgEvent)
    (hord : Along OrgRun.step Orderly (.created status engine) events) :
    Along OrgRun.step StatusKept (.created status engine) events := by
  have hopen : ReadOpen (.created status engine) := by
    intro thread session hs
    cases hs
  refine along_of_invariant (fun r event r' h hord hstep ↦ ?_) hopen hord
  exact step_readOpen h hord hstep

theorem run_termination_final_loneTask : Along OrgRun.step StatusKept (.created .planning loneTask)
    [.read 0 .runSchedulerLoop, .decide 0, .commit 0, .task .readyTasks, .task (.claim 0),
      .task (.report 0 .success), .read 0 .finalize, .decide 0, .commit 0, .read 1 .cancelRun] := by
  apply run_termination_final
  refine ⟨fun hterm ↦ ?_, trivial, fun _ _ hterm ↦ ?_, trivial, trivial, trivial,
    fun hterm ↦ ?_, trivial, fun _ _ hterm ↦ ?_, fun _ ↦ rfl, trivial⟩
  all_goals cases hterm

/-- The user cancels while the task is still executing: the loop, which has nothing left to
do, reports the run completed. -/
theorem cancelled_run_completed : ¬ Along OrgRun.step StatusKept (.created .planning loneTask)
    [.read 0 .runSchedulerLoop, .decide 0, .commit 0, .task .readyTasks, .task (.claim 0),
      .read 1 .cancelRun, .decide 1, .commit 1, .task (.report 0 .success), .task .readyTasks,
      .read 0 .finalize, .decide 0, .commit 0] := by
  intro h
  have hkept := h.2.2.2.2.2.2.2.2.2.2.2.2.1 rfl
  cases hkept

end TradingOS.Orchestration
