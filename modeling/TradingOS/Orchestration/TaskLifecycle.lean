import TradingOS.Lib.Runs
import TradingOS.Orchestration.TaskEngine

namespace TradingOS.Orchestration

open Lib Lib.Runs

/-- The rows, and the dispatch threads that have not reported yet. A timeout leaves its
thread among them: nobody kills it. -/
structure Engine where
  db : Db
  dispatches : List TaskId
  deriving DecidableEq

/-- What can happen to a run's tasks, one transaction at a time. -/
inductive Event
  | readyTasks
  | claim (tid : TaskId)
  | report (tid : TaskId) (outcome : DispatchOutcome)
  | timeout (tid : TaskId)
  | cancelRun
  deriving DecidableEq

def Engine.step (e : Engine) : Event → Option Engine
  | .readyTasks => some { e with db := e.db.readyTasks.1 }
  | .claim tid =>
    match e.db.claim tid with
    | some db => some { db := db, dispatches := tid :: e.dispatches }
    | none => some e
  | .report tid outcome =>
    if tid ∈ e.dispatches then
      some
        { db := e.db.runDispatchAndComplete tid outcome
          dispatches := e.dispatches.erase tid }
    else none
  | .timeout tid => some { e with db := e.db.handleTaskTimeout tid }
  | .cancelRun => some { e with db := e.db.cancelTasks }

namespace Db

def Keeps (db db' : Db) : Prop :=
  ∀ tid st, db.statusOf tid = some st → st.isTerminal → db'.statusOf tid = some st

theorem Keeps.refl (db : Db) : Keeps db db := fun _ _ h _ ↦ h

theorem Keeps.trans {db₁ db₂ db₃ : Db} (h : Keeps db₁ db₂) (h' : Keeps db₂ db₃) :
    Keeps db₁ db₃ :=
  fun tid st hs ht ↦ h' tid st (h tid st hs ht) ht

theorem keeps_of_mapVals {db db' : Db} {f : TaskId → Task → Task}
    (hdb' : db'.tasks = db.tasks.mapVals f)
    (hf : ∀ tid t, t.status.isTerminal → (f tid t).status = t.status) : Keeps db db' := by
  intro tid st hs ht
  obtain ⟨t, hget, rfl⟩ := statusOf_eq_some.mp hs
  refine statusOf_eq_some.mpr ⟨f tid t, ?_, hf tid t ht⟩
  rw [hdb', Table.get?_mapVals, hget, Option.map_some]

theorem readyTasks_keeps (db : Db) : Keeps db db.readyTasks.1 := by
  refine keeps_of_mapVals rfl fun tid t ht ↦ ?_
  simp only [settle]
  split
  · next hc =>
    rw [TaskStatus.not_isTerminal_of_isCandidate hc] at ht
    cases ht
  · rfl

theorem evaluateOnCompletion_keeps (db : Db) (tid : TaskId) :
    Keeps db (db.evaluateOnCompletion tid) :=
  keeps_of_mapVals rfl fun _ _ ht ↦ by simp [wake, ht]

theorem markUnsatisfiable_keeps (db : Db) (tid : TaskId) (capability reason : String) :
    Keeps db (db.markUnsatisfiable tid capability reason) :=
  keeps_of_mapVals rfl fun _ _ ht ↦ by simp [block, ht]

/-- A write of one fixed status is invisible to the terminal tasks exactly if a task already
terminal has that status. -/
theorem modifyTask_keeps_iff {db : Db} {tid : TaskId} {f : Task → Task} (st : TaskStatus)
    (hf : ∀ t, (f t).status = st) :
    Keeps db (db.modifyTask tid f) ↔
      ∀ t, db.tasks.get? tid = some t → t.status.isTerminal → t.status = st := by
  constructor
  · intro h t ht hterm
    obtain ⟨t', ht', he⟩ :=
      statusOf_eq_some.mp (h tid t.status (statusOf_eq_some.mpr ⟨t, ht, rfl⟩) hterm)
    rw [modifyTask_get?, if_pos rfl, ht, Option.map_some, Option.some.injEq] at ht'
    rw [← he, ← ht', hf]
  · intro h k st' hs hterm
    obtain ⟨t, ht, rfl⟩ := statusOf_eq_some.mp hs
    rw [statusOf, modifyTask_get?]
    split
    · next hk =>
      subst hk
      rw [ht, Option.map_some, Option.map_some, hf, h t ht hterm]
    · rw [ht, Option.map_some]

theorem claim_keeps {db db' : Db} {tid : TaskId} (h : db.claim tid = some db') :
    Keeps db db' := by
  simp only [claim] at h
  split at h
  · next hr =>
    obtain rfl := Option.some.inj h
    refine (modifyTask_keeps_iff .running fun _ ↦ rfl).mpr fun t ht hterm ↦ ?_
    obtain ⟨t', ht', hst⟩ := statusOf_eq_some.mp hr
    obtain rfl := Option.some.inj (ht.symm.trans ht')
    simp [hst, TaskStatus.isTerminal] at hterm
  · cases h

theorem fail_keeps_iff {db : Db} {tid : TaskId} {f : Task → Task} (st : TaskStatus)
    (hf : ∀ t, (f t).status = st) (hst : st.isTerminal) (capability reason : String) :
    Keeps db ((db.modifyTask tid f).markUnsatisfiable tid capability reason) ↔
      ∀ t, db.tasks.get? tid = some t → t.status.isTerminal → t.status = st := by
  constructor
  · intro h t ht hterm
    have hmid : (db.modifyTask tid f).statusOf tid = some st := by
      rw [statusOf, modifyTask_get?, if_pos rfl, ht, Option.map_some, Option.map_some, hf]
    have hend := markUnsatisfiable_keeps _ tid capability reason tid st hmid hst
    have hkept := h tid t.status (statusOf_eq_some.mpr ⟨t, ht, rfl⟩) hterm
    exact Option.some.inj (hkept.symm.trans hend)
  · intro h
    exact ((modifyTask_keeps_iff st hf).mpr h).trans (markUnsatisfiable_keeps _ _ _ _)

theorem handleTaskTimeout_keeps (db : Db) (tid : TaskId) : Keeps db (db.handleTaskTimeout tid) := by
  simp only [handleTaskTimeout]
  split
  · exact .refl db
  · next task htask =>
    split
    · next hrun =>
      refine (fail_keeps_iff .failed (fun _ ↦ rfl) rfl _ _).mpr fun t ht hterm ↦ ?_
      obtain rfl := Option.some.inj (ht.symm.trans htask)
      simp [hrun, TaskStatus.isTerminal] at hterm
    · exact .refl db

theorem handleDataStale_keeps_iff (db : Db) (tid : TaskId) (dataset : String) :
    Keeps db (db.handleDataStale tid dataset) ↔
      ∀ t, db.tasks.get? tid = some t → t.status.isTerminal → t.status = .blocked := by
  simp only [handleDataStale]
  cases h : db.tasks.get? tid with
  | none => exact iff_of_true (.refl db) fun t ht ↦ by cases ht
  | some task =>
    dsimp only
    rw [fail_keeps_iff .blocked (fun _ ↦ rfl) rfl, h]

theorem handleTaskFailure_keeps_iff (db : Db) (tid : TaskId) (error : String) :
    Keeps db (db.handleTaskFailure tid error) ↔
      ∀ t, db.tasks.get? tid = some t → t.status.isTerminal →
        t.status = .failed ∧ t.maxRetries ≤ t.retryCount := by
  simp only [handleTaskFailure]
  cases h : db.tasks.get? tid with
  | none => exact iff_of_true (.refl db) fun t ht ↦ by cases ht
  | some task =>
    simp only [Option.some.injEq, forall_eq']
    split
    · next hlt =>
      rw [modifyTask_keeps_iff .retrying (fun _ ↦ rfl)]
      simp only [h, Option.some.injEq, forall_eq']
      refine imp_congr_right fun hterm ↦ ?_
      constructor
      · intro he
        simp [he, TaskStatus.isTerminal] at hterm
      · rintro ⟨-, hle⟩
        exact absurd hlt (Nat.not_lt.mpr hle)
    · next hge =>
      rw [fail_keeps_iff .failed (fun _ ↦ rfl) rfl]
      simp only [h, Option.some.injEq, forall_eq', Nat.not_lt.mp hge, and_true]

theorem handleAgentUnavailable_keeps_iff (db : Db) (tid : TaskId) (error : String)
    (registry : List AgentSnapshotRow) :
    Keeps db (db.handleAgentUnavailable tid error registry) ↔
      ∀ t, db.tasks.get? tid = some t → t.status.isTerminal →
        t.status = .escalated ∧ replacements registry t.capability t.assignedAgent = [] := by
  simp only [handleAgentUnavailable]
  cases h : db.tasks.get? tid with
  | none => exact iff_of_true (.refl db) fun t ht ↦ by cases ht
  | some task =>
    simp only [Option.some.injEq, forall_eq']
    cases hr : replacements registry task.capability task.assignedAgent with
    | cons newAgent rest =>
      dsimp only
      rw [modifyTask_keeps_iff .ready (fun _ ↦ rfl)]
      simp only [h, Option.some.injEq, forall_eq', reduceCtorEq, and_false, imp_false]
      refine ⟨fun hready hterm ↦ ?_, fun hn hterm ↦ absurd hterm hn⟩
      have hst := hready hterm
      simp [hst, TaskStatus.isTerminal] at hterm
    | nil =>
      dsimp only
      rw [fail_keeps_iff .escalated (fun _ ↦ rfl) rfl]
      simp only [h, Option.some.injEq, forall_eq', and_true]

theorem success_keeps (db : Db) (tid : TaskId) :
    Keeps db (db.runDispatchAndComplete tid .success) := by
  simp only [runDispatchAndComplete]
  split
  · next hrun =>
    refine Keeps.trans ((modifyTask_keeps_iff .completed fun _ ↦ rfl).mpr fun t ht hterm ↦ ?_)
      (evaluateOnCompletion_keeps _ tid)
    obtain ⟨t', ht', hst⟩ := statusOf_eq_some.mp hrun
    obtain rfl := Option.some.inj (ht.symm.trans ht')
    simp [hst, TaskStatus.isTerminal] at hterm
  · exact .refl db

end Db

/-- A report that finds its task terminal writes nothing but the status the task has. -/
def DispatchOutcome.HarmlessFor (task : Task) : DispatchOutcome → Prop
  | .success => True
  | .raised _ => task.status = .failed ∧ task.maxRetries ≤ task.retryCount
  | .dataStale _ => task.status = .blocked
  | .agentUnavailable _ registry =>
    task.status = .escalated ∧ Db.replacements registry task.capability task.assignedAgent = []

def LateReportHarmless (e : Engine) : Event → Engine → Prop
  | .report tid outcome, _ =>
    ∀ task, e.db.tasks.get? tid = some task → task.status.isTerminal → outcome.HarmlessFor task
  | _, _ => True

/-- A step of the engine itself (anything but the user's cancel) leaves every terminal task
as it is. -/
def TerminalKept (e : Engine) (event : Event) (e' : Engine) : Prop :=
  event ≠ .cancelRun → e.db.Keeps e'.db

theorem report_keeps_iff (db : Db) (tid : TaskId) (outcome : DispatchOutcome) :
    db.Keeps (db.runDispatchAndComplete tid outcome) ↔
      ∀ task, db.tasks.get? tid = some task → task.status.isTerminal →
        outcome.HarmlessFor task := by
  cases outcome with
  | success => exact iff_of_true (db.success_keeps tid) fun _ _ _ ↦ trivial
  | raised error => exact db.handleTaskFailure_keeps_iff tid error
  | dataStale dataset => exact db.handleDataStale_keeps_iff tid dataset
  | agentUnavailable error registry => exact db.handleAgentUnavailable_keeps_iff tid error registry

theorem step_terminalKept_iff {e e' : Engine} {event : Event} (h : e.step event = some e') :
    TerminalKept e event e' ↔ LateReportHarmless e event e' := by
  cases event with
  | readyTasks =>
    obtain rfl := Option.some.inj h
    exact iff_of_true (fun _ ↦ e.db.readyTasks_keeps) trivial
  | claim tid =>
    refine iff_of_true (fun _ ↦ ?_) trivial
    simp only [Engine.step] at h
    cases hc : e.db.claim tid with
    | none =>
      rw [hc] at h
      obtain rfl := Option.some.inj h
      exact .refl _
    | some db =>
      rw [hc] at h
      obtain rfl := Option.some.inj h
      exact Db.claim_keeps hc
  | report tid outcome =>
    simp only [Engine.step] at h
    split at h
    · obtain rfl := Option.some.inj h
      simp only [TerminalKept, LateReportHarmless, ne_eq, reduceCtorEq, not_false_eq_true,
        forall_const]
      exact report_keeps_iff e.db tid outcome
    · cases h
  | timeout tid =>
    obtain rfl := Option.some.inj h
    exact iff_of_true (fun _ ↦ e.db.handleTaskTimeout_keeps tid) trivial
  | cancelRun => exact iff_of_true (fun hne ↦ absurd rfl hne) trivial

def loneTask : Engine where
  db :=
    { tasks := ⟨[(0, ⟨"screen", "screener", .planned, true, 0, 3, 600, none, none⟩)], by decide⟩
      deps := [] }
  dispatches := []

end TradingOS.Orchestration
