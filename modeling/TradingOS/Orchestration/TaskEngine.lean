import TradingOS.Orchestration.DependencyResolver

namespace TradingOS.Orchestration

open Lib

structure AgentSnapshotRow where
  name : String
  capabilities : List String
  enabled : Bool
  deriving DecidableEq

def findByCapability (registry : List AgentSnapshotRow) (capability : String) : List String :=
  (registry.filter fun row ↦ capability ∈ row.capabilities ∧ row.enabled).map (·.name)

/-- How `agent_invoker.dispatch` ends. An unavailable agent is handled against the registry
of that moment. -/
inductive DispatchOutcome
  | success
  | raised (error : String)
  | dataStale (dataset : String)
  | agentUnavailable (error : String) (registry : List AgentSnapshotRow)
  deriving DecidableEq

namespace Db

/-- The conditional `UPDATE ... WHERE status = 'ready'` of `_execute_task`. -/
def claim (db : Db) (tid : TaskId) : Option Db :=
  if db.statusOf tid = some .ready then
    some (db.modifyTask tid fun t ↦ { t with status := .running })
  else none

def handleTaskTimeout (db : Db) (tid : TaskId) : Db :=
  match db.tasks.get? tid with
  | none => db
  | some task =>
    if task.status = .running then
      let seconds := task.timeoutSeconds
      let reason := s!"timed out after {seconds}s"
      (db.modifyTask tid fun t ↦ { t with status := .failed, failureReason := some reason })
        |>.markUnsatisfiable tid task.capability reason
    else db

def handleDataStale (db : Db) (tid : TaskId) (dataset : String) : Db :=
  match db.tasks.get? tid with
  | none => db
  | some task =>
    let reason := s!"data stale: {dataset}"
    (db.modifyTask tid fun t ↦ { t with status := .blocked, blockedReason := some reason })
      |>.markUnsatisfiable tid task.capability reason

def replacements (registry : List AgentSnapshotRow) (capability oldAgent : String) : List String :=
  (findByCapability registry capability).filter (· ≠ oldAgent)

def handleAgentUnavailable (db : Db) (tid : TaskId) (error : String)
    (registry : List AgentSnapshotRow) : Db :=
  match db.tasks.get? tid with
  | none => db
  | some task =>
    match replacements registry task.capability task.assignedAgent with
    | newAgent :: _ =>
      db.modifyTask tid fun t ↦ { t with assignedAgent := newAgent, status := .ready }
    | [] =>
      let reason := s!"agent unavailable: {error}"
      (db.modifyTask tid fun t ↦ { t with status := .escalated, blockedReason := some reason })
        |>.markUnsatisfiable tid task.capability reason

def handleTaskFailure (db : Db) (tid : TaskId) (error : String) : Db :=
  match db.tasks.get? tid with
  | none => db
  | some task =>
    if task.retryCount < task.maxRetries then
      db.modifyTask tid fun t ↦ { t with retryCount := t.retryCount + 1, status := .retrying }
    else
      (db.modifyTask tid fun t ↦ { t with status := .failed, failureReason := some error })
        |>.markUnsatisfiable tid task.capability "failed after exhausting retries"

/-- The completion write is conditional on `running`; the handlers of the three failing
outcomes are not. -/
def runDispatchAndComplete (db : Db) (tid : TaskId) : DispatchOutcome → Db
  | .success =>
    if db.statusOf tid = some .running then
      (db.modifyTask tid fun t ↦ { t with status := .completed }).evaluateOnCompletion tid
    else db
  | .dataStale dataset => db.handleDataStale tid dataset
  | .agentUnavailable error registry => db.handleAgentUnavailable tid error registry
  | .raised error => db.handleTaskFailure tid error

/-- The bulk update of `cancel_run`: blocked and escalated tasks are cancelled too. -/
def cancelTasks (db : Db) : Db :=
  { db with
    tasks := db.tasks.mapVals fun _ t ↦
      if t.status ∈ [TaskStatus.completed, .failed, .cancelled] then t
      else { t with status := .cancelled } }

/-- `_NONTERMINAL` of the engine, by which `_finalize` counts. -/
def nonterminalCount (db : Db) : ℕ :=
  db.tasks.values.countP fun t ↦ t.status ∈ [TaskStatus.created, .planned, .queued, .ready,
    .running, .waitingForDependency, .retrying]

def countStatus (db : Db) (st : TaskStatus) : ℕ := db.tasks.values.countP fun t ↦ t.status = st

/-- What `_finalize` writes to the run (`none`: no write) and whether it reports the run
terminal. -/
def finalize (db : Db) (undispositioned : ℕ) (pendingApproval : Bool) : Option RunStatus × Bool :=
  if db.nonterminalCount ≠ 0 then
    if db.countStatus .ready ≠ 0 then (none, false) else (some .waiting, false)
  else if db.countStatus .failed ≠ 0 ∨ db.countStatus .blocked ≠ 0 ∨ db.countStatus .escalated ≠ 0
  then (some .failed, true)
  else if undispositioned ≠ 0 then (some .waiting, false)
  else if pendingApproval then (some .waiting, false)
  else (some .completed, true)

end Db

end TradingOS.Orchestration
