import TradingOS.Lib.Table

namespace TradingOS.Orchestration

open Lib

abbrev TaskId := ℕ

inductive TaskStatus
  | created | planned | queued | ready | running | waitingForDependency | blocked | completed
  | failed | retrying | escalated | cancelled
  deriving DecidableEq

inductive RunStatus
  | queued | planning | running | waiting | paused | stalled | completed | failed | cannotPlan
  | cancelled
  deriving DecidableEq

inductive DependencyState
  | unsatisfied | satisfied | failed
  deriving DecidableEq

inductive DependencyPolicy
  | hard | soft
  deriving DecidableEq

/-- `_TERMINAL_TASK_STATUSES` of the resolver. -/
def TaskStatus.isTerminal : TaskStatus → Bool
  | completed | failed | blocked | escalated | cancelled => true
  | _ => false

/-- The statuses `ready_tasks` selects its candidates by. -/
def TaskStatus.isCandidate : TaskStatus → Bool
  | planned | queued | ready | waitingForDependency | retrying => true
  | _ => false

theorem TaskStatus.not_isTerminal_of_isCandidate {st : TaskStatus} (h : st.isCandidate) :
    st.isTerminal = false := by
  cases st <;> first | rfl | cases h

structure Task where
  capability : String
  assignedAgent : String
  status : TaskStatus
  isConcurrencySafe : Bool
  retryCount : ℕ
  maxRetries : ℕ
  timeoutSeconds : ℕ
  blockedReason : Option String
  failureReason : Option String
  deriving DecidableEq

structure TaskDependency where
  dependentTaskId : TaskId
  prerequisiteTaskId : TaskId
  policy : DependencyPolicy
  state : DependencyState
  deriving DecidableEq

structure Db where
  tasks : Table TaskId Task
  deps : List TaskDependency
  deriving DecidableEq

namespace Db

def modifyTask (db : Db) (tid : TaskId) (f : Task → Task) : Db :=
  { db with tasks := db.tasks.modify tid f }

def statusOf (db : Db) (tid : TaskId) : Option TaskStatus := (db.tasks.get? tid).map Task.status

theorem modifyTask_get? (db : Db) (tid : TaskId) (f : Task → Task) (k : TaskId) :
    (db.modifyTask tid f).tasks.get? k =
      if k = tid then (db.tasks.get? k).map f else db.tasks.get? k :=
  db.tasks.get?_modify tid f k

theorem statusOf_eq_some {db : Db} {tid : TaskId} {st : TaskStatus} :
    db.statusOf tid = some st ↔ ∃ t, db.tasks.get? tid = some t ∧ t.status = st :=
  Option.map_eq_some_iff

end Db

end TradingOS.Orchestration
