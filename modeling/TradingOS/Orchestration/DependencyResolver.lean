import TradingOS.Orchestration.Tasks

namespace TradingOS.Orchestration.Db

open Lib

def hardDepsFor (db : Db) (tid : TaskId) : List TaskDependency :=
  db.deps.filter fun d ↦ d.dependentTaskId = tid ∧ d.policy = .hard

def hardSatisfied (db : Db) (tid : TaskId) : Bool :=
  (db.hardDepsFor tid).all fun d ↦ d.state = .satisfied

/-- The body of the loop of `ready_tasks`: a candidate is put to `ready` or to
`waiting_for_dependency`. -/
def settle (db : Db) (tid : TaskId) (task : Task) : Task :=
  if task.status.isCandidate then
    { task with status := if db.hardSatisfied tid then .ready else .waitingForDependency }
  else task

def readyTasks (db : Db) : Db × List TaskId :=
  ({ db with tasks := db.tasks.mapVals db.settle },
    (db.tasks.rows.filter fun r ↦ r.2.status.isCandidate ∧ db.hardSatisfied r.1).map Prod.fst)

def satisfiedBy (completedTask : TaskId) (d : TaskDependency) : Bool :=
  d.prerequisiteTaskId = completedTask ∧ d.state = .unsatisfied

def satisfyDeps (db : Db) (completedTask : TaskId) : Db :=
  { db with
    deps := db.deps.map fun d ↦
      if satisfiedBy completedTask d then { d with state := .satisfied } else d }

theorem state_of_satisfyDeps {db : Db} {completedTask tid : TaskId}
    (h : (db.satisfyDeps completedTask).hardSatisfied tid) {d : TaskDependency} (hd : d ∈ db.deps)
    (hdep : d.dependentTaskId = tid) (hhard : d.policy = .hard) :
    d.prerequisiteTaskId = completedTask ∨ d.state = .satisfied := by
  simp only [hardSatisfied, hardDepsFor, List.all_eq_true, List.mem_filter, decide_eq_true_eq,
    and_imp] at h
  have hrow := h _ (List.mem_map_of_mem hd)
  by_cases hs : satisfiedBy completedTask d = true
  · exact .inl (of_decide_eq_true hs).1
  · rw [if_neg hs] at hrow
    exact .inr (hrow hdep hhard)

def wake (db : Db) (completedTask tid : TaskId) (task : Task) : Task :=
  if tid ∈ (db.deps.filter (satisfiedBy completedTask)).map (·.dependentTaskId) ∧
      ¬ task.status.isTerminal ∧ (db.satisfyDeps completedTask).hardSatisfied tid then
    { task with status := .ready }
  else task

theorem wake_cases (db : Db) (completedTask tid : TaskId) (task : Task) :
    db.wake completedTask tid task = task ∨
      db.wake completedTask tid task = { task with status := .ready } ∧
        task.status.isTerminal = false ∧ (db.satisfyDeps completedTask).hardSatisfied tid ∧
        ∃ d ∈ db.deps, satisfiedBy completedTask d ∧ d.dependentTaskId = tid := by
  simp only [wake]
  split
  · next h =>
    obtain ⟨hmem, hterm, hsat⟩ := h
    obtain ⟨d, hd, rfl⟩ := List.mem_map.mp hmem
    rw [List.mem_filter] at hd
    exact .inr ⟨rfl, by simpa using hterm, hsat, d, hd.1, hd.2, rfl⟩
  · exact .inl rfl

/-- The rows of one prerequisite have distinct dependents (`uq_task_dependency_pair`), so
turning all of them before waking anyone is the loop of the source. -/
def evaluateOnCompletion (db : Db) (completedTask : TaskId) : Db :=
  { db.satisfyDeps completedTask with tasks := db.tasks.mapVals (db.wake completedTask) }

def failedBy (prerequisite : TaskId) (d : TaskDependency) : Bool :=
  d.prerequisiteTaskId = prerequisite ∧ d.policy = .hard ∧ d.state ≠ .satisfied

def block (db : Db) (prerequisite : TaskId) (capability reason : String) (tid : TaskId)
    (task : Task) : Task :=
  if tid ∈ (db.deps.filter (failedBy prerequisite)).map (·.dependentTaskId) ∧
      ¬ task.status.isTerminal then
    { task with
      status := .blocked
      blockedReason := some s!"prerequisite task '{capability}' {reason}" }
  else task

theorem block_cases (db : Db) (prerequisite tid : TaskId) (capability reason : String)
    (task : Task) :
    db.block prerequisite capability reason tid task = task ∨
      (db.block prerequisite capability reason tid task).status = .blocked ∧
        task.status.isTerminal = false ∧
        ∃ d ∈ db.deps, failedBy prerequisite d ∧ d.dependentTaskId = tid := by
  simp only [block]
  split
  · next h =>
    obtain ⟨hmem, hterm⟩ := h
    obtain ⟨d, hd, rfl⟩ := List.mem_map.mp hmem
    rw [List.mem_filter] at hd
    exact .inr ⟨rfl, by simpa using hterm, d, hd.1, hd.2, rfl⟩
  · exact .inl rfl

theorem block_status_isTerminal {db : Db} {prerequisite : TaskId} {capability reason : String}
    {d : TaskDependency} (hd : d ∈ db.deps) (hf : failedBy prerequisite d) (task : Task) :
    (db.block prerequisite capability reason d.dependentTaskId task).status.isTerminal := by
  have hmem : d.dependentTaskId ∈
      (db.deps.filter (failedBy prerequisite)).map (·.dependentTaskId) :=
    List.mem_map.mpr ⟨d, List.mem_filter.mpr ⟨hd, hf⟩, rfl⟩
  by_cases hterm : task.status.isTerminal = true
  · simp only [block, hterm, not_true, and_false, if_false]
  · rw [block, if_pos ⟨hmem, hterm⟩]
    rfl

/-- Only the direct dependents of the failed prerequisite are blocked. -/
def markUnsatisfiable (db : Db) (prerequisite : TaskId) (capability reason : String) : Db where
  tasks := db.tasks.mapVals (db.block prerequisite capability reason)
  deps := db.deps.map fun d ↦ if failedBy prerequisite d then { d with state := .failed } else d

end TradingOS.Orchestration.Db
