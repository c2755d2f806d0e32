import TradingOS.Orchestration.ScaffoldValidity

namespace TradingOS.Orchestration.Planner

open Lib

/-- `AGENT_META`, in the order of `KNOWN_AGENTS`. -/
def agentMeta : List (String × List String) :=
  [("ceo_agent", ["orchestrate", "synthesize", "decide", "context_assembly", "adhoc_synthesis"]),
   ("market_analyst", ["market_analysis"]), ("strategy_generator", ["strategy_generation"]),
   ("python_code_generator", ["code_generation"]), ("compliance", ["compliance_check"]),
   ("python_validator", ["code_validation"]), ("backtesting", ["backtesting", "strategy_research"]),
   ("evaluator", ["strategy_evaluation"]), ("memory_ingest", ["memory_ingestion"]),
   ("optimization", ["optimization"]), ("risk_manager", ["risk_assessment"]),
   ("deployment", ["deployment_recommendation"]),
   ("options_strategy_agent", ["options_strategy_generation"]),
   ("memory_agent", ["memory_maintenance"]), ("news_agent", ["news_ingestion"]),
   ("sentiment_agent", ["sentiment_analysis"]),
   ("data_ingestion_agent", ["data_ingestion", "data_freshness"]),
   ("paper_trading_engine", ["paper_trading"]), ("execution_agent", ["order_execution"]),
   ("portfolio_manager_agent", ["capital_allocation", "portfolio_read"]),
   ("audit_agent", ["audit"]), ("notification_agent", ["notification"]),
   ("skill_registry_manager_agent", ["skill_administration"]), ("scheduler_agent", ["scheduling"]),
   ("ceo_agent_chat", ["converse"])]

def snapshot (isAgentEnabled : String → Bool) : List AgentSnapshotRow :=
  agentMeta.map fun (name, capabilities) ↦ ⟨name, capabilities, isAgentEnabled name⟩

def concurrencySafeCapabilities : List String :=
  ["market_analysis", "news_ingestion", "sentiment_analysis", "portfolio_read", "data_freshness",
   "memory_ingestion", "memory_maintenance", "synthesize", "context_assembly", "adhoc_synthesis"]

abbrev RowId := ℕ

structure OrganizationRun where
  tenantId : RowId
  threadId : String
  planId : Option RowId := none

structure PlanRow where
  runId : RowId
  objectiveClassification : String
  departments : List String
  safetyChain : List String
  approvalRequired : Bool

structure TaskRow where
  planId : RowId
  runId : RowId
  tenantId : RowId
  objective : String
  assignedAgent : String
  assignedBy : String := "ceo_agent"
  capability : String
  priority : ℤ
  dependencyPolicy : String := "all"
  expectedOutput : String
  status : String := "planned"
  isConcurrencySafe : Bool
  timeoutSeconds : ℤ
  correlationId : String

structure DependencyRow where
  planId : RowId
  dependentTaskId : RowId
  prerequisiteTaskId : RowId
  requiredArtefactType : String
  policy : String := "hard"
  state : String := "unsatisfied"

section Columns

/-- PostgreSQL keeps no NUL in a text. -/
def NulFree (s : String) : Prop := Char.ofNat 0 ∉ s.toList

/-- A column of type `String(n)`. -/
def FitsString (n : ℕ) (s : String) : Prop := s.length ≤ n ∧ NulFree s

/-- A column of type `Integer`. -/
def FitsInteger (z : ℤ) : Prop := -2 ^ 31 ≤ z ∧ z < 2 ^ 31

instance (s : String) : Decidable (NulFree s) := inferInstanceAs (Decidable (_ ∉ _))

instance (n : ℕ) (s : String) : Decidable (FitsString n s) := inferInstanceAs (Decidable (_ ∧ _))

instance (z : ℤ) : Decidable (FitsInteger z) := inferInstanceAs (Decidable (_ ∧ _))

def PlanRow.Fits (row : PlanRow) : Prop :=
  FitsString 80 row.objectiveClassification ∧ (∀ d ∈ row.departments, NulFree d) ∧
    ∀ c ∈ row.safetyChain, NulFree c

def TaskRow.Fits (row : TaskRow) : Prop :=
  NulFree row.objective ∧ FitsString 50 row.assignedAgent ∧ FitsString 255 row.assignedBy ∧
    FitsString 80 row.capability ∧ FitsInteger row.priority ∧ FitsString 20 row.dependencyPolicy ∧
    FitsString 80 row.expectedOutput ∧ FitsString 30 row.status ∧ FitsInteger row.timeoutSeconds ∧
    FitsString 100 row.correlationId

def DependencyRow.Fits (row : DependencyRow) : Prop :=
  FitsString 80 row.requiredArtefactType ∧ FitsString 10 row.policy ∧ FitsString 20 row.state

instance (row : PlanRow) : Decidable row.Fits := inferInstanceAs (Decidable (_ ∧ _))

instance (row : TaskRow) : Decidable row.Fits := inferInstanceAs (Decidable (_ ∧ _))

instance (row : DependencyRow) : Decidable row.Fits := inferInstanceAs (Decidable (_ ∧ _))

end Columns

def DependencyRow.pair (row : DependencyRow) : RowId × RowId :=
  (row.dependentTaskId, row.prerequisiteTaskId)

/-- The tables, with the constraints that they are declared with. Ids are given out in order. -/
structure Tables where
  nextId : RowId
  tenants : List RowId
  runs : Table RowId OrganizationRun
  plans : Table RowId PlanRow
  tasks : Table RowId TaskRow
  dependencies : List DependencyRow
  plans_lt : ∀ k ∈ plans.keys, k < nextId
  tasks_lt : ∀ k ∈ tasks.keys, k < nextId
  runs_fit : ∀ run ∈ runs.values, run.tenantId ∈ tenants ∧ FitsString 100 run.threadId
  dependencies_foreign : ∀ d ∈ dependencies,
    d.dependentTaskId ∈ tasks.keys ∧ d.prerequisiteTaskId ∈ tasks.keys
  dependencies_unique : (dependencies.map DependencyRow.pair).Nodup

inductive PersistError
  | key (key : String)
  | data (table : String)
  | foreignKey (table : String)
  | unique (constraint : String)
  deriving DecidableEq

namespace Tables

def insertPlan (db : Tables) (row : PlanRow) : Except PersistError (Tables × RowId) :=
  if ¬ row.Fits then .error (.data "organizational_plans")
  else if row.runId ∉ db.runs.keys then .error (.foreignKey "organizational_plans")
  else if row.runId ∈ db.plans.values.map PlanRow.runId then .error (.unique "run_id")
  else .ok
    ({ db with
        nextId := db.nextId + 1
        plans := db.plans.setdefault db.nextId row
        plans_lt := fun k hk ↦ (db.plans.mem_keys_setdefault.mp hk).elim
          (fun h ↦ h ▸ db.nextId.lt_succ_self) fun h ↦ (db.plans_lt k h).trans db.nextId.lt_succ_self
        tasks_lt := fun k hk ↦ (db.tasks_lt k hk).trans db.nextId.lt_succ_self },
      db.nextId)

/-- The run's row names its plan. -/
def linkPlan (db : Tables) (runId planId : RowId) : Tables :=
  { db with
    runs := db.runs.modify runId fun run ↦ { run with planId := some planId }
    runs_fit := fun run hrun ↦ by
      obtain ⟨k, hk⟩ := Table.mem_values _ |>.mp hrun
      rw [Table.get?_modify] at hk
      split at hk
      · obtain ⟨run', hrun', rfl⟩ := Option.map_eq_some_iff.mp hk
        exact db.runs_fit run' (Table.mem_values _ |>.mpr ⟨k, hrun'⟩)
      · exact db.runs_fit run (Table.mem_values _ |>.mpr ⟨k, hk⟩) }

def insertTask (db : Tables) (row : TaskRow) : Except PersistError (Tables × RowId) :=
  if ¬ row.Fits then .error (.data "tasks")
  else if row.planId ∉ db.plans.keys ∨ row.runId ∉ db.runs.keys ∨ row.tenantId ∉ db.tenants then
    .error (.foreignKey "tasks")
  else .ok
    ({ db with
        nextId := db.nextId + 1
        tasks := db.tasks.setdefault db.nextId row
        plans_lt := fun k hk ↦ (db.plans_lt k hk).trans db.nextId.lt_succ_self
        tasks_lt := fun k hk ↦ (db.tasks.mem_keys_setdefault.mp hk).elim
          (fun h ↦ h ▸ db.nextId.lt_succ_self) fun h ↦ (db.tasks_lt k h).trans db.nextId.lt_succ_self
        dependencies_foreign := fun d hd ↦ (db.dependencies_foreign d hd).imp
          (fun h ↦ db.tasks.mem_keys_setdefault.mpr (.inr h))
          fun h ↦ db.tasks.mem_keys_setdefault.mpr (.inr h) },
      db.nextId)

def insertDependency (db : Tables) (row : DependencyRow) : Except PersistError Tables :=
  if ¬ row.Fits then .error (.data "task_dependencies")
  else if hforeign : row.planId ∈ db.plans.keys ∧ row.dependentTaskId ∈ db.tasks.keys ∧
      row.prerequisiteTaskId ∈ db.tasks.keys then
    if hunique : row.pair ∈ db.dependencies.map DependencyRow.pair then
      .error (.unique "uq_task_dependency_pair")
    else .ok
      { db with
        dependencies := db.dependencies ++ [row]
        dependencies_foreign :=
          List.forall_mem_append.mpr ⟨db.dependencies_foreign, List.forall_mem_singleton.mpr hforeign.2⟩
        dependencies_unique := by
          rw [List.map_append]
          refine db.dependencies_unique.append (List.nodup_singleton _) ?_
          simpa using hunique }
  else .error (.foreignKey "task_dependencies")

section Inserting

variable {db db' : Tables} {id : RowId}

theorem insertPlan_eq_ok {row : PlanRow} (h : db.insertPlan row = .ok (db', id)) :
    row.Fits ∧ id ∈ db'.plans.keys ∧ db.nextId ≤ db'.nextId ∧ db'.tenants = db.tenants ∧
      db'.runs = db.runs ∧ db'.tasks = db.tasks ∧ db'.dependencies = db.dependencies := by
  rw [insertPlan, ite_error_eq_ok, not_not, ite_error_eq_ok, ite_error_eq_ok] at h
  obtain ⟨hfits, -, -, h⟩ := h
  cases h
  exact ⟨hfits, db.plans.mem_keys_setdefault.mpr (.inl rfl), Nat.le_succ _, rfl, rfl, rfl, rfl⟩

theorem exists_insertPlan {row : PlanRow} (hfits : row.Fits) (hrun : row.runId ∈ db.runs.keys)
    (hnone : row.runId ∉ db.plans.values.map PlanRow.runId) :
    ∃ db' id, db.insertPlan row = .ok (db', id) := by
  rw [insertPlan, if_neg (not_not.mpr hfits), if_neg (not_not.mpr hrun), if_neg hnone]
  exact ⟨_, _, rfl⟩

theorem insertTask_eq_ok {row : TaskRow} (h : db.insertTask row = .ok (db', id)) :
    row.Fits ∧ id = db.nextId ∧ db'.nextId = db.nextId + 1 ∧ db'.tenants = db.tenants ∧
      db'.runs = db.runs ∧ db'.plans = db.plans ∧ db'.dependencies = db.dependencies ∧
      db'.tasks.rows = db.tasks.rows ++ [(db.nextId, row)] := by
  rw [insertTask, ite_error_eq_ok, not_not, ite_error_eq_ok] at h
  obtain ⟨hfits, -, h⟩ := h
  cases h
  exact ⟨hfits, rfl, rfl, rfl, rfl, rfl, rfl,
    db.tasks.rows_setdefault fun hin ↦ Nat.lt_irrefl _ (db.tasks_lt _ hin)⟩

theorem exists_insertTask {row : TaskRow} (hfits : row.Fits) (hplan : row.planId ∈ db.plans.keys)
    (hrun : row.runId ∈ db.runs.keys) (htenant : row.tenantId ∈ db.tenants) :
    ∃ db' id, db.insertTask row = .ok (db', id) := by
  rw [insertTask, if_neg (not_not.mpr hfits), if_neg (by simp [hplan, hrun, htenant])]
  exact ⟨_, _, rfl⟩

theorem insertDependency_eq_ok {row : DependencyRow} (h : db.insertDependency row = .ok db') :
    db'.dependencies = db.dependencies ++ [row] ∧ db'.tasks = db.tasks ∧ db'.plans = db.plans := by
  rw [insertDependency, ite_error_eq_ok] at h
  obtain ⟨-, h⟩ := h
  split at h
  · split at h
    · cases h
    · cases h
      exact ⟨rfl, rfl, rfl⟩
  · cases h

theorem exists_insertDependency {row : DependencyRow} (hfits : row.Fits)
    (hforeign : row.planId ∈ db.plans.keys ∧ row.dependentTaskId ∈ db.tasks.keys ∧
      row.prerequisiteTaskId ∈ db.tasks.keys)
    (hunique : row.pair ∉ db.dependencies.map DependencyRow.pair) :
    ∃ db', db.insertDependency row = .ok db' := by
  rw [insertDependency, if_neg (not_not.mpr hfits), dif_pos hforeign, dif_neg hunique]
  exact ⟨_, rfl⟩

theorem insertDependencies_eq_ok {rows : List DependencyRow}
    (h : rows.foldlM insertDependency db = .ok db') :
    db'.dependencies = db.dependencies ++ rows ∧ db'.tasks = db.tasks := by
  induction rows generalizing db with
  | nil =>
    cases h
    exact ⟨(List.append_nil _).symm, rfl⟩
  | cons row rows ih =>
    obtain ⟨db₁, hrow, hrows⟩ := bind_eq_ok.mp h
    obtain ⟨hdeps, htasks, -⟩ := insertDependency_eq_ok hrow
    obtain ⟨hdeps', htasks'⟩ := ih hrows
    rw [hdeps', hdeps, List.append_assoc, htasks', htasks]
    exact ⟨rfl, rfl⟩

theorem exists_insertDependencies {rows : List DependencyRow} (hfits : ∀ row ∈ rows, row.Fits)
    (hforeign : ∀ row ∈ rows, row.planId ∈ db.plans.keys ∧ row.dependentTaskId ∈ db.tasks.keys ∧
      row.prerequisiteTaskId ∈ db.tasks.keys)
    (hunique : ((db.dependencies ++ rows).map DependencyRow.pair).Nodup) :
    ∃ db', rows.foldlM insertDependency db = .ok db' := by
  induction rows generalizing db with
  | nil => exact ⟨db, rfl⟩
  | cons row rows ih =>
    obtain ⟨hfit, hfits⟩ := List.forall_mem_cons.mp hfits
    obtain ⟨hrow, hforeign⟩ := List.forall_mem_cons.mp hforeign
    have hnew : row.pair ∉ db.dependencies.map DependencyRow.pair := by
      rw [List.map_append, List.map_cons, List.nodup_middle, List.nodup_cons] at hunique
      exact fun hin ↦ hunique.1 (List.mem_append_left _ hin)
    obtain ⟨db₁, hinsert⟩ := exists_insertDependency hfit hrow hnew
    obtain ⟨hdeps, htasks, hplans⟩ := insertDependency_eq_ok hinsert
    have hrest : ∃ db', rows.foldlM insertDependency db₁ = .ok db' := by
      refine ih hfits ?_ ?_
      · rwa [hplans, htasks]
      · rwa [hdeps, List.append_assoc, List.singleton_append]
    obtain ⟨db', hrest⟩ := hrest
    exact ⟨db', bind_eq_ok.mpr ⟨db₁, hinsert, hrest⟩⟩

end Inserting

end Tables

structure Settings where
  orgTaskDefaultTimeoutSeconds : ℤ := 300
  orgResearchTaskTimeoutSeconds : ℤ := 1800

def taskTimeoutSeconds (settings : Settings) (capability : String) : ℤ :=
  if capability = "strategy_research" then settings.orgResearchTaskTimeoutSeconds
  else settings.orgTaskDefaultTimeoutSeconds

/-- The first `n` characters. -/
def cut (n : ℕ) (s : String) : String := String.ofList (s.toList.take n)

/-- A plan with what only its row tells of it. -/
structure DraftPlan extends GeneratedPlan where
  departments : List String := []
  approvalRequired : Bool := true

namespace DraftPlan

variable (plan : DraftPlan) (settings : Settings) (runId : RowId) (run : OrganizationRun)

def planRow : PlanRow where
  runId := runId
  objectiveClassification := cut 80 plan.objectiveClassification
  departments := plan.departments
  safetyChain := GeneratedPlan.safetyOrder.filter plan.Planned
  approvalRequired := plan.approvalRequired

def taskRow (planId : RowId) (t : PlannedTask) : TaskRow where
  planId := planId
  runId := runId
  tenantId := run.tenantId
  objective := t.objective
  assignedAgent := t.assignedAgent
  capability := t.capability
  priority := t.priority
  expectedOutput := cut 80 t.expectedOutput
  isConcurrencySafe := t.capability ∈ concurrencySafeCapabilities
  timeoutSeconds := taskTimeoutSeconds settings t.capability
  correlationId := run.threadId

/-- One turn of the loop over the tasks, with the keys that have an id. -/
def addTask (planId : RowId) (s : Tables × Table String RowId) (t : PlannedTask) :
    Except PersistError (Tables × Table String RowId) := do
  let (db, id) ← s.1.insertTask (taskRow settings runId run planId t)
  .ok (db, s.2.assign t.key id)

def requiredArtefactType (depKey : String) : String :=
  cut 80 (((plan.tasks.find? (·.key = depKey)).map (·.expectedOutput)).getD "Artefact")

def lookup (keyToId : Table String RowId) (key : String) : Except PersistError RowId :=
  match keyToId.get? key with
  | none => .error (.key key)
  | some id => .ok id

def dependencyRow (planId : RowId) (keyToId : Table String RowId) (edge : String × String) :
    Except PersistError DependencyRow := do
  let dependentTaskId ← lookup keyToId edge.1
  let prerequisiteTaskId ← lookup keyToId edge.2
  .ok { planId, dependentTaskId, prerequisiteTaskId,
        requiredArtefactType := plan.requiredArtefactType edge.2 }

/-- A task's key with each entry of what it waits for. -/
def edges : List (String × String) :=
  plan.tasks.flatMap fun t ↦ t.dependsOn.map fun dep ↦ (t.key, dep)

/-- `_persist`. The rows of the dependencies are written when all have been made. -/
def persist (db : Tables) : Except PersistError Tables := do
  let (db, planId) ← db.insertPlan (plan.planRow runId)
  let (db, keyToId) ←
    plan.tasks.foldlM (addTask settings runId run planId) (db.linkPlan runId planId, .empty)
  let rows ← plan.edges.mapM (plan.dependencyRow planId keyToId)
  rows.foldlM Tables.insertDependency db

/-- One row for each task, and one for each pair of a task and a task that it waits for. -/
def Recorded (before after : Tables) : Prop :=
  ∃ planId, ∃ idOf : String → RowId,
    (∀ t ∈ plan.tasks, ∀ u ∈ plan.tasks, idOf t.key = idOf u.key → t = u) ∧
    (∀ t ∈ plan.tasks, idOf t.key ∉ before.tasks.keys) ∧
    after.tasks.rows =
      before.tasks.rows ++ plan.tasks.map (fun t ↦ (idOf t.key, taskRow settings runId run planId t)) ∧
    ∃ new, after.dependencies = before.dependencies ++ new ∧ (new.map DependencyRow.pair).Nodup ∧
      ∀ p, p ∈ new.map DependencyRow.pair ↔
        ∃ t ∈ plan.tasks, ∃ dep ∈ t.dependsOn, p = (idOf t.key, idOf dep)

/-- The columns hold what the plan says, and no task names another twice. -/
structure Storable : Prop where
  header : NulFree (cut 80 plan.objectiveClassification) ∧ ∀ d ∈ plan.departments, NulFree d
  tasks : ∀ t ∈ plan.tasks, NulFree t.objective ∧ NulFree (cut 80 t.expectedOutput) ∧
    FitsInteger t.priority ∧ FitsInteger (taskTimeoutSeconds settings t.capability)
  dependsOn : ∀ t ∈ plan.tasks, t.dependsOn.Nodup

variable {plan settings runId run} {db db' : Tables} {planId : RowId}

section Rows

theorem length_cut (n : ℕ) (s : String) : (cut n s).length ≤ n := by
  rw [cut, String.length_ofList, List.length_take]
  exact Nat.min_le_left _ _

theorem planRow_fits : (plan.planRow runId).Fits ↔
    NulFree (cut 80 plan.objectiveClassification) ∧ ∀ d ∈ plan.departments, NulFree d := by
  have hsafe : ∀ c ∈ GeneratedPlan.safetyOrder, NulFree c := by decide
  constructor
  · rintro ⟨⟨-, hclassification⟩, hdepartments, -⟩
    exact ⟨hclassification, hdepartments⟩
  · rintro ⟨hclassification, hdepartments⟩
    exact ⟨⟨length_cut _ _, hclassification⟩, hdepartments, fun c hc ↦ hsafe c (List.mem_filter.mp hc).1⟩

/-- The names that the registry declares fit their columns. -/
theorem fits_of_declares {isAgentEnabled : String → Bool} {agent capability : String}
    (h : (knownOf (snapshot isAgentEnabled)).Declares agent capability) :
    FitsString 50 agent ∧ FitsString 80 capability := by
  have hall : ∀ row ∈ agentMeta, FitsString 50 row.1 ∧ ∀ c ∈ row.2, FitsString 80 c := by
    decide +kernel
  obtain ⟨capabilities, hknown, hcap⟩ := h
  obtain ⟨row, hlast, rfl⟩ := Option.map_eq_some_iff.mp hknown
  obtain ⟨hrow, rfl⟩ := of_lastOf_eq_some hlast
  obtain ⟨entry, hentry, rfl⟩ := List.mem_map.mp (List.mem_of_mem_filter hrow)
  obtain ⟨hname, hcaps⟩ := hall entry hentry
  exact ⟨hname, hcaps capability hcap⟩

theorem taskRow_fits {t : PlannedTask} (hagent : FitsString 50 t.assignedAgent)
    (hcapability : FitsString 80 t.capability) (hthread : FitsString 100 run.threadId) :
    (taskRow settings runId run planId t).Fits ↔ NulFree t.objective ∧
      NulFree (cut 80 t.expectedOutput) ∧ FitsInteger t.priority ∧
        FitsInteger (taskTimeoutSeconds settings t.capability) := by
  have hassigned : FitsString 255 "ceo_agent" := by decide
  have hpolicy : FitsString 20 "all" := by decide
  have hstatus : FitsString 30 "planned" := by decide
  constructor
  · rintro ⟨hobjective, -, -, -, hpriority, -, ⟨-, houtput⟩, -, htimeout, -⟩
    exact ⟨hobjective, houtput, hpriority, htimeout⟩
  · rintro ⟨hobjective, houtput, hpriority, htimeout⟩
    exact ⟨hobjective, hagent, hassigned, hcapability, hpriority, hpolicy, ⟨length_cut _ _, houtput⟩,
      hstatus, htimeout, hthread⟩

theorem nulFree_requiredArtefactType (h : ∀ t ∈ plan.tasks, NulFree (cut 80 t.expectedOutput))
    (dep : String) : NulFree (plan.requiredArtefactType dep) := by
  rw [requiredArtefactType]
  cases hfind : plan.tasks.find? (·.key = dep) with
  | none => exact (by decide : NulFree (cut 80 "Artefact"))
  | some t => exact h t (List.mem_of_find?_eq_some hfind)

end Rows

section Tasks

variable {ts : List PlannedTask} {s s' : Tables × Table String RowId}

/-- What the loop over the tasks leaves: their rows under ids in order, and their keys with them. -/
structure Added (settings : Settings) (runId : RowId) (run : OrganizationRun) (planId : RowId)
    (ts : List PlannedTask) (s s' : Tables × Table String RowId) : Prop where
  rows : s'.1.tasks.rows = s.1.tasks.rows ++
    (ts.zipIdx s.1.nextId).map fun p ↦ (p.2, taskRow settings runId run planId p.1)
  keys : s'.2 = (ts.zipIdx s.1.nextId).foldl (fun T p ↦ T.assign p.1.key p.2) s.2
  plans : s'.1.plans = s.1.plans
  dependencies : s'.1.dependencies = s.1.dependencies

theorem addTasks_eq_ok (h : ts.foldlM (addTask settings runId run planId) s = .ok s') :
    (∀ t ∈ ts, (taskRow settings runId run planId t).Fits) ∧
      Added settings runId run planId ts s s' := by
  induction ts generalizing s with
  | nil =>
    cases h
    exact ⟨fun t ht ↦ absurd ht List.not_mem_nil, (List.append_nil _).symm, rfl, rfl, rfl⟩
  | cons t ts ih =>
    obtain ⟨s₁, hturn, hrest⟩ := bind_eq_ok.mp h
    obtain ⟨⟨db₁, id⟩, hinsert, hs₁⟩ := bind_eq_ok.mp hturn
    cases hs₁
    obtain ⟨hfits, rfl, hnext, -, -, hplans, hdeps, hrows⟩ := Tables.insertTask_eq_ok hinsert
    obtain ⟨hall, hadded⟩ := ih hrest
    refine ⟨List.forall_mem_cons.mpr ⟨hfits, hall⟩, ?_, ?_, hadded.plans.trans hplans,
      hadded.dependencies.trans hdeps⟩
    · rw [hadded.rows, hrows, hnext, List.append_assoc]
      rfl
    · rw [hadded.keys, hnext]
      rfl

theorem exists_addTasks (hfits : ∀ t ∈ ts, (taskRow settings runId run planId t).Fits)
    (hplan : planId ∈ s.1.plans.keys) (hrun : runId ∈ s.1.runs.keys)
    (htenant : run.tenantId ∈ s.1.tenants) :
    ∃ s', ts.foldlM (addTask settings runId run planId) s = .ok s' := by
  induction ts generalizing s with
  | nil => exact ⟨s, rfl⟩
  | cons t ts ih =>
    obtain ⟨hfit, hfits⟩ := List.forall_mem_cons.mp hfits
    obtain ⟨db₁, id, hinsert⟩ := Tables.exists_insertTask hfit hplan hrun htenant
    obtain ⟨-, -, -, htenants, hruns, hplans, -⟩ := Tables.insertTask_eq_ok hinsert
    have hturn : addTask settings runId run planId s t = .ok (db₁, s.2.assign t.key id) :=
      bind_eq_ok.mpr ⟨(db₁, id), hinsert, rfl⟩
    obtain ⟨s', hrest⟩ := ih (s := (db₁, s.2.assign t.key id)) hfits
      (hplans ▸ hplan) (hruns ▸ hrun) (htenants ▸ htenant)
    exact ⟨s', bind_eq_ok.mpr ⟨_, hturn, hrest⟩⟩

/-- Each task is found under its key. -/
theorem Added.get? (h : Added settings runId run planId ts s s') (hkeys : (ts.map PlannedTask.key).Nodup)
    {t : PlannedTask} {id : RowId} (hid : (t, id) ∈ ts.zipIdx s.1.nextId) :
    s'.2.get? t.key = some id := by
  have hkeys' : ((ts.zipIdx s.1.nextId).map fun p ↦ p.1.key).Nodup := by
    have hmap : (ts.zipIdx s.1.nextId).map (fun p ↦ p.1.key) = ts.map PlannedTask.key := by
      rw [← List.zipIdx_map_fst s.1.nextId ts, List.map_map, List.zipIdx_map_fst]
      rfl
    rwa [hmap]
  have hlast : lastOf (fun p : PlannedTask × ℕ ↦ p.1.key) (ts.zipIdx s.1.nextId) t.key = some (t, id) :=
    lastOf_of_nodup hkeys' hid
  rw [h.keys, Table.get?_foldl_assign (fun p : PlannedTask × ℕ ↦ p.1.key), hlast]
  rfl

/-- The ids that the tasks have been given. -/
structure Keyed (settings : Settings) (runId : RowId) (run : OrganizationRun) (planId : RowId)
    (ts : List PlannedTask) (s s' : Tables × Table String RowId) (idOf : String → RowId) : Prop where
  get? : ∀ t ∈ ts, s'.2.get? t.key = some (idOf t.key)
  inj : ∀ t ∈ ts, ∀ u ∈ ts, idOf t.key = idOf u.key → t = u
  le : ∀ t ∈ ts, s.1.nextId ≤ idOf t.key
  rows : s'.1.tasks.rows =
    s.1.tasks.rows ++ ts.map fun t ↦ (idOf t.key, taskRow settings runId run planId t)

/-- The ids are new. -/
theorem Keyed.not_mem_keys {idOf : String → RowId}
    (h : Keyed settings runId run planId ts s s' idOf) (hle : db.nextId ≤ s.1.nextId)
    {t : PlannedTask} (ht : t ∈ ts) : idOf t.key ∉ db.tasks.keys :=
  fun hin ↦ Nat.not_lt.mpr (hle.trans (h.le t ht)) (db.tasks_lt _ hin)

theorem Keyed.mem_keys {idOf : String → RowId} (h : Keyed settings runId run planId ts s s' idOf)
    {t : PlannedTask} (ht : t ∈ ts) : idOf t.key ∈ s'.1.tasks.keys := by
  rw [Table.keys, h.rows, List.map_append, List.map_map]
  exact List.mem_append_right _ (List.mem_map_of_mem ht)

theorem Added.keyed (h : Added settings runId run planId ts s s')
    (hkeys : (ts.map PlannedTask.key).Nodup) :
    ∃ idOf, Keyed settings runId run planId ts s s' idOf := by
  let idOf (k : String) : RowId := (s'.2.get? k).getD 0
  have hget {t : PlannedTask} {id : RowId} (hid : (t, id) ∈ ts.zipIdx s.1.nextId) : idOf t.key = id := by
    rw [show idOf t.key = (s'.2.get? t.key).getD 0 from rfl, h.get? hkeys hid]
    rfl
  have hindex (t : PlannedTask) (ht : t ∈ ts) : (t, idOf t.key) ∈ ts.zipIdx s.1.nextId := by
    rw [← List.zipIdx_map_fst s.1.nextId ts] at ht
    obtain ⟨⟨t', id⟩, hid, rfl⟩ := List.mem_map.mp ht
    rwa [hget hid]
  refine ⟨idOf, fun t ht ↦ h.get? hkeys (hindex t ht), fun t ht u hu heq ↦ ?_, fun t ht ↦ ?_, ?_⟩
  · have hu := hindex u hu
    rw [← heq] at hu
    have ht := (List.mk_mem_zipIdx_iff_le_and_getElem?_sub.mp (hindex t ht)).2
    have hu := (List.mk_mem_zipIdx_iff_le_and_getElem?_sub.mp hu).2
    exact Option.some.inj (ht.symm.trans hu)
  · exact (List.mk_mem_zipIdx_iff_le_and_getElem?_sub.mp (hindex t ht)).1
  · rw [h.rows]
    congr 1
    calc (ts.zipIdx s.1.nextId).map (fun p ↦ (p.2, taskRow settings runId run planId p.1))
        = (ts.zipIdx s.1.nextId).map (fun p ↦ (idOf p.1.key, taskRow settings runId run planId p.1)) :=
          List.map_congr_left fun p hp ↦ by rw [hget hp]
      _ = ((ts.zipIdx s.1.nextId).map Prod.fst).map fun t ↦
            (idOf t.key, taskRow settings runId run planId t) := by rw [List.map_map]; rfl
      _ = ts.map fun t ↦ (idOf t.key, taskRow settings runId run planId t) := by
          rw [List.zipIdx_map_fst]

end Tasks

section Edges

theorem mem_edges {e : String × String} :
    e ∈ plan.edges ↔ ∃ t ∈ plan.tasks, ∃ dep ∈ t.dependsOn, (t.key, dep) = e := by
  simp only [edges, List.mem_flatMap, List.mem_map]

theorem nodup_edges (hkeys : (plan.tasks.map PlannedTask.key).Nodup) :
    plan.edges.Nodup ↔ ∀ t ∈ plan.tasks, t.dependsOn.Nodup := by
  rw [edges, List.nodup_flatMap, and_iff_left]
  · refine forall₂_congr fun t _ ↦ List.nodup_map_iff fun d d' h ↦ ?_
    exact (Prod.mk.inj h).2
  · refine (List.pairwise_map.mp hkeys).imp fun hne ↦ ?_
    rintro e ht hu
    obtain ⟨d, -, rfl⟩ := List.mem_map.mp ht
    obtain ⟨d', -, heq⟩ := List.mem_map.mp hu
    exact hne (Prod.mk.inj heq).1.symm

/-- The row of a dependency, the ids of its tasks given. -/
def edgeRow (plan : DraftPlan) (planId : RowId) (idOf : String → RowId) (e : String × String) :
    DependencyRow where
  planId := planId
  dependentTaskId := idOf e.1
  prerequisiteTaskId := idOf e.2
  requiredArtefactType := plan.requiredArtefactType e.2

variable {keyToId : Table String RowId} {idOf : String → RowId}

theorem dependencyRows_eq (hget : ∀ t ∈ plan.tasks, keyToId.get? t.key = some (idOf t.key))
    (hplan : plan.Grounded) : plan.edges.mapM (plan.dependencyRow planId keyToId) =
      .ok (plan.edges.map (plan.edgeRow planId idOf)) := by
  refine mapM_eq_ok fun e he ↦ ?_
  obtain ⟨t, ht, dep, hdep, rfl⟩ := mem_edges.mp he
  obtain ⟨u, hu, rfl⟩ := List.mem_map.mp (hplan.inPlan t ht dep hdep)
  have hlookup {v : PlannedTask} (hv : v ∈ plan.tasks) : lookup keyToId v.key = .ok (idOf v.key) := by
    rw [lookup, hget v hv]
  rw [dependencyRow, hlookup ht, hlookup hu]
  rfl

theorem mem_pairs {p : RowId × RowId} :
    p ∈ (plan.edges.map (plan.edgeRow planId idOf)).map DependencyRow.pair ↔
      ∃ t ∈ plan.tasks, ∃ dep ∈ t.dependsOn, p = (idOf t.key, idOf dep) := by
  rw [List.map_map, List.mem_map]
  constructor
  · rintro ⟨e, he, rfl⟩
    obtain ⟨t, ht, dep, hdep, rfl⟩ := mem_edges.mp he
    exact ⟨t, ht, dep, hdep, rfl⟩
  · rintro ⟨t, ht, dep, hdep, rfl⟩
    exact ⟨_, mem_edges.mpr ⟨t, ht, dep, hdep, rfl⟩, rfl⟩

theorem edgeRow_fits (h : plan.Storable settings) (e : String × String) :
    (plan.edgeRow planId idOf e).Fits := by
  have hpolicy : FitsString 10 "hard" ∧ FitsString 20 "unsatisfied" := by decide
  exact ⟨⟨length_cut _ _, nulFree_requiredArtefactType (fun t ht ↦ (h.tasks t ht).2.1) _⟩, hpolicy⟩

theorem nodup_pairs (hplan : plan.Grounded) (hkeys : (plan.tasks.map PlannedTask.key).Nodup)
    (hinj : ∀ t ∈ plan.tasks, ∀ u ∈ plan.tasks, idOf t.key = idOf u.key → t = u) :
    ((plan.edges.map (plan.edgeRow planId idOf)).map DependencyRow.pair).Nodup ↔
      ∀ t ∈ plan.tasks, t.dependsOn.Nodup := by
  rw [← nodup_edges hkeys, List.map_map]
  refine ⟨List.Nodup.of_map _, fun hnodup ↦ hnodup.map_on ?_⟩
  intro e he e' he' heq
  obtain ⟨t, ht, dep, hdep, rfl⟩ := mem_edges.mp he
  obtain ⟨t', ht', dep', hdep', rfl⟩ := mem_edges.mp he'
  obtain ⟨u, hu, rfl⟩ := List.mem_map.mp (hplan.inPlan t ht dep hdep)
  obtain ⟨u', hu', rfl⟩ := List.mem_map.mp (hplan.inPlan t' ht' dep' hdep')
  obtain ⟨h, h'⟩ := Prod.mk.inj heq
  rw [hinj t ht t' ht' h, hinj u hu u' hu' h']

end Edges

variable {isAgentEnabled : String → Bool}

theorem fits_iff (planId : RowId)
    (hadmissible : plan.Admissible (knownOf (snapshot isAgentEnabled)))
    (hrun : db.runs.get? runId = some run) :
    (∀ t ∈ plan.tasks, (taskRow settings runId run planId t).Fits) ↔
      ∀ t ∈ plan.tasks, NulFree t.objective ∧ NulFree (cut 80 t.expectedOutput) ∧
        FitsInteger t.priority ∧ FitsInteger (taskTimeoutSeconds settings t.capability) := by
  have hthread := (db.runs_fit run (db.runs.mem_values.mpr ⟨runId, hrun⟩)).2
  refine forall₂_congr fun t ht ↦ ?_
  obtain ⟨hagent, hcapability⟩ := fits_of_declares (hadmissible.declared t ht)
  exact taskRow_fits hagent hcapability hthread

theorem of_persist (hplan : plan.Grounded)
    (hadmissible : plan.Admissible (knownOf (snapshot isAgentEnabled)))
    (hrun : db.runs.get? runId = some run) (h : plan.persist settings runId run db = .ok db') :
    plan.Storable settings ∧ plan.Recorded settings runId run db db' := by
  obtain ⟨⟨db₁, planId⟩, hheader, h⟩ := bind_eq_ok.mp h
  obtain ⟨s, htasks, h⟩ := bind_eq_ok.mp h
  obtain ⟨rows, hrows, h⟩ := bind_eq_ok.mp h
  obtain ⟨hfits, -, hle, -, -, htaskRows, hdeps⟩ := Tables.insertPlan_eq_ok hheader
  obtain ⟨hall, hadded⟩ := addTasks_eq_ok htasks
  obtain ⟨idOf, hkeyed⟩ := hadded.keyed hadmissible.keys
  rw [dependencyRows_eq hkeyed.get? hplan] at hrows
  cases hrows
  obtain ⟨hnew, hsame⟩ := Tables.insertDependencies_eq_ok h
  have hbefore : s.1.dependencies = db.dependencies := hadded.dependencies.trans hdeps
  have hnodup : ((plan.edges.map (plan.edgeRow planId idOf)).map DependencyRow.pair).Nodup := by
    have hunique := db'.dependencies_unique
    rw [hnew, List.map_append] at hunique
    exact hunique.of_append_right
  refine ⟨⟨planRow_fits.mp hfits, (fits_iff _ hadmissible hrun).mp hall,
    (nodup_pairs hplan hadmissible.keys hkeyed.inj).mp hnodup⟩,
    planId, idOf, hkeyed.inj, fun t ht ↦ hkeyed.not_mem_keys hle ht, ?_, _, hbefore ▸ hnew, hnodup,
    fun p ↦ mem_pairs⟩
  have hfirst : (db₁.linkPlan runId planId).tasks = db.tasks := htaskRows
  rw [hsame, hkeyed.rows, hfirst]

theorem exists_persist (hplan : plan.Grounded)
    (hadmissible : plan.Admissible (knownOf (snapshot isAgentEnabled)))
    (hrun : db.runs.get? runId = some run)
    (hnone : runId ∉ db.plans.values.map PlanRow.runId) (h : plan.Storable settings) :
    ∃ db', plan.persist settings runId run db = .ok db' := by
  have hmem : runId ∈ db.runs.keys := by
    by_contra hout
    rw [db.runs.get?_eq_none.mpr hout] at hrun
    cases hrun
  obtain ⟨db₁, planId, hheader⟩ :=
    Tables.exists_insertPlan (planRow_fits.mpr h.header) hmem hnone
  obtain ⟨-, hplanId, hle, htenants, hruns, htaskRows, hdeps⟩ := Tables.insertPlan_eq_ok hheader
  have hmem' : runId ∈ (db₁.linkPlan runId planId).runs.keys := by
    rw [Tables.linkPlan, Table.keys_modify, hruns]
    exact hmem
  have htenant : run.tenantId ∈ db₁.tenants :=
    htenants ▸ (db.runs_fit run (db.runs.mem_values.mpr ⟨runId, hrun⟩)).1
  obtain ⟨s, htasks⟩ := exists_addTasks (s := (db₁.linkPlan runId planId, .empty))
    ((fits_iff planId hadmissible hrun).mpr h.tasks) hplanId hmem' htenant
  obtain ⟨-, hadded⟩ := addTasks_eq_ok htasks
  obtain ⟨idOf, hkeyed⟩ := hadded.keyed hadmissible.keys
  have hbefore : s.1.dependencies = db.dependencies := hadded.dependencies.trans hdeps
  have hrow : ∀ row ∈ plan.edges.map (plan.edgeRow planId idOf), row.Fits ∧
      row.planId ∈ s.1.plans.keys ∧ row.dependentTaskId ∈ s.1.tasks.keys ∧
        row.prerequisiteTaskId ∈ s.1.tasks.keys := by
    refine List.forall_mem_map.mpr fun e he ↦ ?_
    obtain ⟨t, ht, dep, hdep, rfl⟩ := mem_edges.mp he
    obtain ⟨u, hu, rfl⟩ := List.mem_map.mp (hplan.inPlan t ht dep hdep)
    exact ⟨edgeRow_fits h _, hadded.plans ▸ hplanId, hkeyed.mem_keys ht, hkeyed.mem_keys hu⟩
  have hunique : ((s.1.dependencies ++ plan.edges.map (plan.edgeRow planId idOf)).map
      DependencyRow.pair).Nodup := by
    rw [hbefore, List.map_append]
    refine db.dependencies_unique.append
      ((nodup_pairs hplan hadmissible.keys hkeyed.inj).mpr h.dependsOn) ?_
    intro p hp hp'
    obtain ⟨row, hrow, rfl⟩ := List.mem_map.mp hp
    obtain ⟨t, ht, dep, -, heq⟩ := mem_pairs.mp hp'
    exact hkeyed.not_mem_keys hle ht ((Prod.mk.inj heq).1 ▸ (db.dependencies_foreign row hrow).1)
  obtain ⟨db', hfinal⟩ := Tables.exists_insertDependencies (fun row hin ↦ (hrow row hin).1)
    (fun row hin ↦ (hrow row hin).2) hunique
  exact ⟨db', bind_eq_ok.mpr ⟨_, hheader, bind_eq_ok.mpr ⟨_, htasks,
    bind_eq_ok.mpr ⟨_, dependencyRows_eq hkeyed.get? hplan, hfinal⟩⟩⟩⟩

/-- An accepted plan is recorded exactly if the columns hold what it says and none of its tasks names
another twice. -/
theorem persist_iff {room : ℕ} (h : plan.validate room (knownOf (snapshot isAgentEnabled)) = .ok ())
    (hrun : db.runs.get? runId = some run) (hnone : runId ∉ db.plans.values.map PlanRow.runId) :
    (∃ db', plan.persist settings runId run db = .ok db' ∧
      plan.Recorded settings runId run db db') ↔ plan.Storable settings := by
  obtain ⟨hplan, hadmissible⟩ := GeneratedPlan.of_validate h
  constructor
  · rintro ⟨db', hpersist, -⟩
    exact (of_persist hplan hadmissible hrun hpersist).1
  · intro hstorable
    obtain ⟨db', hpersist⟩ := exists_persist hplan hadmissible hrun hnone hstorable
    exact ⟨db', hpersist, (of_persist hplan hadmissible hrun hpersist).2⟩

/-- A database with one run that is to be planned. -/
def oneRun : Tables where
  nextId := 0
  tenants := [0]
  runs := ⟨[(0, { tenantId := 0, threadId := "org-0" })], List.nodup_singleton 0⟩
  plans := .empty
  tasks := .empty
  dependencies := []
  plans_lt := by decide
  tasks_lt := by decide
  runs_fit := by decide
  dependencies_foreign := by decide
  dependencies_unique := List.nodup_nil

/-- An assembly that waits for what is given. -/
def assembleAfter (dependsOn : List String) : DraftPlan where
  tasks :=
    [{ key := "a", objective := "Gather news.", capability := "news_ingestion",
       assignedAgent := "news_agent" },
     { key := "b", objective := "Assemble the context.", capability := "context_assembly",
       assignedAgent := "ceo_agent", dependsOn }]

theorem persist_iff_assembleAfter :
    (∃ db', (assembleAfter ["a"]).persist {} 0 { tenantId := 0, threadId := "org-0" } oneRun = .ok db' ∧
      (assembleAfter ["a"]).Recorded {} 0 { tenantId := 0, threadId := "org-0" } oneRun db') ↔
      (assembleAfter ["a"]).Storable {} := by
  have hvalid : (assembleAfter ["a"]).validate 10 (knownOf (snapshot fun _ ↦ true)) = .ok () := by
    decide +kernel
  exact persist_iff hvalid rfl (by decide)

/-- A task that names another twice is accepted, and breaks the constraint when it is written. -/
theorem not_persist_repeated :
    (assembleAfter ["a", "a"]).validate 10 (knownOf (snapshot fun _ ↦ true)) = .ok () ∧
      ((assembleAfter ["a", "a"]).persist {} 0 { tenantId := 0, threadId := "org-0" } oneRun).map
        (fun _ ↦ ()) = .error (.unique "uq_task_dependency_pair") := by
  refine ⟨?_, ?_⟩ <;> decide +kernel

end DraftPlan

end TradingOS.Orchestration.Planner
