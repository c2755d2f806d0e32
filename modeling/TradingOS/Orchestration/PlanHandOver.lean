import TradingOS.Orchestration.PlanHistory
import TradingOS.Orchestration.SchedulerLoop

namespace TradingOS.Orchestration.Planner

open Lib Relation

/-- The engine's reading of a status column. -/
def statusOfValue : String → TaskStatus
  | "planned" => .planned
  | "queued" => .queued
  | "ready" => .ready
  | "running" => .running
  | "waiting_for_dependency" => .waitingForDependency
  | "blocked" => .blocked
  | "completed" => .completed
  | "failed" => .failed
  | "retrying" => .retrying
  | "escalated" => .escalated
  | "cancelled" => .cancelled
  | _ => .created

def stateOfValue : String → DependencyState
  | "satisfied" => .satisfied
  | "failed" => .failed
  | _ => .unsatisfied

/-- The row as the engine finds it, with the columns that have defaults. -/
def TaskRow.task (t : TaskRow) : Task where
  capability := t.capability
  assignedAgent := t.assignedAgent
  status := statusOfValue t.status
  isConcurrencySafe := t.isConcurrencySafe
  retryCount := 0
  maxRetries := 3
  timeoutSeconds := t.timeoutSeconds.toNat
  blockedReason := none
  failureReason := none

def DependencyRow.dependency (d : DependencyRow) : TaskDependency where
  dependentTaskId := d.dependentTaskId
  prerequisiteTaskId := d.prerequisiteTaskId
  policy := if d.policy = "hard" then .hard else .soft
  state := stateOfValue d.state

namespace Tables

variable (db : Tables) (runId : RowId)

def runTasks : List (RowId × TaskRow) := db.tasks.rows.filter (·.2.runId = runId)

/-- The dependencies that the engine looks up for the tasks of the run. -/
def runDependencies : List DependencyRow :=
  db.dependencies.filter (·.dependentTaskId ∈ (db.runTasks runId).map Prod.fst)

/-- What the engine works on. -/
def engineDb : Db where
  tasks :=
    { rows := (db.runTasks runId).map fun t ↦ (t.1, t.2.task)
      nodup := by
        rw [List.map_map]
        exact db.tasks.nodup.sublist (List.filter_sublist.map Prod.fst) }
  deps := (db.runDependencies runId).map DependencyRow.dependency

variable {db runId}

theorem mem_keys_engineDb {id : RowId} :
    id ∈ (db.engineDb runId).tasks.keys ↔ ∃ t ∈ db.tasks.rows, t.1 = id ∧ t.2.runId = runId := by
  simp only [Table.keys, engineDb, List.map_map, runTasks, List.mem_map, List.mem_filter,
    decide_eq_true_eq, Function.comp_apply]
  constructor
  · rintro ⟨t, ⟨ht, hrun⟩, rfl⟩
    exact ⟨t, ht, rfl, hrun⟩
  · rintro ⟨t, ht, rfl, hrun⟩
    exact ⟨t, ⟨ht, hrun⟩, rfl⟩

theorem mem_deps_engineDb {d : TaskDependency} (hd : d ∈ (db.engineDb runId).deps) :
    ∃ row ∈ db.dependencies, row.dependency = d ∧
      ∃ t ∈ db.tasks.rows, t.1 = row.dependentTaskId ∧ t.2.runId = runId := by
  obtain ⟨row, hrow, rfl⟩ := List.mem_map.mp hd
  obtain ⟨hrow, hkey⟩ := List.mem_filter.mp hrow
  obtain ⟨t, ht, hid⟩ := List.mem_map.mp (of_decide_eq_true hkey)
  obtain ⟨ht, hrun⟩ := List.mem_filter.mp ht
  exact ⟨row, hrow, rfl, t, ht, hid, of_decide_eq_true hrun⟩

end Tables

namespace Ledger.Orderly

variable {L : Ledger} (h : L.Orderly) {runId : RowId}

include h

/-- Two tasks of one plan are tasks of one run. -/
theorem runId_eq {t u : RowId × TaskRow} (ht : t ∈ L.tables.tasks.rows) (hu : u ∈ L.tables.tasks.rows)
    (hplan : t.2.planId = u.2.planId) : t.2.runId = u.2.runId := by
  obtain ⟨p, hp, hpid, hprun⟩ := (h.tasks t ht).plan
  obtain ⟨q, hq, hqid, hqrun⟩ := (h.tasks u hu).plan
  have hsame : p.2 = q.2 := by
    have hfind := L.tables.plans.get?_eq_some.mpr hp
    rw [hpid, hplan, ← hqid] at hfind
    exact Option.some.inj (hfind.symm.trans (L.tables.plans.get?_eq_some.mpr hq))
  rw [← hprun, ← hqrun, hsame]

/-- What the planner has recorded for a run is a plan as the engine expects it. -/
def enginePlan (runId : RowId) : Plan where
  db := L.tables.engineDb runId
  planned := by
    intro t ht
    obtain ⟨r, hr, rfl⟩ := List.mem_map.mp ht
    obtain ⟨row, hrow, rfl⟩ := List.mem_map.mp hr
    have hstatus := (h.tasks row (List.mem_of_mem_filter hrow)).planned
    simp only [TaskRow.task, hstatus, statusOfValue]
  hard := by
    intro d hd
    obtain ⟨row, hrow, rfl, -⟩ := Tables.mem_deps_engineDb hd
    obtain ⟨hpolicy, hstate⟩ := (h.dependencies row hrow).hard
    rw [DependencyRow.dependency, hpolicy, hstate]
    exact ⟨rfl, rfl⟩
  dependent_mem := by
    intro d hd
    obtain ⟨row, -, rfl, t, ht, hid, hrun⟩ := Tables.mem_deps_engineDb hd
    exact Tables.mem_keys_engineDb.mpr ⟨t, ht, hid, hrun⟩
  prerequisite_mem := by
    intro d hd
    obtain ⟨row, hrow, rfl, t, ht, hid, hrun⟩ := Tables.mem_deps_engineDb hd
    obtain ⟨t', ht', hid', hplan'⟩ := (h.dependencies row hrow).dependent
    obtain ⟨u, hu, huid, huplan⟩ := (h.dependencies row hrow).prerequisite
    have hsame : t = t' := by
      have hfind := L.tables.tasks.get?_eq_some.mpr ht
      rw [hid, ← hid'] at hfind
      have hvalue := Option.some.inj (hfind.symm.trans (L.tables.tasks.get?_eq_some.mpr ht'))
      exact Prod.ext (hid.trans hid'.symm) hvalue
    refine Tables.mem_keys_engineDb.mpr ⟨u, hu, huid, ?_⟩
    rw [← hrun, hsame]
    exact (h.runId_eq ht' hu (hplan'.trans huplan.symm)).symm

theorem acyclic_enginePlan : Acyclic fun x y ↦
    ∃ d ∈ (h.enginePlan runId).db.deps, d.dependentTaskId = x ∧ d.prerequisiteTaskId = y := by
  have hrow (x y : RowId) (hxy : ∃ d ∈ (h.enginePlan runId).db.deps,
      d.dependentTaskId = x ∧ d.prerequisiteTaskId = y) : L.tables.WaitsFor x y := by
    obtain ⟨d, hd, rfl, rfl⟩ := hxy
    obtain ⟨row, hrow, rfl, -⟩ := Tables.mem_deps_engineDb hd
    exact ⟨row, hrow, rfl⟩
  intro id hcycle
  exact h.acyclic id (TransGen.mono hrow id id hcycle)

/-- The first poll finds work in every plan. -/
theorem readyTasks_enginePlan (hne : (h.enginePlan runId).db.tasks.rows ≠ []) :
    (h.enginePlan runId).db.readyTasks.2 ≠ [] := by
  have hkeys : {id | id ∈ (h.enginePlan runId).db.tasks.keys}.Nonempty := by
    obtain ⟨r, hr⟩ := List.exists_mem_of_ne_nil _ hne
    exact ⟨r.1, List.mem_map_of_mem hr⟩
  obtain ⟨id, hid, hlast⟩ := h.acyclic_enginePlan.exists_last (List.finite_toSet _) hkeys
  obtain ⟨r, hr, rfl⟩ := List.mem_map.mp hid
  have hcandidate : r.2.status.isCandidate := by
    rw [(h.enginePlan runId).planned r.2 (List.mem_map_of_mem hr)]
    rfl
  have hfree : (h.enginePlan runId).db.hardSatisfied r.1 := by
    refine List.all_eq_true.mpr fun d hd ↦ ?_
    obtain ⟨hd, hdep⟩ := List.mem_filter.mp hd
    refine absurd ⟨d, hd, (of_decide_eq_true hdep).1, rfl⟩ (hlast _ ?_)
    exact (h.enginePlan runId).prerequisite_mem d hd
  refine List.ne_nil_of_mem (List.mem_map_of_mem (List.mem_filter.mpr ⟨hr, ?_⟩))
  exact decide_eq_true ⟨hcandidate, hfree⟩

end Ledger.Orderly

/-- Whatever has been planned, the engine is handed a plan for each run: planned tasks, hard and
unsatisfied dependencies between them and no cycle, and the first poll finds a task to start. -/
theorem Ledger.handed_over {L : Ledger} (h : L.Orderly) (steps : List Ledger.Step) (runId : RowId) :
    ∃ p : Plan, p.db = (steps.foldl Ledger.step L).tables.engineDb runId ∧
      (Acyclic fun x y ↦ ∃ d ∈ p.db.deps, d.dependentTaskId = x ∧ d.prerequisiteTaskId = y) ∧
      (p.db.tasks.rows ≠ [] → p.db.readyTasks.2 ≠ []) :=
  ⟨(h.steps steps).enginePlan runId, rfl, (h.steps steps).acyclic_enginePlan,
    (h.steps steps).readyTasks_enginePlan⟩

theorem Ledger.handed_over_secondAnswer :
    ∃ p : Plan, p.db = (oneRun.planRun secondAnswer 0).tables.engineDb 0 ∧
      (Acyclic fun x y ↦ ∃ d ∈ p.db.deps, d.dependentTaskId = x ∧ d.prerequisiteTaskId = y) ∧
      (p.db.tasks.rows ≠ [] → p.db.readyTasks.2 ≠ []) :=
  Ledger.handed_over oneRun_fresh.orderly [.plan secondAnswer 0] 0

end TradingOS.Orchestration.Planner
