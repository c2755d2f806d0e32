import TradingOS.Orchestration.PlanLedger

namespace TradingOS.Orchestration.Planner

open Lib Relation

namespace Tables

/-- A row of the dependencies has the one task wait for the other. -/
def WaitsFor (db : Tables) (x y : RowId) : Prop := ∃ d ∈ db.dependencies, d.pair = (x, y)

def planTasks (db : Tables) (planId : RowId) : List (RowId × TaskRow) :=
  db.tasks.rows.filter (·.2.planId = planId)

def planDependencies (db : Tables) (planId : RowId) : List DependencyRow :=
  db.dependencies.filter (·.planId = planId)

/-- The event that tells of a plan, the rows counted. -/
def announcement (db : Tables) (p : RowId × PlanRow) : EventRow :=
  ⟨p.2.runId, "organization.plan.created", "plan", some p.1,
    .plan (db.planTasks p.1).length p.2.departments (db.planDependencies p.1).length⟩

end Tables

def DecisionRow.announcement (d : DecisionRow) : EventRow :=
  ⟨d.runId, "organization.run.cannot_plan", "run", some d.runId, .cannotPlan d.reason⟩

/-- The task belongs to a plan of its own run, is still to be done, and its agent declares what it
takes. -/
structure TaskRow.Sound (db : Tables) (t : TaskRow) : Prop where
  plan : ∃ p ∈ db.plans.rows, p.1 = t.planId ∧ p.2.runId = t.runId
  planned : t.status = "planned"
  declared : ∃ entry ∈ agentMeta, entry.1 = t.assignedAgent ∧ t.capability ∈ entry.2

/-- The dependency joins two tasks of its plan. -/
structure DependencyRow.Sound (db : Tables) (d : DependencyRow) : Prop where
  dependent : ∃ t ∈ db.tasks.rows, t.1 = d.dependentTaskId ∧ t.2.planId = d.planId
  prerequisite : ∃ t ∈ db.tasks.rows, t.1 = d.prerequisiteTaskId ∧ t.2.planId = d.planId
  hard : d.policy = "hard" ∧ d.state = "unsatisfied"

namespace Ledger

/-- What planning never breaks: no task waits for itself, tasks and dependencies stay within their
plans, a run has one plan, and the events tell exactly what the tables hold. -/
structure Orderly (L : Ledger) : Prop where
  acyclic : Acyclic L.tables.WaitsFor
  tasks : ∀ t ∈ L.tables.tasks.rows, t.2.Sound L.tables
  dependencies : ∀ d ∈ L.tables.dependencies, d.Sound L.tables
  single : (L.tables.plans.values.map PlanRow.runId).Nodup
  created : L.events.filter (·.eventType = "organization.plan.created") =
    L.tables.plans.rows.map L.tables.announcement
  declined : L.events.filter (·.eventType = "organization.run.cannot_plan") =
    L.decisions.map DecisionRow.announcement

end Ledger

namespace DraftPlan.Written

variable {plan : DraftPlan} {settings : Settings} {runId planId : RowId} {run : OrganizationRun}
  {before after : Tables} {idOf : String → RowId}

section Counts

variable (h : plan.Written settings runId run before after planId idOf)

include h

theorem taskRow_sound {known : Known} (hadmissible : plan.Admissible known)
    (hknown : ∀ agent capability, known.Declares agent capability →
      ∃ entry ∈ agentMeta, entry.1 = agent ∧ capability ∈ entry.2) {t : PlannedTask}
    (ht : t ∈ plan.tasks) : (taskRow settings runId run planId t).Sound after where
  plan := ⟨(planId, plan.planRow runId), by simp [h.plans], rfl, rfl⟩
  planned := rfl
  declared := hknown _ _ (hadmissible.declared t ht)

theorem task_sound {t : TaskRow} (ht : t.Sound before) : t.Sound after where
  plan := by
    obtain ⟨p, hp, hplan⟩ := ht.plan
    exact ⟨p, h.plans ▸ List.mem_append_left _ hp, hplan⟩
  planned := ht.planned
  declared := ht.declared

theorem mem_tasks {t : PlannedTask} (ht : t ∈ plan.tasks) :
    (idOf t.key, taskRow settings runId run planId t) ∈ after.tasks.rows := by
  rw [h.tasks]
  exact List.mem_append_right _ (List.mem_map_of_mem ht)

theorem dependency_sound {d : DependencyRow} (hd : d.Sound before) : d.Sound after where
  dependent := by
    obtain ⟨t, ht, hsame⟩ := hd.dependent
    exact ⟨t, h.tasks ▸ List.mem_append_left _ ht, hsame⟩
  prerequisite := by
    obtain ⟨t, ht, hsame⟩ := hd.prerequisite
    exact ⟨t, h.tasks ▸ List.mem_append_left _ ht, hsame⟩
  hard := hd.hard

theorem edgeRow_sound (hplan : plan.Grounded) {e : String × String} (he : e ∈ plan.edges) :
    (plan.edgeRow planId idOf e).Sound after := by
  obtain ⟨t, ht, dep, hdep, rfl⟩ := mem_edges.mp he
  obtain ⟨u, hu, rfl⟩ := List.mem_map.mp (hplan.inPlan t ht dep hdep)
  exact ⟨⟨_, h.mem_tasks ht, rfl, rfl⟩, ⟨_, h.mem_tasks hu, rfl, rfl⟩, rfl, rfl⟩

/-- The new tasks wait only for new tasks, along the edges of the plan. -/
theorem acyclic (hplan : plan.Grounded) {known : Known} (hadmissible : plan.Admissible known)
    (hbefore : Acyclic before.WaitsFor) : Acyclic after.WaitsFor := by
  let new (x y : RowId) : Prop := ∃ e ∈ plan.edges, (plan.edgeRow planId idOf e).pair = (x, y)
  have hsplit : after.WaitsFor = fun x y ↦ before.WaitsFor x y ∨ new x y := by
    funext x y
    simp only [Tables.WaitsFor, h.dependencies, List.mem_append, List.mem_map, or_and_right, exists_or,
      exists_exists_and_eq_and, new]
  have hkeys {x y : RowId} (hxy : new x y) :
      ∃ k ∈ {k | k ∈ plan.tasks.map PlannedTask.key}, ∃ k' ∈ {k | k ∈ plan.tasks.map PlannedTask.key},
        plan.KeyLeads k k' ∧ idOf k = x ∧ idOf k' = y := by
    obtain ⟨e, he, hpair⟩ := hxy
    obtain ⟨t, ht, dep, hdep, rfl⟩ := mem_edges.mp he
    obtain ⟨hx, hy⟩ := Prod.mk.inj hpair
    exact ⟨t.key, List.mem_map_of_mem ht, dep, hplan.inPlan t ht dep hdep, ⟨t, ht, rfl, hdep⟩, hx, hy⟩
  have hnew {k : String} (hk : k ∈ plan.tasks.map PlannedTask.key) : idOf k ∉ before.tasks.keys := by
    obtain ⟨t, ht, rfl⟩ := List.mem_map.mp hk
    exact h.new t ht
  have hinj : Set.InjOn idOf {k | k ∈ plan.tasks.map PlannedTask.key} := by
    intro k hk k' hk' heq
    obtain ⟨t, ht, rfl⟩ := List.mem_map.mp hk
    obtain ⟨u, hu, rfl⟩ := List.mem_map.mp hk'
    rw [h.inj t ht u hu heq]
  have hold (x y : RowId) (hxy : before.WaitsFor x y) :
      x ∈ {id | id ∈ before.tasks.keys} ∧ y ∈ {id | id ∈ before.tasks.keys} := by
    obtain ⟨d, hd, hpair⟩ := hxy
    obtain ⟨rfl, rfl⟩ := Prod.mk.inj hpair
    exact before.dependencies_foreign d hd
  have hfresh (x y : RowId) (hxy : new x y) :
      x ∉ {id | id ∈ before.tasks.keys} ∧ y ∉ {id | id ∈ before.tasks.keys} := by
    obtain ⟨k, hk, k', hk', -, rfl, rfl⟩ := hkeys hxy
    exact ⟨hnew hk, hnew hk'⟩
  rw [hsplit]
  exact Acyclic.or hold hfresh hbefore (Acyclic.named hadmissible.acyclic hinj fun x y ↦ hkeys)

theorem planTasks_eq_self {id : RowId} (hne : id ≠ planId) : after.planTasks id = before.planTasks id := by
  rw [Tables.planTasks, h.tasks, List.filter_append, Tables.planTasks, List.append_right_eq_self,
    List.filter_eq_nil_iff]
  intro r hr
  obtain ⟨t, -, rfl⟩ := List.mem_map.mp hr
  exact decide_eq_true_iff.not.mpr hne.symm

theorem planDependencies_eq_self {id : RowId} (hne : id ≠ planId) :
    after.planDependencies id = before.planDependencies id := by
  rw [Tables.planDependencies, h.dependencies, List.filter_append, Tables.planDependencies,
    List.append_right_eq_self, List.filter_eq_nil_iff]
  intro d hd
  obtain ⟨e, -, rfl⟩ := List.mem_map.mp hd
  exact decide_eq_true_iff.not.mpr hne.symm

theorem announcement_eq_self {p : RowId × PlanRow} (hp : p ∈ before.plans.rows) :
    after.announcement p = before.announcement p := by
  have hne : p.1 ≠ planId := by
    rintro rfl
    exact h.fresh (List.mem_map_of_mem hp)
  rw [Tables.announcement, h.planTasks_eq_self hne, h.planDependencies_eq_self hne]
  rfl

theorem length_planTasks (hbefore : ∀ t ∈ before.tasks.rows, t.2.Sound before) :
    (after.planTasks planId).length = plan.tasks.length := by
  have hnone : before.planTasks planId = [] := by
    refine List.filter_eq_nil_iff.mpr fun t ht ↦ decide_eq_true_iff.not.mpr ?_
    rintro rfl
    obtain ⟨p, hp, hid, -⟩ := (hbefore t ht).plan
    exact h.fresh (hid ▸ List.mem_map_of_mem hp)
  have hall : (plan.tasks.map fun t ↦ (idOf t.key, taskRow settings runId run planId t)).filter
      (·.2.planId = planId) = plan.tasks.map fun t ↦ (idOf t.key, taskRow settings runId run planId t) :=
    List.filter_eq_self.mpr <| List.forall_mem_map.mpr fun t _ ↦ decide_eq_true rfl
  rw [Tables.planTasks] at hnone
  rw [Tables.planTasks, h.tasks, List.filter_append, hnone, hall, List.nil_append, List.length_map]

theorem length_planDependencies (htasks : ∀ t ∈ before.tasks.rows, t.2.Sound before)
    (hbefore : ∀ d ∈ before.dependencies, d.Sound before) :
    (after.planDependencies planId).length = (plan.tasks.map (·.dependsOn.length)).sum := by
  have hnone : before.planDependencies planId = [] := by
    refine List.filter_eq_nil_iff.mpr fun d hd ↦ decide_eq_true_iff.not.mpr ?_
    rintro rfl
    obtain ⟨t, ht, -, hsame⟩ := (hbefore d hd).dependent
    obtain ⟨p, hp, hid, -⟩ := (htasks t ht).plan
    exact h.fresh (hsame ▸ hid ▸ List.mem_map_of_mem hp)
  have hall : (plan.edges.map (plan.edgeRow planId idOf)).filter (·.planId = planId) =
      plan.edges.map (plan.edgeRow planId idOf) :=
    List.filter_eq_self.mpr <| List.forall_mem_map.mpr fun e _ ↦ decide_eq_true rfl
  rw [Tables.planDependencies] at hnone
  rw [Tables.planDependencies, h.dependencies, List.filter_append, hnone, hall, List.nil_append,
    List.length_map, edges, List.length_flatMap]
  simp only [List.length_map]

end Counts

end DraftPlan.Written

theorem declared_of_declares {isAgentEnabled : String → Bool} (agent capability : String)
    (h : (knownOf (snapshot isAgentEnabled)).Declares agent capability) :
    ∃ entry ∈ agentMeta, entry.1 = agent ∧ capability ∈ entry.2 := by
  obtain ⟨capabilities, hknown, hcapability⟩ := h
  obtain ⟨row, hlast, rfl⟩ := Option.map_eq_some_iff.mp hknown
  obtain ⟨hrow, rfl⟩ := of_lastOf_eq_some hlast
  obtain ⟨entry, hentry, rfl⟩ := List.mem_map.mp (List.mem_of_mem_filter hrow)
  exact ⟨entry, hentry, rfl, hcapability⟩

namespace Ledger

variable {L : Ledger}

namespace Orderly

/-- The statuses are not part of it. -/
theorem withStatuses (h : L.Orderly) (statuses : Table RowId RunStatus) :
    ({ L with statuses } : Ledger).Orderly := ⟨h.acyclic, h.tasks, h.dependencies, h.single, h.created,
  h.declined⟩

theorem planned (h : L.Orderly) {b : Briefing} {runId planId : RowId} {run : OrganizationRun}
    {plan : DraftPlan} {after : Tables} {idOf : String → RowId}
    (hvalid : plan.validate b.room b.known = .ok ())
    (hwritten : plan.Written b.settings runId run L.tables after planId idOf) :
    ({ L with
        tables := after
        events := L.events ++ [⟨runId, "organization.plan.created", "plan", some planId,
          .plan plan.tasks.length plan.departments (plan.tasks.map (·.dependsOn.length)).sum⟩] } :
      Ledger).Orderly := by
  obtain ⟨hplan, hadmissible⟩ := GeneratedPlan.of_validate hvalid
  have hold : L.tables.plans.rows.map after.announcement =
      L.tables.plans.rows.map L.tables.announcement :=
    List.map_congr_left fun p hp ↦ hwritten.announcement_eq_self hp
  exact
    { acyclic := hwritten.acyclic hplan hadmissible h.acyclic
      tasks := by
        rw [hwritten.tasks, List.forall_mem_append]
        refine ⟨fun t ht ↦ hwritten.task_sound (h.tasks t ht), List.forall_mem_map.mpr fun t ht ↦ ?_⟩
        exact hwritten.taskRow_sound hadmissible declared_of_declares ht
      dependencies := by
        rw [hwritten.dependencies, List.forall_mem_append]
        refine ⟨fun d hd ↦ hwritten.dependency_sound (h.dependencies d hd), ?_⟩
        exact List.forall_mem_map.mpr fun e he ↦ hwritten.edgeRow_sound hplan he
      single := by
        rw [Table.values, hwritten.plans, List.map_append, List.map_append]
        refine h.single.append (List.nodup_singleton _) ?_
        simpa [DraftPlan.planRow] using hwritten.first
      created := by
        rw [List.filter_append, h.created, hwritten.plans, List.map_append, hold]
        simp only [List.filter_cons, List.filter_nil, decide_true, if_true, List.map_cons,
          List.map_nil, Tables.announcement, hwritten.length_planTasks h.tasks,
          hwritten.length_planDependencies h.tasks h.dependencies]
        rfl
      declined := by
        rw [List.filter_append, h.declined]
        exact List.append_nil _ }

theorem noted (h : L.Orderly) (runId : RowId) (reason : String) (statuses : Table RowId RunStatus) :
    ({ L with
        statuses
        decisions := L.decisions ++ [{ runId, reason }]
        events := L.events ++
          [⟨runId, "organization.run.cannot_plan", "run", some runId, .cannotPlan reason⟩] } :
      Ledger).Orderly where
  acyclic := h.acyclic
  tasks := h.tasks
  dependencies := h.dependencies
  single := h.single
  created := by
    rw [List.filter_append, h.created]
    exact List.append_nil _
  declined := by
    rw [List.filter_append, h.declined, List.map_append]
    rfl

theorem planStep (h : L.Orderly) {b : Briefing} {runId : RowId} {L' : Ledger}
    (hstep : L.PlanStep b runId L') : L'.Orderly := by
  cases hstep with
  | idle => exact h
  | planned _ _ _ hreaches _ hwritten =>
    obtain ⟨_, _, _, -, -, -, -, -, -, hvalid⟩ := hreaches.plan
    exact h.planned hvalid hwritten
  | declined => exact h.noted _ _ _
  | failed => exact h.withStatuses _

end Orderly

/-- A thread plans a run, or the rest of the organisation moves runs from one status to another. -/
inductive Step
  | plan (b : Briefing) (runId : RowId)
  | statuses (statuses : Table RowId RunStatus)

def step (L : Ledger) : Step → Ledger
  | .plan b runId => L.planRun b runId
  | .statuses statuses => { L with statuses }

theorem Orderly.step (h : L.Orderly) (s : Step) : (L.step s).Orderly := by
  cases s with
  | plan b runId => exact h.planStep (planRun_step L b runId)
  | statuses statuses => exact h.withStatuses statuses

theorem Orderly.steps (h : L.Orderly) (steps : List Step) : (steps.foldl Ledger.step L).Orderly := by
  induction steps generalizing L with
  | nil => exact h
  | cons s steps ih => exact ih (h.step s)

/-- An organisation that nothing has been planned in. -/
structure Fresh (L : Ledger) : Prop where
  plans : L.tables.plans.rows = []
  tasks : L.tables.tasks.rows = []
  decisions : L.decisions = []
  events : L.events = []

theorem Fresh.orderly (h : L.Fresh) : L.Orderly := by
  have hkeys : L.tables.tasks.keys = [] := congrArg (List.map Prod.fst) h.tasks
  have hdependencies : L.tables.dependencies = [] := by
    refine List.eq_nil_iff_forall_not_mem.mpr fun d hd ↦ ?_
    have hforeign := (L.tables.dependencies_foreign d hd).1
    rw [hkeys] at hforeign
    cases hforeign
  refine ⟨.of_empty ?_, ?_, ?_, ?_, ?_, ?_⟩
  · rintro x y ⟨d, hd, -⟩
    rw [hdependencies] at hd
    cases hd
  · rw [h.tasks]
    exact List.forall_mem_nil _
  · rw [hdependencies]
    exact List.forall_mem_nil _
  · rw [Table.values, h.plans]
    exact List.nodup_nil
  · rw [h.events, h.plans]
    rfl
  · rw [h.events, h.decisions]
    rfl

/-- Whatever the model answers to whichever runs, in any order and however often, planning keeps the
organisation in order. -/
theorem orderly_of_fresh (h : L.Fresh) (steps : List Step) : (steps.foldl Ledger.step L).Orderly :=
  h.orderly.steps steps

theorem planning_nodup : ([(0, RunStatus.planning)].map Prod.fst).Nodup := List.nodup_singleton 0

/-- A run that waits for its plan, alone. -/
def oneRun : Ledger where
  tables := DraftPlan.oneRun
  statuses := ⟨[(0, .planning)], planning_nodup⟩
  decisions := []
  events := []

/-- A model that is understood at its second answer. -/
def secondAnswer : Briefing where
  room := 100
  settings := {}
  isAgentEnabled := fun _ ↦ true
  taskPrompt := some "Plan the objective."
  complete := fun n _ ↦
    if n = 2 then .ok { DraftPlan.assembleAfter ["a"] with departments := ["research"] }
    else .error "Expecting value: line 1 column 1 (char 0)"

theorem oneRun_fresh : oneRun.Fresh := ⟨rfl, rfl, rfl, rfl⟩

theorem orderly_of_fresh_secondAnswer :
    (oneRun.planRun secondAnswer 0).Orderly ∧ (oneRun.planRun secondAnswer 0).events =
      [⟨0, "organization.plan.created", "plan", some 0, .plan 2 ["research"] 1⟩] :=
  ⟨orderly_of_fresh oneRun_fresh [.plan secondAnswer 0], by decide +kernel⟩

end Ledger

end TradingOS.Orchestration.Planner
