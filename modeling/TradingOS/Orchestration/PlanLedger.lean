import TradingOS.Orchestration.GeneratePlan

namespace TradingOS.Orchestration.Planner

open Lib Relation

namespace Tables

variable {db db' : Tables}

theorem insertDependencies_keeps {rows : List DependencyRow}
    (h : rows.foldlM insertDependency db = .ok db') : db'.plans = db.plans ∧ db'.runs = db.runs := by
  induction rows generalizing db with
  | nil =>
    cases h
    exact ⟨rfl, rfl⟩
  | cons row rows ih =>
    obtain ⟨db₁, hrow, hrows⟩ := bind_eq_ok.mp h
    obtain ⟨hplans, hruns⟩ := ih hrows
    have hkept : db₁.plans = db.plans ∧ db₁.runs = db.runs := by
      rw [insertDependency, ite_error_eq_ok] at hrow
      obtain ⟨-, hrow⟩ := hrow
      split at hrow
      · split at hrow
        · cases hrow
        · cases hrow
          exact ⟨rfl, rfl⟩
      · cases hrow
    exact ⟨hplans.trans hkept.1, hruns.trans hkept.2⟩

theorem insertPlan_adds {row : PlanRow} {planId : RowId} (h : db.insertPlan row = .ok (db', planId)) :
    planId ∉ db.plans.keys ∧ row.runId ∉ db.plans.values.map PlanRow.runId ∧
      db'.plans.rows = db.plans.rows ++ [(planId, row)] := by
  rw [insertPlan, ite_error_eq_ok, ite_error_eq_ok, ite_error_eq_ok] at h
  obtain ⟨-, -, hfirst, h⟩ := h
  cases h
  have hfresh : db.nextId ∉ db.plans.keys := fun hin ↦ Nat.lt_irrefl _ (db.plans_lt _ hin)
  exact ⟨hfresh, hfirst, db.plans.rows_setdefault hfresh⟩

end Tables

namespace DraftPlan

variable {plan : DraftPlan} {settings : Settings} {runId planId : RowId} {run : OrganizationRun}
  {before after : Tables} {isAgentEnabled : String → Bool}

theorem addTasks_keeps {ts : List PlannedTask} {s s' : Tables × Table String RowId}
    (h : ts.foldlM (addTask settings runId run planId) s = .ok s') : s'.1.runs = s.1.runs := by
  induction ts generalizing s with
  | nil =>
    cases h
    rfl
  | cons t ts ih =>
    obtain ⟨s₁, hturn, hrest⟩ := bind_eq_ok.mp h
    obtain ⟨⟨db₁, id⟩, hinsert, hs₁⟩ := bind_eq_ok.mp hturn
    cases hs₁
    obtain ⟨-, -, -, -, hruns, -⟩ := Tables.insertTask_eq_ok hinsert
    exact (ih hrest).trans hruns

/-- The rows that a recorded plan adds, and the link from its run. -/
structure Written (plan : DraftPlan) (settings : Settings) (runId : RowId) (run : OrganizationRun)
    (before after : Tables) (planId : RowId) (idOf : String → RowId) : Prop where
  fresh : planId ∉ before.plans.keys
  first : runId ∉ before.plans.values.map PlanRow.runId
  plans : after.plans.rows = before.plans.rows ++ [(planId, plan.planRow runId)]
  runs : after.runs = before.runs.modify runId fun run ↦ { run with planId := some planId }
  inj : ∀ t ∈ plan.tasks, ∀ u ∈ plan.tasks, idOf t.key = idOf u.key → t = u
  new : ∀ t ∈ plan.tasks, idOf t.key ∉ before.tasks.keys
  tasks : after.tasks.rows =
    before.tasks.rows ++ plan.tasks.map fun t ↦ (idOf t.key, taskRow settings runId run planId t)
  dependencies : after.dependencies = before.dependencies ++ plan.edges.map (plan.edgeRow planId idOf)

theorem written_of_persist (hplan : plan.Grounded)
    (hadmissible : plan.Admissible (knownOf (snapshot isAgentEnabled)))
    (h : plan.persist settings runId run before = .ok after) :
    ∃ planId idOf, plan.Written settings runId run before after planId idOf := by
  obtain ⟨⟨db₁, planId⟩, hheader, h⟩ := bind_eq_ok.mp h
  obtain ⟨s, htasks, h⟩ := bind_eq_ok.mp h
  obtain ⟨rows, hrows, h⟩ := bind_eq_ok.mp h
  obtain ⟨-, -, hle, -, hruns, htaskRows, hdeps⟩ := Tables.insertPlan_eq_ok hheader
  obtain ⟨hfresh, hfirst, hplans⟩ := Tables.insertPlan_adds hheader
  obtain ⟨-, hadded⟩ := addTasks_eq_ok htasks
  obtain ⟨idOf, hkeyed⟩ := hadded.keyed hadmissible.keys
  rw [dependencyRows_eq hkeyed.get? hplan] at hrows
  cases hrows
  obtain ⟨hnew, hsame⟩ := Tables.insertDependencies_eq_ok h
  obtain ⟨hsamePlans, hsameRuns⟩ := Tables.insertDependencies_keeps h
  have hlinked : (db₁.linkPlan runId planId).plans = db₁.plans := rfl
  have hfirstRows : (db₁.linkPlan runId planId).tasks = before.tasks := htaskRows
  refine ⟨planId, idOf, hfresh, hfirst, ?_, ?_, hkeyed.inj, fun t ht ↦ hkeyed.not_mem_keys hle ht, ?_, ?_⟩
  · rw [hsamePlans, hadded.plans, hlinked, hplans]
  · rw [hsameRuns, addTasks_keeps htasks, ← hruns]
    rfl
  · rw [hsame, hkeyed.rows, hfirstRows]
  · rw [hnew, hadded.dependencies]
    exact congrArg (· ++ _) hdeps

end DraftPlan

/-- The loop ends with the verdict. -/
inductive Briefing.Reaches (b : Briefing) (taskPrompt : String) : Verdict → Prop
  | concluded {n : ℕ} {lastError : String} {verdict : Verdict} : n ≤ maxPlanAttempts →
      b.Tried taskPrompt n lastError →
      b.attempt taskPrompt n lastError = .ok (.concluded verdict) → Reaches b taskPrompt verdict
  | exhausted {lastError : String} : b.Tried taskPrompt (maxPlanAttempts + 1) lastError →
      Reaches b taskPrompt (.cannotPlan (exhausted lastError))

theorem Briefing.reaches_of_attempts {b : Briefing} {taskPrompt : String} {verdict : Verdict}
    (h : b.attempts taskPrompt maxPlanAttempts 1 "" = .ok verdict) : b.Reaches taskPrompt verdict := by
  rcases of_attempts .first h with ⟨n, lastError, hlt, htried, hconcluded⟩ | ⟨lastError, htried, rfl⟩
  · exact .concluded (by omega) htried hconcluded
  · rw [Nat.add_comm] at htried
    exact .exhausted htried

/-- An accepted plan is an answer of the model, valid before and after its scaffolds. -/
theorem Briefing.Reaches.plan {b : Briefing} {taskPrompt : String} {plan : DraftPlan}
    (h : b.Reaches taskPrompt (.plan plan)) :
    ∃ n lastError answer, n ≤ maxPlanAttempts ∧ b.Tried taskPrompt n lastError ∧
      b.complete n (userPrompt taskPrompt lastError) = .ok answer ∧ answer.canPlan ∧
      answer.toDraftPlan.validate b.room b.known = .ok () ∧
      plan = answer.toDraftPlan.scaffolded b.registry ∧ plan.validate b.room b.known = .ok () := by
  cases h with
  | concluded hn htried hconcluded =>
    obtain ⟨answer, hanswer, hvalid⟩ := of_judge_plan hconcluded
    exact ⟨_, _, answer, hn, htried, hanswer, hvalid⟩

namespace Ledger

variable (L : Ledger) (b : Briefing) (runId : RowId)

/-- Why planning a run fails with nothing recorded. -/
inductive Fails (run : OrganizationRun) : Prop
  | setup : b.taskPrompt = none → Fails run
  | stack {taskPrompt : String} {error : PlanError} : b.taskPrompt = some taskPrompt →
      b.attempts taskPrompt maxPlanAttempts 1 "" = .error error → Fails run
  | plan {taskPrompt : String} {plan : DraftPlan} : b.taskPrompt = some taskPrompt →
      b.Reaches taskPrompt (.plan plan) →
      ¬ (plan.Storable b.settings ∧ runId ∉ L.tables.plans.values.map PlanRow.runId) → Fails run
  | reason {taskPrompt reason : String} : b.taskPrompt = some taskPrompt →
      b.Reaches taskPrompt (.cannotPlan reason) → ¬ NulFree reason → Fails run

/-- What planning a run can make of the ledger. -/
inductive PlanStep : Ledger → Prop
  | idle : (∀ run, L.statuses.get? runId = some .planning → L.tables.runs.get? runId ≠ some run) →
      PlanStep L
  | planned {run : OrganizationRun} {taskPrompt : String} {plan : DraftPlan} {after : Tables}
      {planId : RowId} {idOf : String → RowId} : L.statuses.get? runId = some .planning →
      L.tables.runs.get? runId = some run → b.taskPrompt = some taskPrompt →
      b.Reaches taskPrompt (.plan plan) → plan.Storable b.settings →
      plan.Written b.settings runId run L.tables after planId idOf →
      PlanStep
        { L with
          tables := after
          events := L.events ++ [⟨runId, "organization.plan.created", "plan", some planId,
            .plan plan.tasks.length plan.departments (plan.tasks.map (·.dependsOn.length)).sum⟩] }
  | declined {run : OrganizationRun} {taskPrompt reason : String} :
      L.statuses.get? runId = some .planning → L.tables.runs.get? runId = some run →
      b.taskPrompt = some taskPrompt → b.Reaches taskPrompt (.cannotPlan reason) → NulFree reason →
      PlanStep
        { L with
          statuses := L.statuses.modify runId fun _ ↦ .cannotPlan
          decisions := L.decisions ++ [{ runId, reason }]
          events := L.events ++
            [⟨runId, "organization.run.cannot_plan", "run", some runId, .cannotPlan reason⟩] }
  | failed {run : OrganizationRun} : L.statuses.get? runId = some .planning →
      L.tables.runs.get? runId = some run → L.Fails b runId run →
      PlanStep { L with statuses := L.statuses.modify runId fun _ ↦ .failed }

variable {L b runId} {run : OrganizationRun} {taskPrompt : String}

theorem recordPlan_cases {plan : DraftPlan} (hrun : L.tables.runs.get? runId = some run)
    (hreaches : b.Reaches taskPrompt (.plan plan)) :
    (∃ error, L.recordPlan b runId run plan = .error error ∧
        ¬ (plan.Storable b.settings ∧ runId ∉ L.tables.plans.values.map PlanRow.runId)) ∨
      ∃ after planId idOf, plan.Storable b.settings ∧
        plan.Written b.settings runId run L.tables after planId idOf ∧
        L.recordPlan b runId run plan = .ok
          { L with
            tables := after
            events := L.events ++ [⟨runId, "organization.plan.created", "plan", some planId,
              .plan plan.tasks.length plan.departments (plan.tasks.map (·.dependsOn.length)).sum⟩] } := by
  obtain ⟨n, lastError, answer, -, -, -, -, -, -, hvalid⟩ := hreaches.plan
  obtain ⟨hplan, hadmissible⟩ := GeneratedPlan.of_validate hvalid
  cases hpersist : plan.persist b.settings runId run L.tables with
  | error error =>
    refine .inl ⟨.write error, by rw [recordPlan, hpersist], ?_⟩
    rintro ⟨hstorable, hnone⟩
    obtain ⟨after, hok⟩ := DraftPlan.exists_persist hplan hadmissible hrun hnone hstorable
    cases hpersist.symm.trans hok
  | ok after =>
    obtain ⟨planId, idOf, hwritten⟩ := DraftPlan.written_of_persist hplan hadmissible hpersist
    have hstorable := (DraftPlan.of_persist hplan hadmissible hrun hpersist).1
    refine .inr ⟨after, planId, idOf, hstorable, hwritten, ?_⟩
    have hsubject : (after.runs.get? runId).bind OrganizationRun.planId = some planId := by
      rw [hwritten.runs, Table.get?_modify, if_pos rfl, hrun]
      rfl
    rw [recordPlan, hpersist]
    simp only [planCreated, hsubject]

/-- Planning a run leaves it as it was, records a plan that was checked, records why there is none,
or records nothing and fails it. -/
theorem planRun_step (L : Ledger) (b : Briefing) (runId : RowId) :
    L.PlanStep b runId (L.planRun b runId) := by
  rw [planRun]
  split
  · next run hstatus hrun =>
    rw [generatePlan]
    cases hprompt : b.taskPrompt with
    | none => exact .failed hstatus hrun (.setup hprompt)
    | some taskPrompt =>
      dsimp only
      cases hattempts : b.attempts taskPrompt maxPlanAttempts 1 "" with
      | error error => exact .failed hstatus hrun (.stack hprompt hattempts)
      | ok verdict =>
        have hreaches := Briefing.reaches_of_attempts hattempts
        cases verdict with
        | cannotPlan reason =>
          dsimp only [recordCannotPlan]
          by_cases hnul : NulFree reason
          · rw [if_neg (not_not.mpr hnul)]
            exact .declined hstatus hrun hprompt hreaches hnul
          · rw [if_pos hnul]
            exact .failed hstatus hrun (.reason hprompt hreaches hnul)
        | plan plan =>
          dsimp only
          rcases recordPlan_cases hrun hreaches with
            ⟨error, herror, hcause⟩ | ⟨after, planId, idOf, hstorable, hwritten, hok⟩
          · rw [herror]
            exact .failed hstatus hrun (.plan hprompt hreaches hcause)
          · rw [hok]
            exact .planned hstatus hrun hprompt hreaches hstorable hwritten
  · next hnone => exact .idle fun run hstatus hrun ↦ hnone run hstatus hrun

end Ledger

end TradingOS.Orchestration.Planner
