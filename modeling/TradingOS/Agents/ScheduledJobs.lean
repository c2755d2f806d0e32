import TradingOS.Lib.Fallible
import TradingOS.Lib.Runs
import TradingOS.Lib.Table

namespace TradingOS.Agents.ScheduledJobs

open Lib Lib.Runs

/-- `JOB_REGISTRY`: each job's `default_cron`. -/
def jobRegistry : Table String String where
  rows :=
    [("scheduler_market_data_ingestion", "0 5 * * *"),
     ("scheduler_corporate_actions_ingestion", "30 5 * * *"),
     ("scheduler_daily_research_cycle", "0 6 * * *"),
     ("scheduler_news_sentiment_cycle", "*/30 9-15 * * *"),
     ("scheduler_weekend_memory_consolidation", "0 2 * * sat"),
     ("scheduler_paper_trading_daily_cycle", "30 6 * * *"),
     ("scheduler_paper_trading_equity_snapshot", "35 15 * * *"),
     ("scheduler_shadow_mode_daily_cycle", "0 10 * * mon-fri"),
     ("scheduler_audit_archive", "30 23 * * *"),
     ("scheduler_audit_chain_verification", "0 2 * * *"),
     ("scheduler_data_lake_backup", "0 23 * * *"),
     ("scheduler_duckdb_catalog_refresh", "30 23 * * *"),
     ("scheduler_stalled_run_sweep", "*/5 * * * *")]
  nodup := by decide +kernel

/-- What is used of APScheduler's `CronTrigger` in `IST_TIMEZONE`: its parser wants five fields and
reads the expressions of the registry. -/
structure CronTrigger (τ : Type) where
  fromCrontab : String → Option τ
  nextFireTime : τ → ℤ → Option ℤ
  empty : fromCrontab "" = none
  defaults : ∀ r ∈ jobRegistry.rows, (fromCrontab r.2).isSome

structure ScheduledJobConfig where
  cronExpression : String
  enabled : Bool
  deriving DecidableEq

/-- A job of the live scheduler, paused when it has no next run time. -/
structure Job (τ : Type) where
  trigger : τ
  nextRunTime : Option ℤ
  deriving DecidableEq

/-- The processes that serve the API over the one table. `app-tls` runs with
`RUN_SCHEDULER=false`. -/
inductive Process
  | app | appTls
  deriving DecidableEq

/-- The table of overrides, and the live scheduler of `app` if it has started one. -/
structure State (τ : Type) where
  config : Table String ScheduledJobConfig
  scheduler : Option (Table String (Job τ))

variable {τ : Type}

def getEffectiveSchedule (config : Table String ScheduledJobConfig) (jobId : String) :
    Option ScheduledJobConfig :=
  (jobRegistry.get? jobId).map fun defaultCron ↦ (config.get? jobId).getD ⟨defaultCron, true⟩

namespace CronTrigger

variable (C : CronTrigger τ) (jobs : Table String (Job τ)) (jobId : String) (now : ℤ)

def validateCronExpression (cronExpression : String) : Bool := (C.fromCrontab cronExpression).isSome

def scheduled (trigger : τ) : Job τ := ⟨trigger, C.nextFireTime trigger now⟩

def addJob (trigger : τ) : Table String (Job τ) := jobs.assign jobId (C.scheduled now trigger)

def rescheduleJob (trigger : τ) : Table String (Job τ) :=
  jobs.modify jobId fun _ ↦ C.scheduled now trigger

def pauseJob : Table String (Job τ) := jobs.modify jobId fun job ↦ { job with nextRunTime := none }

/-- A job whose trigger has no further fire time is removed. -/
def resumeJob : Table String (Job τ) :=
  match jobs.get? jobId with
  | none => jobs
  | some job =>
    match C.nextFireTime job.trigger now with
    | none => jobs.erase jobId
    | some t => jobs.modify jobId fun job ↦ { job with nextRunTime := some t }

def applyEnabled (enabled : Option Bool) (row : ScheduledJobConfig) : Table String (Job τ) :=
  match enabled with
  | none => jobs
  | some _ => if row.enabled then C.resumeJob jobs jobId now else pauseJob jobs jobId

/-- The changes of a live job: of one that the scheduler does not have, the first fails. -/
def applyLive (cronExpression : Option String) (enabled : Option Bool) (row : ScheduledJobConfig) :
    Table String (Job τ) :=
  if jobs.get? jobId = none then jobs
  else
    match cronExpression with
    | none => C.applyEnabled jobs jobId now enabled row
    | some _ =>
      match C.fromCrontab row.cronExpression with
      | none => jobs
      | some trigger =>
        C.applyEnabled (C.rescheduleJob jobs jobId now trigger) jobId now enabled row

/-- The width of the column `cron_expression`. -/
def cronExpressionLength : ℕ := 100

/-- The row that is committed. An empty expression counts as none where there was no row. -/
def upserted (config : Table String ScheduledJobConfig) (cronExpression : Option String)
    (enabled : Option Bool) : Option ScheduledJobConfig :=
  match config.get? jobId with
  | none => (jobRegistry.get? jobId).map fun defaultCron ↦
      { cronExpression := (cronExpression.filter (· ≠ "")).getD defaultCron
        enabled := enabled.getD true }
  | some row => some
      { cronExpression := cronExpression.getD row.cronExpression
        enabled := enabled.getD row.enabled }

/-- A call that raises before its commit, for a job or an expression that cannot be stored, gives
nothing. -/
def applyScheduleChange (s : State τ) (cronExpression : Option String) (enabled : Option Bool) :
    Option (State τ) :=
  match upserted jobId s.config cronExpression enabled with
  | none => none
  | some row =>
    if cronExpressionLength < row.cronExpression.length then none
    else some
      { config := s.config.assign jobId row
        scheduler := s.scheduler.map fun jobs ↦ C.applyLive jobs jobId now cronExpression enabled row }

/-- A process without a scheduler writes the row, and returns. -/
def applyServed (served : Process) (s : State τ) (cronExpression : Option String)
    (enabled : Option Bool) : Option (State τ) :=
  match served with
  | .app => C.applyScheduleChange jobId now s cronExpression enabled
  | .appTls =>
    (C.applyScheduleChange jobId now { s with scheduler := none } cronExpression enabled).map
      fun t ↦ { t with scheduler := s.scheduler }

inductive Refused
  | http (status : ℕ) (detail : String)
  | raised
  deriving DecidableEq

def updateScheduledJob (served : Process) (s : State τ) (cronExpression : Option String)
    (enabled : Option Bool) : Except Refused (State τ) :=
  if jobRegistry.get? jobId = none then .error (.http 404 s!"Unknown scheduled job '{jobId}'")
  else
    match cronExpression.filter fun c ↦ ¬ C.validateCronExpression c with
    | some cron => .error (.http 400 s!"'{cron}' is not a valid 5-field cron expression")
    | none =>
      if cronExpression = none ∧ enabled = none then
        .error (.http 400 "Provide cron_expression and/or enabled")
      else
        match C.applyServed jobId now served s cronExpression enabled with
        | none => .error .raised
        | some t => .ok t

/-- The body of the loop of `build_scheduler`, which raises on an expression it cannot read. -/
def addEffective (config : Table String ScheduledJobConfig) (jobs : Table String (Job τ))
    (jobId : String) : Option (Table String (Job τ)) := do
  let schedule ← getEffectiveSchedule config jobId
  let trigger ← C.fromCrontab schedule.cronExpression
  let added := C.addJob jobs jobId now trigger
  pure (if schedule.enabled then added else pauseJob added jobId)

def buildScheduler (config : Table String ScheduledJobConfig) : Option (Table String (Job τ)) :=
  jobRegistry.keys.foldlM (C.addEffective now config) .empty

/-- The expression has a fire time after the instant. -/
def fires (cronExpression : String) : Bool :=
  ((C.fromCrontab cronExpression).bind (C.nextFireTime · now)).isSome

/-- A live job runs what its schedule says. -/
def Runs (schedule : ScheduledJobConfig) (job : Job τ) : Prop :=
  C.fromCrontab schedule.cronExpression = some job.trigger ∧
    (job.nextRunTime = none ↔ schedule.enabled = false)

inductive Event
  | change (served : Process) (jobId : String) (cronExpression : Option String)
      (enabled : Option Bool) (now : ℤ)
  | restart (now : ℤ)

/-- A call comes from the router, for a job of the registry and with a valid expression. -/
def step (s : State τ) : Event → Option (State τ)
  | .change served jobId cronExpression enabled now =>
    if jobRegistry.get? jobId = none ∨ ¬ cronExpression.all C.validateCronExpression then none
    else C.applyServed jobId now served s cronExpression enabled
  | .restart now => some { s with scheduler := C.buildScheduler now s.config }

def Faithful (s : State τ) : Prop :=
  ∀ jobs ∈ s.scheduler, ∀ jobId schedule, getEffectiveSchedule s.config jobId = some schedule →
    ∃ job, jobs.get? jobId = some job ∧ C.Runs schedule job

/-- What is scheduled of a job: its trigger, and whether it is paused. -/
def shown (jobs : Table String (Job τ)) (jobId : String) : Option (τ × Bool) :=
  (jobs.get? jobId).map fun job ↦ (job.trigger, job.nextRunTime = none)

/-- What a change lets the trigger say of when the job runs next is what the schedule says. -/
def TriggerAgrees (schedule : ScheduledJobConfig) : Option String → Option Bool → Prop
  | _, some false => True
  | cronExpression, some true => C.fires now (cronExpression.getD schedule.cronExpression)
  | none, none => True
  | some cron, none => C.fires now cron = schedule.enabled

/-- The live scheduler runs what the configuration says, no disabled job comes due, and a restart
schedules what was scheduled. -/
structure Sound (s : State τ) (e : Event) (t : State τ) : Prop where
  faithful : C.Faithful t
  disabled : ∀ jobs ∈ t.scheduler, ∀ jobId schedule job,
    getEffectiveSchedule t.config jobId = some schedule → schedule.enabled = false →
      jobs.get? jobId = some job → ∀ due ∈ job.nextRunTime, ∀ now, now < due
  restart : ∀ now, e = .restart now → ∃ jobs, t.scheduler = some jobs ∧
    ∀ before ∈ s.scheduler, ∀ jobId ∈ jobRegistry.keys, shown jobs jobId = shown before jobId

/-- A change that leaves the schedule as it is, in what it says. -/
def Idle (schedule : ScheduledJobConfig) (cronExpression : Option String) (enabled : Option Bool) :
    Prop :=
  C.fromCrontab (cronExpression.getD schedule.cronExpression) =
      C.fromCrontab schedule.cronExpression ∧
    enabled.getD schedule.enabled = schedule.enabled

/-- The condition on a step: while `app` has a scheduler, the other process serves no edit that
changes anything; there is no edit of the expression alone for a disabled job; and no enabled job
is scheduled by an expression that never fires. -/
def Honoured (s : State τ) : Event → Prop
  | .change served jobId cronExpression enabled now =>
    s.scheduler ≠ none → ∀ schedule, getEffectiveSchedule s.config jobId = some schedule →
      match served with
      | .app => C.TriggerAgrees now schedule cronExpression enabled
      | .appTls => C.Idle schedule cronExpression enabled
  | .restart now =>
    ∀ jobId schedule, getEffectiveSchedule s.config jobId = some schedule →
      schedule.enabled → C.fires now schedule.cronExpression

def Readable (s : State τ) : Prop :=
  ∀ jobId schedule, getEffectiveSchedule s.config jobId = some schedule →
    C.validateCronExpression schedule.cronExpression

variable {C jobs jobId now}

theorem get?_pauseJob (k : String) : (pauseJob jobs jobId).get? k =
    if k = jobId then (jobs.get? k).map fun job ↦ { job with nextRunTime := none }
    else jobs.get? k := jobs.get?_modify ..

theorem get?_rescheduleJob (trigger : τ) (k : String) :
    (C.rescheduleJob jobs jobId now trigger).get? k =
      if k = jobId then (jobs.get? k).map fun _ ↦ C.scheduled now trigger else jobs.get? k :=
  jobs.get?_modify ..

theorem get?_resumeJob (k : String) : (C.resumeJob jobs jobId now).get? k =
    if k = jobId then (jobs.get? k).bind fun job ↦
      (C.nextFireTime job.trigger now).map fun t ↦ { job with nextRunTime := some t }
    else jobs.get? k := by
  by_cases h : k = jobId
  · subst h
    rw [if_pos rfl, resumeJob]
    cases hjob : jobs.get? k with
    | none => exact hjob
    | some job =>
      rw [Option.bind_some]
      cases ht : C.nextFireTime job.trigger now with
      | none => simp only [ht, Table.get?_erase, if_pos, Option.map_none]
      | some t => simp only [ht, Table.get?_modify, if_pos, hjob, Option.map_some]
  · rw [if_neg h, resumeJob]
    split
    · rfl
    · split
      · rw [Table.get?_erase, if_neg h]
      · rw [Table.get?_modify, if_neg h]

theorem get?_applyEnabled_of_ne {k : String} (h : k ≠ jobId) (enabled : Option Bool)
    (row : ScheduledJobConfig) : (C.applyEnabled jobs jobId now enabled row).get? k = jobs.get? k := by
  cases enabled with
  | none => rfl
  | some _ =>
    rw [applyEnabled]
    split
    · rw [get?_resumeJob, if_neg h]
    · rw [get?_pauseJob, if_neg h]

theorem get?_applyLive_of_ne {k : String} (h : k ≠ jobId) (cronExpression : Option String)
    (enabled : Option Bool) (row : ScheduledJobConfig) :
    (C.applyLive jobs jobId now cronExpression enabled row).get? k = jobs.get? k := by
  unfold applyLive
  split
  · rfl
  · split
    · exact get?_applyEnabled_of_ne h enabled row
    · split
      · rfl
      · rw [get?_applyEnabled_of_ne h, get?_rescheduleJob, if_neg h]

theorem fires_eq {cron : String} {trigger : τ} (h : C.fromCrontab cron = some trigger) :
    C.fires now cron = (C.nextFireTime trigger now).isSome := by
  rw [fires, h, Option.bind_some]

theorem runs_applyEnabled {job : Job τ} {row : ScheduledJobConfig}
    (hget : jobs.get? jobId = some job) (htrigger : C.fromCrontab row.cronExpression = some job.trigger)
    (enabled : Option Bool) :
    (∃ job', (C.applyEnabled jobs jobId now enabled row).get? jobId = some job' ∧ C.Runs row job') ↔
      match enabled with
      | none => job.nextRunTime = none ↔ row.enabled = false
      | some _ => row.enabled → C.fires now row.cronExpression := by
  cases enabled with
  | none => simp only [applyEnabled, hget, Option.some.injEq, exists_eq_left', Runs, htrigger, true_and]
  | some _ =>
    simp only [applyEnabled, fires_eq htrigger]
    cases henabled : row.enabled with
    | false => simp [get?_pauseJob, hget, Runs, htrigger, henabled]
    | true =>
      cases ht : C.nextFireTime job.trigger now with
      | none => simp [get?_resumeJob, hget, ht]
      | some t => simp [get?_resumeJob, hget, ht, Runs, htrigger, henabled]

/-- A job that runs what its schedule says runs what the row of a change says exactly if the row,
where the change lets the trigger speak, agrees with it. -/
theorem runs_applyLive {job : Job τ} {old row : ScheduledJobConfig} {cronExpression : Option String}
    {enabled : Option Bool} (hget : jobs.get? jobId = some job) (hruns : C.Runs old job)
    (hcron : row.cronExpression = cronExpression.getD old.cronExpression)
    (henabled : row.enabled = enabled.getD old.enabled)
    (hvalid : ∀ c ∈ cronExpression, C.validateCronExpression c) :
    (∃ job', (C.applyLive jobs jobId now cronExpression enabled row).get? jobId = some job' ∧
      C.Runs row job') ↔
      C.TriggerAgrees now old cronExpression enabled := by
  have hsome : jobs.get? jobId ≠ none := by
    rw [hget]
    exact Option.some_ne_none job
  cases cronExpression with
  | none =>
    have htrigger : C.fromCrontab row.cronExpression = some job.trigger := hcron ▸ hruns.1
    simp only [applyLive, if_neg hsome, runs_applyEnabled hget htrigger]
    rcases enabled with - | (- | -)
    · exact iff_of_true (henabled ▸ hruns.2) trivial
    · simp [henabled, TriggerAgrees]
    · simp [henabled, hcron, TriggerAgrees]
  | some cron =>
    obtain ⟨trigger, htrigger⟩ := Option.isSome_iff_exists.mp (hvalid cron rfl)
    obtain rfl : row.cronExpression = cron := hcron
    have hget' : (C.rescheduleJob jobs jobId now trigger).get? jobId =
        some (C.scheduled now trigger) := by
      rw [get?_rescheduleJob, if_pos rfl, hget, Option.map_some]
    simp only [applyLive, if_neg hsome, htrigger, runs_applyEnabled hget' htrigger]
    rcases enabled with - | (- | -)
    · simp only [TriggerAgrees, fires_eq htrigger, scheduled, henabled, Option.getD_none]
      cases C.nextFireTime trigger now <;> cases old.enabled <;> simp
    · simp [henabled, TriggerAgrees]
    · simp [henabled, TriggerAgrees]

theorem updateScheduledJob_eq_ok {s t : State τ} {served : Process} {cronExpression : Option String}
    {enabled : Option Bool}
    (h : C.updateScheduledJob jobId now served s cronExpression enabled = .ok t) :
    C.step s (.change served jobId cronExpression enabled now) = some t := by
  rw [updateScheduledJob, ite_error_eq_ok] at h
  obtain ⟨hregistered, h⟩ := h
  split at h
  · cases h
  · next hvalid =>
    rw [ite_error_eq_ok] at h
    have hall : cronExpression.all C.validateCronExpression := by
      cases cronExpression with
      | none => rfl
      | some c => simpa using hvalid
    rw [step, if_neg (by simp [hregistered, hall])]
    split at h
    · cases h.2
    · next hsome =>
      cases h.2
      exact hsome

theorem getEffectiveSchedule_assign (config : Table String ScheduledJobConfig)
    (row : ScheduledJobConfig) (k : String) :
    getEffectiveSchedule (config.assign jobId row) k =
      if k = jobId then (getEffectiveSchedule config k).map fun _ ↦ row
      else getEffectiveSchedule config k := by
  simp only [getEffectiveSchedule, Table.get?_assign, Option.map_map]
  split <;> rfl

/-- The row of a valid change is the effective schedule with the change in it. -/
theorem upserted_eq {config : Table String ScheduledJobConfig} {schedule : ScheduledJobConfig}
    (h : getEffectiveSchedule config jobId = some schedule) {cronExpression : Option String}
    (hvalid : ∀ c ∈ cronExpression, C.validateCronExpression c) (enabled : Option Bool) :
    upserted jobId config cronExpression enabled =
      some ⟨cronExpression.getD schedule.cronExpression, enabled.getD schedule.enabled⟩ := by
  obtain ⟨defaultCron, hregistered, rfl⟩ := Option.map_eq_some_iff.mp h
  rw [upserted]
  cases hrow : config.get? jobId with
  | some row => rfl
  | none =>
    have hnonempty : cronExpression.filter (· ≠ "") = cronExpression := by
      cases cronExpression with
      | none => rfl
      | some c =>
        have hne : c ≠ "" := by
          rintro rfl
          simpa [validateCronExpression, C.empty] using hvalid "" rfl
        simp [hne]
    rw [hregistered, Option.map_some, hnonempty]
    rfl

theorem applyScheduleChange_eq_some {s t : State τ} {schedule : ScheduledJobConfig}
    {cronExpression : Option String} {enabled : Option Bool}
    (heff : getEffectiveSchedule s.config jobId = some schedule)
    (hvalid : ∀ c ∈ cronExpression, C.validateCronExpression c)
    (h : C.applyScheduleChange jobId now s cronExpression enabled = some t) :
    let row : ScheduledJobConfig :=
      ⟨cronExpression.getD schedule.cronExpression, enabled.getD schedule.enabled⟩
    t.config = s.config.assign jobId row ∧
      t.scheduler =
        s.scheduler.map fun jobs ↦ C.applyLive jobs jobId now cronExpression enabled row := by
  rw [applyScheduleChange, upserted_eq heff hvalid] at h
  simp only at h
  split_ifs at h
  obtain rfl := Option.some.inj h
  exact ⟨rfl, rfl⟩

/-- What a change writes, and what becomes of the live jobs. -/
theorem step_change {s t : State τ} {served : Process} {cronExpression : Option String}
    {enabled : Option Bool} (h : C.step s (.change served jobId cronExpression enabled now) = some t) :
    ∃ schedule row, getEffectiveSchedule s.config jobId = some schedule ∧
      row = ⟨cronExpression.getD schedule.cronExpression, enabled.getD schedule.enabled⟩ ∧
      (∀ c ∈ cronExpression, C.validateCronExpression c) ∧
      t.config = s.config.assign jobId row ∧
      t.scheduler = match served with
        | .app => s.scheduler.map fun jobs ↦ C.applyLive jobs jobId now cronExpression enabled row
        | .appTls => s.scheduler := by
  rw [step] at h
  split at h
  · cases h
  · next hguard =>
    obtain ⟨hregistered, hall⟩ := not_or.mp hguard
    have hvalid : ∀ c ∈ cronExpression, C.validateCronExpression c := by
      rintro c ⟨⟩
      simpa using hall
    obtain ⟨defaultCron, hdefault⟩ := Option.ne_none_iff_exists'.mp hregistered
    have heff : getEffectiveSchedule s.config jobId =
        some ((s.config.get? jobId).getD ⟨defaultCron, true⟩) := by
      rw [getEffectiveSchedule, hdefault, Option.map_some]
    refine ⟨_, _, heff, rfl, hvalid, ?_⟩
    cases served with
    | app => exact applyScheduleChange_eq_some heff hvalid h
    | appTls =>
      obtain ⟨u, hu, rfl⟩ := Option.map_eq_some_iff.mp h
      have hwritten := applyScheduleChange_eq_some (s := { s with scheduler := none }) heff hvalid hu
      exact ⟨hwritten.1, rfl⟩

theorem readable_step {s t : State τ} (hs : C.Readable s) {e : Event} (h : C.step s e = some t) :
    C.Readable t := by
  intro k schedule hk
  cases e with
  | restart now =>
    cases h
    exact hs k schedule hk
  | change served jobId cronExpression enabled now =>
    obtain ⟨old, row, hold, rfl, hvalid, hconfig, -⟩ := step_change h
    rw [hconfig, getEffectiveSchedule_assign] at hk
    split at hk
    · next he =>
      rw [he, hold, Option.map_some, Option.some.injEq] at hk
      subst hk
      cases cronExpression with
      | none => exact hs jobId old hold
      | some c => exact hvalid c rfl
    · exact hs k schedule hk

variable (C now) in
/-- The job that a fresh scheduler is given. -/
def freshJob (config : Table String ScheduledJobConfig) (jobId : String) : Option (Job τ) := do
  let schedule ← getEffectiveSchedule config jobId
  let trigger ← C.fromCrontab schedule.cronExpression
  pure ⟨trigger, if schedule.enabled then C.nextFireTime trigger now else none⟩

theorem addEffective_eq_some {config : Table String ScheduledJobConfig}
    {jobs' : Table String (Job τ)} (h : C.addEffective now config jobs jobId = some jobs') :
    C.freshJob now config jobId = jobs'.get? jobId ∧
      ∀ k, k ≠ jobId → jobs'.get? k = jobs.get? k := by
  obtain ⟨schedule, hschedule, h⟩ := Option.bind_eq_some_iff.mp h
  obtain ⟨trigger, htrigger, h⟩ := Option.bind_eq_some_iff.mp h
  obtain rfl := Option.some.inj h
  have hfresh : C.freshJob now config jobId =
      some ⟨trigger, if schedule.enabled then C.nextFireTime trigger now else none⟩ := by
    simp only [freshJob, hschedule, htrigger, Option.bind_eq_bind, Option.bind_some, Option.pure_def]
  rw [hfresh]
  split
  · next henabled =>
    exact ⟨by rw [addJob, Table.get?_assign, if_pos rfl, scheduled],
      fun k hk ↦ by rw [addJob, Table.get?_assign, if_neg hk]⟩
  · next henabled =>
    constructor
    · rw [get?_pauseJob, if_pos rfl, addJob, Table.get?_assign, if_pos rfl, Option.map_some, scheduled]
    · intro k hk
      rw [get?_pauseJob, if_neg hk, addJob, Table.get?_assign, if_neg hk]

theorem get?_of_foldlM {config : Table String ScheduledJobConfig} {ks : List String}
    {jobs' : Table String (Job τ)} (h : ks.foldlM (C.addEffective now config) jobs = some jobs')
    (k : String) :
    jobs'.get? k = if k ∈ ks then C.freshJob now config k else jobs.get? k := by
  induction ks generalizing jobs with
  | nil =>
    cases h
    rfl
  | cons k₀ ks ih =>
    obtain ⟨jobs₁, h₁, hrest⟩ := Option.bind_eq_some_iff.mp h
    obtain ⟨hself, hother⟩ := addEffective_eq_some h₁
    rw [ih hrest]
    by_cases hk : k = k₀
    · subst hk
      simp [hself]
    · simp [hk, hother k hk]

theorem exists_foldlM {config : Table String ScheduledJobConfig} {ks : List String}
    (h : ∀ k ∈ ks, (C.freshJob now config k).isSome) (jobs : Table String (Job τ)) :
    ∃ jobs', ks.foldlM (C.addEffective now config) jobs = some jobs' := by
  induction ks generalizing jobs with
  | nil => exact ⟨jobs, rfl⟩
  | cons k₀ ks ih =>
    obtain ⟨hk, hks⟩ := List.forall_mem_cons.mp h
    obtain ⟨job, hjob⟩ := Option.isSome_iff_exists.mp hk
    obtain ⟨schedule, hschedule, hjob⟩ := Option.bind_eq_some_iff.mp hjob
    obtain ⟨trigger, htrigger, -⟩ := Option.bind_eq_some_iff.mp hjob
    obtain ⟨jobs₁, h₁⟩ : ∃ jobs₁, C.addEffective now config jobs k₀ = some jobs₁ := by
      simp [addEffective, hschedule, htrigger]
    obtain ⟨jobs', h'⟩ := ih hks jobs₁
    exact ⟨jobs', Option.bind_eq_some_iff.mpr ⟨jobs₁, h₁, h'⟩⟩

theorem mem_keys_of_effective {config : Table String ScheduledJobConfig} {schedule : ScheduledJobConfig}
    (h : getEffectiveSchedule config jobId = some schedule) : jobId ∈ jobRegistry.keys := by
  by_contra hout
  rw [getEffectiveSchedule, jobRegistry.get?_eq_none.mpr hout] at h
  cases h

/-- The process that starts finds every expression readable. -/
theorem exists_buildScheduler {s : State τ} (hs : C.Readable s) (now : ℤ) :
    ∃ jobs, C.buildScheduler now s.config = some jobs ∧
      ∀ jobId ∈ jobRegistry.keys, jobs.get? jobId = C.freshJob now s.config jobId := by
  have hfresh : ∀ k ∈ jobRegistry.keys, (C.freshJob now s.config k).isSome := by
    intro k hk
    obtain ⟨defaultCron, hdefault⟩ := Option.ne_none_iff_exists'.mp fun hnone ↦
      jobRegistry.get?_eq_none.mp hnone hk
    have heff : getEffectiveSchedule s.config k =
        some ((s.config.get? k).getD ⟨defaultCron, true⟩) := by
      rw [getEffectiveSchedule, hdefault, Option.map_some]
    obtain ⟨trigger, htrigger⟩ := Option.isSome_iff_exists.mp (hs k _ heff)
    simp [freshJob, heff, htrigger]
  obtain ⟨jobs, hjobs⟩ := exists_foldlM hfresh .empty
  exact ⟨jobs, hjobs, fun k hk ↦ (get?_of_foldlM hjobs k).trans (if_pos hk)⟩

theorem runs_freshJob {config : Table String ScheduledJobConfig} {schedule : ScheduledJobConfig}
    (h : getEffectiveSchedule config jobId = some schedule)
    (hread : C.validateCronExpression schedule.cronExpression) :
    (∃ job, C.freshJob now config jobId = some job ∧ C.Runs schedule job) ↔
      (schedule.enabled → C.fires now schedule.cronExpression) := by
  obtain ⟨trigger, htrigger⟩ := Option.isSome_iff_exists.mp hread
  simp only [freshJob, h, htrigger, Option.bind_eq_bind, Option.bind_some, Option.pure_def,
    Option.some.injEq, exists_eq_left', Runs, true_and, fires_eq htrigger]
  cases schedule.enabled <;> cases C.nextFireTime trigger now <;> simp

theorem faithful_restart_iff {s t : State τ} (hs : C.Readable s)
    (h : C.step s (.restart now) = some t) :
    C.Faithful t ↔ ∀ jobId schedule, getEffectiveSchedule s.config jobId = some schedule →
      schedule.enabled → C.fires now schedule.cronExpression := by
  obtain ⟨jobs, hjobs, hget⟩ := exists_buildScheduler hs now
  obtain rfl := Option.some.inj h
  have hrow {jobId : String} {schedule : ScheduledJobConfig}
      (heff : getEffectiveSchedule s.config jobId = some schedule) :
      (∃ job, jobs.get? jobId = some job ∧ C.Runs schedule job) ↔
        (schedule.enabled → C.fires now schedule.cronExpression) := by
    rw [hget jobId (mem_keys_of_effective heff)]
    exact runs_freshJob heff (hs jobId schedule heff)
  constructor
  · exact fun hfaithful jobId schedule heff ↦ (hrow heff).mp (hfaithful jobs hjobs jobId schedule heff)
  · intro hall jobs' hjobs' jobId schedule heff
    obtain rfl := Option.some.inj (hjobs.symm.trans hjobs')
    exact (hrow heff).mpr (hall jobId schedule heff)

theorem runs_iff_idle {job : Job τ} {schedule : ScheduledJobConfig} (hruns : C.Runs schedule job)
    (cronExpression : Option String) (enabled : Option Bool) :
    C.Runs ⟨cronExpression.getD schedule.cronExpression, enabled.getD schedule.enabled⟩ job ↔
      C.Idle schedule cronExpression enabled := by
  rw [Runs, Idle, hruns.1, hruns.2]
  cases enabled.getD schedule.enabled <;> cases schedule.enabled <;> simp

theorem faithful_change_iff {s t : State τ} (hs : C.Faithful s) {served : Process}
    {cronExpression : Option String} {enabled : Option Bool}
    (h : C.step s (.change served jobId cronExpression enabled now) = some t) :
    C.Faithful t ↔ C.Honoured s (.change served jobId cronExpression enabled now) := by
  obtain ⟨schedule, row, heff, rfl, hvalid, hconfig, hscheduler⟩ := step_change h
  have hrow : getEffectiveSchedule t.config jobId =
      some ⟨cronExpression.getD schedule.cronExpression, enabled.getD schedule.enabled⟩ := by
    rw [hconfig, getEffectiveSchedule_assign, if_pos rfl, heff, Option.map_some]
  simp only [Honoured, heff, Option.some.injEq, forall_eq']
  cases hjobs : s.scheduler with
  | none =>
    have hnone : t.scheduler = none := by
      rw [hscheduler, hjobs]
      cases served <;> rfl
    refine iff_of_true (fun jobs hmem ↦ ?_) fun hne ↦ absurd rfl hne
    rw [hnone] at hmem
    cases hmem
  | some jobs =>
    obtain ⟨job, hget, hruns⟩ := hs jobs hjobs jobId schedule heff
    -- the other jobs are as they were
    have hself (jobs' : Table String (Job τ)) (hlive : t.scheduler = some jobs')
        (hother : ∀ k, k ≠ jobId → jobs'.get? k = jobs.get? k) : C.Faithful t ↔
          ∃ job', jobs'.get? jobId = some job' ∧
            C.Runs ⟨cronExpression.getD schedule.cronExpression, enabled.getD schedule.enabled⟩
              job' := by
      constructor
      · exact fun hall ↦ hall jobs' hlive jobId _ hrow
      · intro hjob jobs'' hjobs'' k schedule' hk
        obtain rfl := Option.some.inj (hlive.symm.trans hjobs'')
        by_cases he : k = jobId
        · rw [he, hrow, Option.some.injEq] at hk
          rw [he, ← hk]
          exact hjob
        · rw [hconfig, getEffectiveSchedule_assign, if_neg he] at hk
          rw [hother k he]
          exact hs jobs hjobs k schedule' hk
    simp only [ne_eq, reduceCtorEq, not_false_eq_true, true_imp_iff]
    rw [hjobs] at hscheduler
    cases served with
    | app =>
      rw [hself _ hscheduler fun k hk ↦ get?_applyLive_of_ne hk ..]
      exact runs_applyLive hget hruns rfl rfl hvalid
    | appTls =>
      rw [hself jobs hscheduler fun _ _ ↦ rfl]
      simp only [hget, Option.some.injEq, exists_eq_left']
      exact runs_iff_idle hruns cronExpression enabled

theorem shown_of_runs {jobs : Table String (Job τ)} {schedule : ScheduledJobConfig}
    (h : ∃ job, jobs.get? jobId = some job ∧ C.Runs schedule job) :
    shown jobs jobId =
      (C.fromCrontab schedule.cronExpression).map fun trigger ↦ (trigger, ! schedule.enabled) := by
  obtain ⟨job, hget, htrigger, hpaused⟩ := h
  rw [shown, hget, Option.map_some, htrigger, Option.map_some]
  congr 2
  cases henabled : schedule.enabled <;> simp [hpaused, henabled]

theorem sound_of_faithful {s t : State τ} (hread : C.Readable s) (hs : C.Faithful s)
    (ht : C.Faithful t) {e : Event} (h : C.step s e = some t) : C.Sound s e t where
  faithful := ht
  disabled jobs hjobs jobId schedule job heff hdisabled hget due hdue := by
    obtain ⟨job', hget', -, hpaused⟩ := ht jobs hjobs jobId schedule heff
    obtain rfl := Option.some.inj (hget.symm.trans hget')
    rw [hpaused.mpr hdisabled] at hdue
    cases hdue
  restart now he := by
    subst he
    obtain ⟨jobs, hjobs, -⟩ := exists_buildScheduler hread now
    obtain rfl := Option.some.inj h
    refine ⟨jobs, hjobs, fun before hbefore jobId hkey ↦ ?_⟩
    obtain ⟨defaultCron, hdefault⟩ := Option.ne_none_iff_exists'.mp fun hnone ↦
      jobRegistry.get?_eq_none.mp hnone hkey
    have heff : getEffectiveSchedule s.config jobId =
        some ((s.config.get? jobId).getD ⟨defaultCron, true⟩) := by
      rw [getEffectiveSchedule, hdefault, Option.map_some]
    rw [shown_of_runs (ht jobs hjobs jobId _ heff), shown_of_runs (hs before hbefore jobId _ heff)]

/-- Before the first process there is neither an override nor a scheduler. -/
def init : State τ := ⟨.empty, none⟩

theorem readable_init : C.Readable (init : State τ) := by
  intro jobId schedule h
  obtain ⟨defaultCron, hdefault, rfl⟩ := Option.map_eq_some_iff.mp h
  exact C.defaults (jobId, defaultCron) (jobRegistry.get?_eq_some.mp hdefault)

/-- The live scheduler runs what the configuration says all along exactly if every step meets the
condition. -/
theorem sound_along_iff (C : CronTrigger τ) (events : List Event) :
    Along C.step (fun s e t ↦ C.Sound s e t) init events ↔
      Along C.step (fun s e _ ↦ C.Honoured s e) init events := by
  have hinit : C.Faithful (init : State τ) := fun jobs hjobs ↦ by cases hjobs
  have hfaithful : Along C.step (fun _ _ t ↦ C.Faithful t) init events ↔
      Along C.step (fun s e _ ↦ C.Honoured s e) init events := by
    refine along_state_iff_of_invariant (fun s e t hs ↦ readable_step hs)
      (fun s e t hread hs h ↦ ?_) readable_init hinit
    cases e with
    | change served jobId cronExpression enabled now => exact faithful_change_iff hs h
    | restart now => exact faithful_restart_iff hread h
  rw [← hfaithful]
  constructor
  · exact Along.imp fun s e t _ hsound ↦ hsound.faithful
  · refine along_of_invariant (fun s e t (hs : C.Readable s ∧ C.Faithful s) ht h ↦ ?_)
      ⟨readable_init, hinit⟩
    exact ⟨⟨readable_step hs.1 h, ht⟩, sound_of_faithful hs.1 hs.2 ht h⟩

/-- A parser of the registry's expressions and of `0 4 * * *`, each due at four o'clock, in seconds
from a midnight. -/
def daily : CronTrigger String where
  fromCrontab cron := if cron = "0 4 * * *" ∨ cron ∈ jobRegistry.values then some cron else none
  nextFireTime _ now := some (((now - 14400) / 86400 + 1) * 86400 + 14400)
  empty := by decide +kernel
  defaults := by decide +kernel

def disableThenEdit : List Event :=
  [.restart 0, .change .app "scheduler_data_lake_backup" none (some false) 60,
   .change .app "scheduler_data_lake_backup" (some "0 4 * * *") none 120]

/-- A new expression wakes a job that stays disabled. -/
theorem not_sound_disableThenEdit :
    ¬ Along daily.step (fun s e t ↦ daily.Sound s e t) init disableThenEdit := by
  intro h
  have hsome : (exec daily.step init disableThenEdit).isSome := by decide +kernel
  obtain ⟨t, ht⟩ := Option.isSome_iff_exists.mp hsome
  obtain ⟨s, hsound⟩ := @Along.last _ _ _ _ _ _ (disableThenEdit.take 2) _ h (exec_eq_some.mp ht)
  have hbackup : (exec daily.step init disableThenEdit).all fun t ↦
      getEffectiveSchedule t.config "scheduler_data_lake_backup" = some ⟨"0 4 * * *", false⟩ ∧
        t.scheduler.any fun jobs ↦
          jobs.get? "scheduler_data_lake_backup" = some ⟨"0 4 * * *", some 14400⟩ := by decide +kernel
  rw [ht, Option.all_some, decide_eq_true_eq, Option.any_eq_true] at hbackup
  obtain ⟨heff, jobs, hjobs, hget⟩ := hbackup
  obtain ⟨job, hjob, -, hpaused⟩ := hsound.faithful jobs hjobs _ _ heff
  obtain rfl := Option.some.inj (hjob.symm.trans (of_decide_eq_true hget))
  cases hpaused.mpr rfl

end CronTrigger

end TradingOS.Agents.ScheduledJobs
