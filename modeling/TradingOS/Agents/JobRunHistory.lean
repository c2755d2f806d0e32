import TradingOS.Agents.JobRuns

namespace TradingOS.Agents.JobRuns

open Lib Lib.Runs Control ScheduledJobs

/-- The row is still of the same run, and of the same result once there was one. -/
structure ScheduledJobRun.Continues (row row' : ScheduledJobRun) : Prop where
  job : row'.jobId = row.jobId
  source : row'.triggerSource = row.triggerSource
  started : row'.startedAt = row.startedAt
  user : row'.triggeredByUserId = row.triggeredByUserId
  ended : row.status ≠ .running → row' = row

namespace ScheduledJobRun.Continues

variable {row row' row'' : ScheduledJobRun}

theorem refl (row : ScheduledJobRun) : row.Continues row := ⟨rfl, rfl, rfl, rfl, fun _ ↦ rfl⟩

theorem trans (h : row.Continues row') (h' : row'.Continues row'') : row.Continues row'' where
  job := h'.job.trans h.job
  source := h'.source.trans h.source
  started := h'.started.trans h.started
  user := h'.user.trans h.user
  ended := by
    intro hended
    obtain rfl := h.ended hended
    exact h'.ended hended

end ScheduledJobRun.Continues

namespace State

variable {s t : State} {id : ℕ} {row : ScheduledJobRun}

/-- No step takes a row away, and only the end of its firing changes one. -/
theorem step_rows {e : Event} (hstep : s.step e = some t) :
    t.rows = s.rows ∨ (∃ new : ScheduledJobRun, new.status = .running ∧ t.rows = s.rows ++ [new]) ∨
      ∃ id jobId result, s.firings.get? id = some ⟨jobId, .concluded result⟩ ∧
        t.rows = s.rows.modify id fun row ↦ row.finish s.clock result := by
  cases e with
  | tick | buildScheduler | restart =>
    cases hstep
    exact .inl rfl
  | setAgentEnabled =>
    rw [step] at hstep
    split at hstep <;> cases hstep <;> exact .inl rfl
  | cronFire jobId inserted =>
    rw [step] at hstep
    split at hstep <;> cases hstep
    cases inserted with
    | true => exact .inr (.inl ⟨_, rfl, rfl⟩)
    | false => exact .inl rfl
  | runNow =>
    rw [step] at hstep
    split at hstep <;> cases hstep
    · exact .inr (.inl ⟨_, rfl, rfl⟩)
    · exact .inl rfl
  | manualFire | misfire | call | report =>
    rw [step] at hstep
    split at hstep <;> cases hstep
    exact .inl rfl
  | gate id raises =>
    rw [step] at hstep
    split at hstep <;> cases hstep
    cases raises with
    | some exc => exact .inl rfl
    | none =>
      rw [readGate]
      split <;> exact .inl rfl
  | finish id written =>
    rw [step] at hstep
    split at hstep <;> cases hstep
    next jobId result hid =>
    cases written with
    | true => exact .inr (.inr ⟨id, jobId, result, hid, rfl⟩)
    | false => exact .inl rfl

theorem continues_of_step (h : s.Sound) {e : Event} (hstep : s.step e = some t)
    (hrow : s.rows[id]? = some row) : ∃ row', t.rows[id]? = some row' ∧ row.Continues row' := by
  rcases step_rows hstep with hrows | ⟨new, -, hrows⟩ | ⟨j, jobId, result, hj, hrows⟩
  · exact ⟨row, hrows ▸ hrow, .refl row⟩
  · have hlt := (List.getElem?_eq_some_iff.mp hrow).1
    exact ⟨row, by rw [hrows, List.getElem?_append_left hlt, hrow], .refl row⟩
  · rw [hrows, List.getElem?_modify, hrow]
    refine ⟨_, rfl, ?_⟩
    dsimp only
    split
    · next he =>
      have hrunning : row.status = .running := (h.running id row hrow).mpr (.inl (by simp [← he, hj]))
      exact ⟨rfl, rfl, rfl, rfl, fun hended ↦ absurd hrunning hended⟩
    · exact .refl row

theorem continues_of_run (h : s.Sound) {events : List Event} (hrun : Run step s events t)
    (hrow : s.rows[id]? = some row) : ∃ row', t.rows[id]? = some row' ∧ row.Continues row' := by
  induction hrun generalizing row with
  | nil => exact ⟨row, hrow, .refl row⟩
  | cons hstep _ ih =>
    obtain ⟨row', hrow', hcontinues⟩ := continues_of_step h hstep hrow
    obtain ⟨row'', hrow'', hcontinues'⟩ := ih (h.step hstep) hrow'
    exact ⟨row'', hrow'', hcontinues.trans hcontinues'⟩

/-- What the ledger says of a run stays, and of an ended run for good. -/
theorem history_final {control : ControlTable} {earlier later : List Event}
    (hearlier : Run step (init control) earlier s) (hlater : Run step s later t)
    (hrow : s.rows[id]? = some row) : ∃ row', t.rows[id]? = some row' ∧ row.Continues row' :=
  continues_of_run (sound_of_run hearlier) hlater hrow

/-- The next night: the archive is run once more, and its end is recorded. -/
def nextNight : List Event :=
  [.buildScheduler, .tick 86400, .cronFire "scheduler_audit_archive" true, .gate 2 none, .call 2,
    .report 2 (.ok ⟨.completed, "0 row(s) archived, 0 failure(s)"⟩), .finish 2 true]

/-- The archive run of the first night, after the next. -/
theorem history_final_nextNight : ∃ (s t : State) (row : ScheduledJobRun),
    Run step (init .empty) oneNight s ∧ Run step s nextNight t ∧ s.rows[1]? = some row ∧
      ∃ row', t.rows[1]? = some row' ∧ row.Continues row' := by
  have hearlier : (exec step (init .empty) oneNight).isSome := by decide +kernel
  obtain ⟨s, hs⟩ := Option.isSome_iff_exists.mp hearlier
  have hlater : ((exec step (init .empty) oneNight).bind (exec step · nextNight)).isSome := by
    decide +kernel
  rw [hs, Option.bind_some] at hlater
  obtain ⟨t, ht⟩ := Option.isSome_iff_exists.mp hlater
  have hrow : ((exec step (init .empty) oneNight).bind (·.rows[1]?)).isSome := by decide +kernel
  rw [hs, Option.bind_some] at hrow
  obtain ⟨row, hrow⟩ := Option.isSome_iff_exists.mp hrow
  exact ⟨s, t, row, exec_eq_some.mp hs, exec_eq_some.mp ht, hrow,
    history_final (exec_eq_some.mp hs) (exec_eq_some.mp ht) hrow⟩

section Halted

/-- What a firing comes to that the gate stops. -/
def Refused (result : JobResult) : Prop := result = schedulerDisabled ∨ ∃ exc, result = unhandled exc

/-- The firing has been past the gate already. -/
def Passed (s₀ : State) (id : ℕ) : Prop := ∃ f, s₀.firings.get? id = some f ∧ f.stage ≠ .started

/-- The gate has let the firing through, and its job's function is not called yet. -/
def Admitted (s₀ : State) (id : ℕ) : Prop := ∃ f, s₀.firings.get? id = some f ∧ f.stage = .admitted

theorem Admitted.passed {s₀ : State} (h : Admitted s₀ id) : Passed s₀ id := by
  obtain ⟨f, hf, hstage⟩ := h
  exact ⟨f, hf, by simp [hstage]⟩

/-- How far a firing can be since the first state: not past the gate, or as it was then. -/
def Barred (s₀ : State) (id : ℕ) : Stage → Prop
  | .started => True
  | .admitted => Admitted s₀ id
  | .executing => Passed s₀ id
  | .concluded result => Refused result ∨ Passed s₀ id

/-- Since the first state, the gate has been shut: functions have been called only for firings that
it had let through before, and what else has ended was refused. -/
structure Halted (s₀ s : State) : Prop where
  disabled : isAgentEnabled s.control schedulerAgent = false
  executions : ∃ calls, s.executions = s₀.executions ++ calls ∧ ∀ c ∈ calls, Admitted s₀ c.1
  stages : ∀ id f, s.firings.get? id = some f → Barred s₀ id f.stage
  rows : ∀ (id : ℕ) (row : ScheduledJobRun), s.rows[id]? = some row → row.status ≠ .running →
    s₀.rows[id]? = some row ∨ Passed s₀ id ∨
      ∃ (base : ScheduledJobRun) (now : ℕ) (result : JobResult), Refused result ∧ row = base.finish now result

/-- The scheduler agent is switched on. -/
def Event.Enables : Event → Prop
  | .setAgentEnabled agentName enabled _ => agentName = schedulerAgent ∧ enabled = true
  | _ => False

variable {s₀ : State}

theorem stages_put {f : Firing} (h : Halted s₀ s) (hstage : Barred s₀ id f.stage) :
    ∀ j g, (s.firings.put id f).get? j = some g → Barred s₀ j g.stage := by
  intro j g hj
  rw [Table.get?_put] at hj
  split at hj
  · next he =>
    obtain rfl := Option.some.inj hj
    exact he ▸ hstage
  · exact h.stages j g hj

theorem stages_erase (h : Halted s₀ s) (id : ℕ) :
    ∀ j f, (s.firings.erase id).get? j = some f → Barred s₀ j f.stage := by
  intro j f hj
  exact h.stages j f (s.firings.get?_erase_eq_some.mp hj).2

theorem Halted.snoc (h : Halted s₀ s) {new : ScheduledJobRun} (hnew : new.status = .running) (id : ℕ)
    (row : ScheduledJobRun) (hrow : (s.rows ++ [new])[id]? = some row) (hended : row.status ≠ .running) :
    s₀.rows[id]? = some row ∨ Passed s₀ id ∨
      ∃ (base : ScheduledJobRun) (now : ℕ) (result : JobResult), Refused result ∧ row = base.finish now result := by
  rcases getElem?_snoc hrow with hrow | ⟨-, rfl⟩
  · exact h.rows id row hrow hended
  · exact absurd hnew hended

theorem Halted.finish (h : Halted s₀ s) {jobId : String} {result : JobResult}
    (hid : s.firings.get? id = some ⟨jobId, .concluded result⟩) (written : Bool) :
    Halted s₀ (s.finishRun id result written) := by
  have hbarred : Refused result ∨ Passed s₀ id := h.stages id _ hid
  cases written with
  | false => exact ⟨h.disabled, h.executions, stages_erase h id, h.rows⟩
  | true =>
    refine ⟨h.disabled, h.executions, stages_erase h id, fun j row hrow hended ↦ ?_⟩
    rw [finishRun, List.getElem?_modify] at hrow
    obtain ⟨base, hbase, rfl⟩ := Option.map_eq_some_iff.mp hrow
    split at hended
    · next he =>
      rw [if_pos he]
      rcases hbarred with hrefused | hpassed
      · exact .inr (.inr ⟨base, s.clock, result, hrefused, rfl⟩)
      · exact .inr (.inl (he ▸ hpassed))
    · next hne =>
      rw [if_neg hne]
      exact h.rows j base hbase hended

theorem Halted.step (h : Halted s₀ s) {e : Event} (he : ¬ Event.Enables e) (hstep : s.step e = some t) :
    Halted s₀ t := by
  cases e with
  | tick | buildScheduler =>
    cases hstep
    exact ⟨h.disabled, h.executions, h.stages, h.rows⟩
  | setAgentEnabled agentName enabled reason =>
    rw [State.step] at hstep
    split at hstep <;> cases hstep
    · next hset =>
      refine ⟨?_, h.executions, h.stages, h.rows⟩
      rw [isAgentEnabled_setAgentEnabled hset]
      split
      · next hname => exact Bool.eq_false_iff.mpr fun hon ↦ he ⟨hname.symm, hon⟩
      · exact h.disabled
    · exact h
  | cronFire jobId inserted =>
    rw [State.step] at hstep
    split at hstep <;> cases hstep
    cases inserted with
    | true => exact ⟨h.disabled, h.executions, stages_put h trivial, h.snoc rfl⟩
    | false => exact h
  | runNow jobId userId inserted =>
    rw [State.step] at hstep
    split at hstep <;> cases hstep
    · exact ⟨h.disabled, h.executions, h.stages, h.snoc rfl⟩
    · exact h
  | manualFire id =>
    rw [State.step] at hstep
    split at hstep <;> cases hstep
    exact ⟨h.disabled, h.executions, stages_put h trivial, h.rows⟩
  | misfire id =>
    rw [State.step] at hstep
    split at hstep <;> cases hstep
    exact ⟨h.disabled, h.executions, h.stages, h.rows⟩
  | gate id raises =>
    rw [State.step] at hstep
    split at hstep <;> cases hstep
    cases raises with
    | some exc =>
      exact ⟨h.disabled, h.executions, stages_put h (.inl (.inr ⟨exc, rfl⟩)), h.rows⟩
    | none =>
      rw [readGate, h.disabled]
      exact ⟨h.disabled, h.executions, stages_put h (.inl (.inl rfl)), h.rows⟩
  | call id =>
    rw [State.step] at hstep
    split at hstep <;> cases hstep
    next jobId hid =>
    have hadmitted : Admitted s₀ id := h.stages id _ hid
    obtain ⟨calls, hcalls, hall⟩ := h.executions
    refine ⟨h.disabled, ⟨calls ++ [(id, jobId)], ?_, ?_⟩, stages_put h hadmitted.passed, h.rows⟩
    · rw [callJob, hcalls, List.append_assoc]
    · exact List.forall_mem_append.mpr ⟨hall, List.forall_mem_singleton.mpr hadmitted⟩
  | report id outcome =>
    rw [State.step] at hstep
    split at hstep <;> cases hstep
    next hid =>
    have hpassed : Passed s₀ id := h.stages id _ hid
    exact ⟨h.disabled, h.executions, stages_put h (.inr hpassed), h.rows⟩
  | finish id written =>
    rw [State.step] at hstep
    split at hstep <;> cases hstep
    next hid => exact h.finish hid written
  | restart =>
    cases hstep
    exact ⟨h.disabled, h.executions, fun j f hj ↦ (by cases hj), h.rows⟩

theorem Halted.run (h : Halted s₀ s) {events : List Event} (hrun : Run State.step s events t)
    (hevents : ∀ e ∈ events, ¬ Event.Enables e) : Halted s₀ t := by
  induction hrun with
  | nil => exact h
  | cons hstep _ ih =>
    obtain ⟨he, hevents⟩ := List.forall_mem_cons.mp hevents
    exact ih (h.step he hstep) hevents

/-- As the scheduler agent is switched off, every firing stands where it does. -/
theorem barred_self {id : ℕ} {f : Firing} (hid : s₀.firings.get? id = some f) :
    Barred s₀ id f.stage := by
  obtain ⟨jobId, stage⟩ := f
  cases stage with
  | started => trivial
  | admitted => exact ⟨_, hid, rfl⟩
  | executing => exact ⟨_, hid, by simp⟩
  | concluded result => exact .inr ⟨_, hid, by simp⟩

/-- While the scheduler agent is off, whatever fires, a job's function is called only for a firing
that the gate had let through before, and a run that ends without having been past the gate by then
is recorded as refused. -/
theorem halted_of_disabled {events : List Event} (hrun : Run State.step s₀ events t)
    (hdisabled : isAgentEnabled s₀.control schedulerAgent = false)
    (hevents : ∀ e ∈ events, ¬ Event.Enables e) : Halted s₀ t := by
  have hstart : Halted s₀ s₀ :=
    { disabled := hdisabled
      executions := ⟨[], (List.append_nil _).symm, List.forall_mem_nil _⟩
      stages := fun id f hid ↦ barred_self hid
      rows := fun id row hrow _ ↦ .inl hrow }
  exact hstart.run hrun hevents

/-- A live scheduler whose agent is switched off while an archive run stands before its call. -/
def switchedOff : State where
  clock := 0
  control := ⟨[(schedulerAgent, ⟨false, some "maintenance"⟩)], List.nodup_singleton _⟩
  rows := [{ jobId := "scheduler_audit_archive", triggerSource := .cron, startedAt := 0 }]
  live := true
  pending := .empty
  firings := ⟨[(0, ⟨"scheduler_audit_archive", .admitted⟩)], List.nodup_singleton _⟩
  lost := []
  executions := []

/-- The run that was let through is called; the one that comes after is refused. -/
def overtaken : List Event :=
  [.cronFire "scheduler_data_lake_backup" true, .call 0, .gate 1 none, .finish 1 true]

theorem halted_of_disabled_overtaken :
    ∃ t, Run State.step switchedOff overtaken t ∧ Halted switchedOff t := by
  have hruns : (exec State.step switchedOff overtaken).isSome := by decide +kernel
  obtain ⟨t, ht⟩ := Option.isSome_iff_exists.mp hruns
  have hrun := exec_eq_some.mp ht
  refine ⟨t, hrun, halted_of_disabled hrun (by decide) ?_⟩
  intro e he
  simp only [overtaken, List.mem_cons, List.not_mem_nil, or_false] at he
  rcases he with rfl | rfl | rfl | rfl <;> exact id

end Halted

end State

end TradingOS.Agents.JobRuns
