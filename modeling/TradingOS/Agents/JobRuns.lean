import TradingOS.Agents.Control
import TradingOS.Agents.ScheduledJobs

namespace TradingOS.Agents.JobRuns

open Lib Lib.Runs Control ScheduledJobs

inductive TriggerSource
  | cron | manual
  deriving DecidableEq

inductive ResultStatus
  | completed | failed | skipped
  deriving DecidableEq

inductive RunStatus
  | running
  | ended (status : ResultStatus)
  deriving DecidableEq

structure JobResult where
  status : ResultStatus
  summary : String
  deriving DecidableEq

def schedulerDisabled : JobResult := ⟨.skipped, "scheduler_agent disabled"⟩

def unhandled (exc : String) : JobResult := ⟨.failed, s!"unhandled exception: {exc}"⟩

structure ScheduledJobRun where
  jobId : String
  triggerSource : TriggerSource
  status : RunStatus := .running
  startedAt : ℕ
  endedAt : Option ℕ := none
  resultSummary : Option String := none
  triggeredByUserId : Option ℕ := none
  deriving DecidableEq

def summaryLength : ℕ := 4000

/-- The row as `_finish_run` leaves it. -/
def ScheduledJobRun.finish (row : ScheduledJobRun) (now : ℕ) (result : JobResult) : ScheduledJobRun :=
  { row with
    status := .ended result.status
    endedAt := some now
    resultSummary := some (String.ofList (result.summary.toList.take summaryLength)) }

/-- Where a firing stands in `_tracked`: before the gate, let through by it, in the job's function, or
past it. -/
inductive Stage
  | started
  | admitted
  | executing
  | concluded (result : JobResult)
  deriving DecidableEq

/-- The job's function has still to be called, if it ever is. -/
def Stage.IsEarly (stage : Stage) : Prop := stage = .started ∨ stage = .admitted

/-- A firing wraps the function of its job. -/
structure Firing where
  jobId : String
  stage : Stage
  deriving DecidableEq

/-- The rows of the ledger by their ids, the process with its scheduler, the Run Now jobs it holds
and the firings under way. What no process will go on with and which functions have been called is
not kept anywhere. -/
structure State where
  clock : ℕ
  control : ControlTable
  rows : List ScheduledJobRun
  live : Bool
  pending : Table ℕ String
  firings : Table ℕ Firing
  lost : List ℕ
  executions : List (ℕ × String)

/-- A write to the ledger or a read of the gate can raise, and so can a job. -/
inductive Event
  | tick (seconds : ℕ)
  | setAgentEnabled (agentName : String) (enabled : Bool) (reason : Option String)
  | buildScheduler
  | cronFire (jobId : String) (inserted : Bool)
  | runNow (jobId : String) (userId : ℕ) (inserted : Bool)
  | manualFire (id : ℕ)
  | misfire (id : ℕ)
  | gate (id : ℕ) (raises : Option String)
  | call (id : ℕ)
  | report (id : ℕ) (outcome : Except String JobResult)
  | finish (id : ℕ) (written : Bool)
  | restart

def schedulerAgent : String := "scheduler_agent"

namespace State

def init (control : ControlTable) : State := ⟨0, control, [], false, .empty, .empty, [], []⟩

variable (s : State)

/-- `_start_run` from a cron trigger. -/
def beginCron (jobId : String) : State :=
  { s with
    rows := s.rows ++ [{ jobId, triggerSource := .cron, startedAt := s.clock }]
    firings := s.firings.put s.rows.length ⟨jobId, .started⟩ }

/-- `dispatch_manual_run` on a live scheduler. -/
def dispatchManual (jobId : String) (userId : ℕ) : State :=
  { s with
    rows := s.rows ++
      [{ jobId, triggerSource := .manual, startedAt := s.clock, triggeredByUserId := some userId }]
    pending := s.pending.put s.rows.length jobId }

def setFiring (id : ℕ) (f : Firing) : State := { s with firings := s.firings.put id f }

/-- `_run_if_scheduler_enabled` up to the end of its session, in which it reads the gate. -/
def readGate (jobId : String) (id : ℕ) : Option String → State
  | some exc => s.setFiring id ⟨jobId, .concluded (unhandled exc)⟩
  | none =>
    if isAgentEnabled s.control schedulerAgent then s.setFiring id ⟨jobId, .admitted⟩
    else s.setFiring id ⟨jobId, .concluded schedulerDisabled⟩

def callJob (jobId : String) (id : ℕ) : State :=
  { s.setFiring id ⟨jobId, .executing⟩ with executions := s.executions ++ [(id, jobId)] }

def resultOf : Except String JobResult → JobResult
  | .ok result => result
  | .error exc => unhandled exc

def finishRun (id : ℕ) (result : JobResult) : Bool → State
  | true =>
    { s with
      rows := s.rows.modify id fun row ↦ row.finish s.clock result
      firings := s.firings.erase id }
  | false => { s with firings := s.firings.erase id, lost := id :: s.lost }

def step : Event → Option State
  | .tick seconds => some { s with clock := s.clock + seconds }
  | .setAgentEnabled agentName enabled reason =>
    match Control.setAgentEnabled s.control agentName enabled reason with
    | .ok control => some { s with control }
    | .error _ => some s
  | .buildScheduler => some { s with live := true }
  | .cronFire jobId inserted =>
    if s.live ∧ jobId ∈ jobRegistry.keys then some (if inserted then s.beginCron jobId else s)
    else none
  | .runNow jobId userId inserted =>
    -- an unknown job is a 404, no scheduler in the process a 503
    if s.live ∧ jobId ∈ jobRegistry.keys ∧ inserted then some (s.dispatchManual jobId userId)
    else some s
  | .manualFire id =>
    match s.pending.get? id with
    | some jobId => some { s.setFiring id ⟨jobId, .started⟩ with pending := s.pending.erase id }
    | none => none
  | .misfire id =>
    match s.pending.get? id with
    | some _ => some { s with pending := s.pending.erase id, lost := id :: s.lost }
    | none => none
  | .gate id raises =>
    match s.firings.get? id with
    | some ⟨jobId, .started⟩ => some (s.readGate jobId id raises)
    | _ => none
  | .call id =>
    match s.firings.get? id with
    | some ⟨jobId, .admitted⟩ => some (s.callJob jobId id)
    | _ => none
  | .report id outcome =>
    match s.firings.get? id with
    | some ⟨jobId, .executing⟩ => some (s.setFiring id ⟨jobId, .concluded (resultOf outcome)⟩)
    | _ => none
  | .finish id written =>
    match s.firings.get? id with
    | some ⟨_, .concluded result⟩ => some (s.finishRun id result written)
    | _ => none
  | .restart =>
    some
      { s with
        live := false
        pending := .empty
        firings := .empty
        lost := s.firings.keys ++ s.pending.keys ++ s.lost }

/-- A process goes on with the run, or has lost it. -/
def Open (id : ℕ) : Prop :=
  s.firings.get? id ≠ none ∨ s.pending.get? id ≠ none ∨ id ∈ s.lost

/-- The row is of that job. -/
def Names (id : ℕ) (jobId : String) : Prop := ∃ row, s.rows[id]? = some row ∧ row.jobId = jobId

/-- What a row says of itself. -/
structure RowSound (row : ScheduledJobRun) : Prop where
  job : row.jobId ∈ jobRegistry.keys
  user : row.triggeredByUserId.isSome ↔ row.triggerSource = .manual
  started : row.startedAt ≤ s.clock
  ended : row.status ≠ .running ↔ row.endedAt.isSome
  summary : row.status ≠ .running ↔ row.resultSummary.isSome
  order : ∀ t ∈ row.endedAt, row.startedAt ≤ t ∧ t ≤ s.clock
  length : ∀ text ∈ row.resultSummary, text.length ≤ summaryLength

/-- The ledger accounts for what has been run: a row runs exactly as long as its run is open, and
each call of a job's function has one row of that job, each row at most one call. -/
structure Accounted : Prop where
  rows : ∀ row ∈ s.rows, s.RowSound row
  running : ∀ id row, s.rows[id]? = some row → (row.status = .running ↔ s.Open id)
  executed : ∀ e ∈ s.executions, s.Names e.1 e.2
  once : (s.executions.map Prod.fst).Nodup

/-- And the process holds no run twice, and each under the job of its row. -/
structure Sound : Prop extends s.Accounted where
  bounded : ∀ id, s.Open id → id < s.rows.length
  firing : ∀ id f, s.firings.get? id = some f →
    s.pending.get? id = none ∧ id ∉ s.lost ∧ s.Names id f.jobId
  waiting : ∀ id jobId, s.pending.get? id = some jobId →
    id ∉ s.lost ∧ id ∉ s.executions.map Prod.fst ∧ s.Names id jobId
  fresh : ∀ id f, s.firings.get? id = some f → f.stage.IsEarly → id ∉ s.executions.map Prod.fst

variable {s} {id : ℕ} {row : ScheduledJobRun} {result : JobResult} {f : Firing}

section Rows

theorem RowSound.later (h : s.RowSound row) {t : State} (hclock : s.clock ≤ t.clock) : t.RowSound row where
  job := h.job
  user := h.user
  started := h.started.trans hclock
  ended := h.ended
  summary := h.summary
  order := fun t ht ↦ ⟨(h.order t ht).1, (h.order t ht).2.trans hclock⟩
  length := h.length

theorem RowSound.finish (h : s.RowSound row) (result : JobResult) :
    s.RowSound (row.finish s.clock result) where
  job := h.job
  user := h.user
  started := h.started
  ended := by simp [ScheduledJobRun.finish]
  summary := by simp [ScheduledJobRun.finish]
  order := by
    rintro t ht
    obtain rfl := Option.some.inj ht
    exact ⟨h.started, le_rfl⟩
  length := by
    rintro text htext
    obtain rfl := Option.some.inj htext
    rw [String.length_ofList, List.length_take]
    exact Nat.min_le_left _ _

/-- A row that is added takes the next id. -/
theorem getElem?_snoc {rows : List ScheduledJobRun} {new : ScheduledJobRun}
    (h : (rows ++ [new])[id]? = some row) :
    rows[id]? = some row ∨ id = rows.length ∧ row = new := by
  rw [List.getElem?_append] at h
  split at h
  · exact .inl h
  · next hle =>
    have hid : id - rows.length < [new].length := (List.getElem?_eq_some_iff.mp h).1
    rw [List.length_singleton] at hid
    obtain rfl : id = rows.length := by omega
    rw [Nat.sub_self] at h
    exact .inr ⟨rfl, (Option.some.inj h).symm⟩

end Rows

section Steps

variable {t : State}

/-- Rows are only added, and keep their job. -/
theorem Names.later {jobId : String} (h : s.Names id jobId)
    (hrows : ∀ (id : ℕ) (row : ScheduledJobRun), s.rows[id]? = some row →
      ∃ row', t.rows[id]? = some row' ∧ row'.jobId = row.jobId) : t.Names id jobId := by
  obtain ⟨row, hrow, rfl⟩ := h
  exact hrows id row hrow

theorem Names.of_eq {jobId : String} (h : s.Names id jobId) (hrows : t.rows = s.rows) :
    t.Names id jobId := h.later fun _ row hrow ↦ ⟨row, hrows ▸ hrow, rfl⟩

theorem Names.snoc {jobId : String} (h : s.Names id jobId) {new : ScheduledJobRun}
    (hrows : t.rows = s.rows ++ [new]) : t.Names id jobId := by
  refine h.later fun j row hrow ↦ ⟨row, ?_, rfl⟩
  rw [hrows, List.getElem?_append_left (List.getElem?_eq_some_iff.mp hrow).1, hrow]

theorem Names.finish {jobId : String} (h : s.Names id jobId) (j : ℕ) (result : JobResult) :
    (s.finishRun j result true).Names id jobId := by
  refine h.later fun k row hrow ↦ ⟨if j = k then row.finish s.clock result else row, ?_, ?_⟩
  · rw [finishRun, List.getElem?_modify, hrow]
    rfl
  · split <;> rfl

/-- A step that neither opens nor closes a run, nor calls a function. -/
theorem Accounted.moved (h : s.Accounted) (hclock : s.clock ≤ t.clock) (hrows : t.rows = s.rows)
    (hopen : ∀ id, t.Open id ↔ s.Open id) (hexec : t.executions = s.executions) : t.Accounted where
  rows := fun row hrow ↦ (h.rows row (hrows ▸ hrow)).later hclock
  running := fun id row hrow ↦ (h.running id row (hrows ▸ hrow)).trans (hopen id).symm
  executed := fun e he ↦ (h.executed e (hexec ▸ he)).of_eq hrows
  once := hexec ▸ h.once

/-- A step that adds the row of a run. -/
theorem Accounted.opened (h : s.Accounted) {new : ScheduledJobRun} (hclock : t.clock = s.clock)
    (hrows : t.rows = s.rows ++ [new]) (hnew : s.RowSound new) (hrunning : new.status = .running)
    (hopen : ∀ id, t.Open id ↔ id = s.rows.length ∨ s.Open id) (hexec : t.executions = s.executions) :
    t.Accounted where
  rows := by
    rw [hrows]
    refine List.forall_mem_append.mpr ⟨fun row hrow ↦ (h.rows row hrow).later hclock.ge, ?_⟩
    exact List.forall_mem_singleton.mpr (hnew.later hclock.ge)
  running := by
    intro id row hrow
    rw [hrows] at hrow
    rw [hopen]
    rcases getElem?_snoc hrow with hrow | ⟨rfl, rfl⟩
    · have hlt := (List.getElem?_eq_some_iff.mp hrow).1
      rw [h.running id row hrow]
      exact ⟨.inr, fun hor ↦ hor.resolve_left hlt.ne⟩
    · exact iff_of_true hrunning (.inl rfl)
  executed := fun e he ↦ (h.executed e (hexec ▸ he)).snoc hrows
  once := hexec ▸ h.once

theorem Names.lt_length {jobId : String} (h : s.Names id jobId) : id < s.rows.length := by
  obtain ⟨row, hrow, -⟩ := h
  exact (List.getElem?_eq_some_iff.mp hrow).1

theorem Accounted.lt_of_executed (h : s.Accounted) (hid : id ∈ s.executions.map Prod.fst) :
    id < s.rows.length := by
  obtain ⟨e, he, rfl⟩ := List.mem_map.mp hid
  exact (h.executed e he).lt_length

theorem Sound.not_open_length (h : s.Sound) : ¬ s.Open s.rows.length := fun ho ↦
  Nat.lt_irrefl _ (h.bounded _ ho)

theorem get?_setFiring (j : ℕ) :
    (s.setFiring id f).firings.get? j = if j = id then some f else s.firings.get? j :=
  s.firings.get?_put id f j

theorem open_setFiring (hid : s.Open id) (j : ℕ) : (s.setFiring id f).Open j ↔ s.Open j := by
  rw [Open, get?_setFiring]
  split
  · next he => exact iff_of_true (.inl (Option.some_ne_none _)) (he ▸ hid)
  · exact Iff.rfl

theorem open_of_firing (h : s.firings.get? id = some f) : s.Open id := .inl (by simp [h])

/-- A firing that goes on keeps its job, and is not started again. -/
theorem Sound.setStage (h : s.Sound) (hid : s.firings.get? id = some f) (stage : Stage)
    (hstage : stage.IsEarly → f.stage.IsEarly) : (s.setFiring id ⟨f.jobId, stage⟩).Sound where
  toAccounted := h.toAccounted.moved le_rfl rfl (open_setFiring (open_of_firing hid)) rfl
  bounded := fun j hj ↦ h.bounded j ((open_setFiring (open_of_firing hid) j).mp hj)
  firing := by
    intro j g hj
    rw [get?_setFiring] at hj
    split at hj
    · next he =>
      obtain rfl := Option.some.inj hj
      exact he ▸ h.firing id f hid
    · exact h.firing j g hj
  waiting := h.waiting
  fresh := by
    intro j g hj hearly
    rw [get?_setFiring] at hj
    split at hj
    · next he =>
      obtain rfl := Option.some.inj hj
      exact he ▸ h.fresh id f hid (hstage hearly)
    · exact h.fresh j g hj hearly

/-- The run of a new row has the last id. -/
theorem Sound.bounded_opened (h : s.Sound) (hlength : t.rows.length = s.rows.length + 1)
    (hopen : ∀ j, t.Open j ↔ j = s.rows.length ∨ s.Open j) (j : ℕ) (hj : t.Open j) :
    j < t.rows.length := by
  rw [hlength]
  rcases (hopen j).mp hj with rfl | hj
  · exact Nat.lt_succ_self _
  · exact (h.bounded j hj).trans (Nat.lt_succ_self _)

theorem Sound.beginCron (h : s.Sound) {jobId : String} (hjob : jobId ∈ jobRegistry.keys) :
    (s.beginCron jobId).Sound := by
  have hget (j : ℕ) : (s.beginCron jobId).firings.get? j =
      if j = s.rows.length then some ⟨jobId, .started⟩ else s.firings.get? j :=
    s.firings.get?_put _ _ j
  have hopen (j : ℕ) : (s.beginCron jobId).Open j ↔ j = s.rows.length ∨ s.Open j := by
    rw [Open, hget]
    split
    · next he => exact iff_of_true (.inl (Option.some_ne_none _)) (.inl he)
    · next hne => exact ⟨.inr, fun hor ↦ hor.resolve_left hne⟩
  have hnot := h.not_open_length
  have hname : (s.beginCron jobId).Names s.rows.length jobId := ⟨_, List.getElem?_concat_length, rfl⟩
  refine
    { toAccounted := h.toAccounted.opened rfl rfl ⟨hjob, by simp, le_rfl, by simp, by simp, by simp,
        by simp⟩ rfl hopen rfl
      bounded := h.bounded_opened List.length_append hopen
      firing := ?_
      waiting := fun j job hj ↦
        And.imp_right (And.imp_right fun hnamed ↦ hnamed.snoc rfl) (h.waiting j job hj)
      fresh := ?_ }
  · intro j g hj
    rw [hget] at hj
    split at hj
    · next he =>
      obtain rfl := Option.some.inj hj
      subst he
      exact ⟨not_not.mp fun hp ↦ hnot (.inr (.inl hp)), fun hl ↦ hnot (.inr (.inr hl)), hname⟩
    · obtain ⟨hpending, hlost, hnamed⟩ := h.firing j g hj
      exact ⟨hpending, hlost, hnamed.snoc rfl⟩
  · intro j g hj hearly
    rw [hget] at hj
    split at hj
    · next he => exact fun hin ↦ Nat.lt_irrefl _ (he ▸ h.lt_of_executed hin)
    · exact h.fresh j g hj hearly

theorem Sound.dispatchManual (h : s.Sound) {jobId : String} (hjob : jobId ∈ jobRegistry.keys)
    (userId : ℕ) : (s.dispatchManual jobId userId).Sound := by
  have hget (j : ℕ) : (s.dispatchManual jobId userId).pending.get? j =
      if j = s.rows.length then some jobId else s.pending.get? j := s.pending.get?_put _ _ j
  have hopen (j : ℕ) : (s.dispatchManual jobId userId).Open j ↔ j = s.rows.length ∨ s.Open j := by
    rw [Open, hget]
    split
    · next he => exact iff_of_true (.inr (.inl (Option.some_ne_none _))) (.inl he)
    · next hne => exact ⟨.inr, fun hor ↦ hor.resolve_left hne⟩
  have hnot := h.not_open_length
  have hname : (s.dispatchManual jobId userId).Names s.rows.length jobId :=
    ⟨_, List.getElem?_concat_length, rfl⟩
  refine
    { toAccounted := h.toAccounted.opened rfl rfl ⟨hjob, by simp, le_rfl, by simp, by simp, by simp,
        by simp⟩ rfl hopen rfl
      bounded := h.bounded_opened List.length_append hopen
      firing := ?_
      waiting := ?_
      fresh := h.fresh }
  · intro j g hj
    obtain ⟨hpending, hlost, hnamed⟩ := h.firing j g hj
    refine ⟨?_, hlost, hnamed.snoc rfl⟩
    rw [hget, if_neg hnamed.lt_length.ne, hpending]
  · intro j job hj
    rw [hget] at hj
    split at hj
    · next he =>
      obtain rfl := Option.some.inj hj
      subst he
      exact ⟨fun hl ↦ hnot (.inr (.inr hl)), fun he ↦ Nat.lt_irrefl _ (h.lt_of_executed he), hname⟩
    · obtain ⟨hlost, hexec, hnamed⟩ := h.waiting j job hj
      exact ⟨hlost, hexec, hnamed.snoc rfl⟩

theorem Sound.manualFire (h : s.Sound) {jobId : String} (hid : s.pending.get? id = some jobId) :
    ({ s.setFiring id ⟨jobId, .started⟩ with pending := s.pending.erase id } : State).Sound := by
  let t : State := { s.setFiring id ⟨jobId, .started⟩ with pending := s.pending.erase id }
  have hget (j : ℕ) : t.firings.get? j = if j = id then some ⟨jobId, .started⟩ else s.firings.get? j :=
    s.firings.get?_put id _ j
  have hpending (j : ℕ) : t.pending.get? j = if j = id then none else s.pending.get? j :=
    s.pending.get?_erase id j
  have hopen (j : ℕ) : t.Open j ↔ s.Open j := by
    rw [Open, hget, hpending]
    split
    · next he => exact iff_of_true (.inl (Option.some_ne_none _)) (.inr (.inl (by simp [he, hid])))
    · exact Iff.rfl
  obtain ⟨hlost, hexec, hnamed⟩ := h.waiting id jobId hid
  refine
    { toAccounted := h.toAccounted.moved le_rfl rfl hopen rfl
      bounded := fun j hj ↦ h.bounded j ((hopen j).mp hj)
      firing := ?_
      waiting := ?_
      fresh := ?_ }
  · intro j g hj
    rw [hget] at hj
    rw [hpending]
    split at hj
    · next he =>
      obtain rfl := Option.some.inj hj
      rw [if_pos he]
      exact ⟨rfl, he ▸ hlost, he ▸ hnamed⟩
    · next hne =>
      rw [if_neg hne]
      exact h.firing j g hj
  · exact fun j job hj ↦ h.waiting j job (s.pending.get?_erase_eq_some.mp hj).2
  · intro j g hj hearly
    rw [hget] at hj
    split at hj
    · next he => exact he ▸ hexec
    · exact h.fresh j g hj hearly

theorem Sound.misfire (h : s.Sound) {jobId : String} (hid : s.pending.get? id = some jobId) :
    ({ s with pending := s.pending.erase id, lost := id :: s.lost } : State).Sound := by
  let t : State := { s with pending := s.pending.erase id, lost := id :: s.lost }
  have hpending (j : ℕ) : t.pending.get? j = if j = id then none else s.pending.get? j :=
    s.pending.get?_erase id j
  have hlost (j : ℕ) : j ∈ t.lost ↔ j = id ∨ j ∈ s.lost := List.mem_cons
  have hopen (j : ℕ) : t.Open j ↔ s.Open j := by
    rw [Open, hpending, hlost, Open]
    by_cases he : j = id
    · exact iff_of_true (.inr (.inr (.inl he))) (.inr (.inl (by simp [he, hid])))
    · rw [if_neg he, or_iff_right he]
  refine
    { toAccounted := h.toAccounted.moved le_rfl rfl hopen rfl
      bounded := fun j hj ↦ h.bounded j ((hopen j).mp hj)
      firing := ?_
      waiting := ?_
      fresh := h.fresh }
  · intro j g hj
    obtain ⟨hnone, hnotLost, hnamed⟩ := h.firing j g hj
    rw [hpending, hlost]
    refine ⟨by split <;> [rfl; exact hnone], ?_, hnamed⟩
    rintro (rfl | hl)
    · exact absurd (hnone.symm.trans hid) (by simp)
    · exact hnotLost hl
  · intro j job hj
    obtain ⟨hne, hj⟩ := s.pending.get?_erase_eq_some.mp hj
    obtain ⟨hnotLost, hexec, hnamed⟩ := h.waiting j job hj
    rw [hlost]
    exact ⟨fun hor ↦ hnotLost (hor.resolve_left hne), hexec, hnamed⟩

/-- The job's function is called. -/
theorem Sound.callJob (h : s.Sound) {jobId : String} (hid : s.firings.get? id = some ⟨jobId, .admitted⟩) :
    (s.callJob jobId id).Sound := by
  have hset : (s.setFiring id ⟨jobId, .executing⟩).Sound :=
    h.setStage hid .executing (by rintro (hs | hs) <;> cases hs)
  obtain ⟨hnone, -, hnamed⟩ := h.firing id _ hid
  refine
    { rows := fun row hin ↦ (hset.rows row hin).later le_rfl
      running := hset.running
      executed := List.forall_mem_append.mpr ⟨h.executed, List.forall_mem_singleton.mpr hnamed⟩
      once := ?_
      bounded := hset.bounded
      firing := hset.firing
      waiting := ?_
      fresh := ?_ }
  · rw [State.callJob, List.map_append]
    refine h.once.append (List.nodup_singleton _) ?_
    intro j hj hj'
    obtain rfl := List.mem_singleton.mp hj'
    exact h.fresh _ _ hid (.inr rfl) hj
  · intro j job hj
    obtain ⟨hlost, hnot, hnamed⟩ := h.waiting j job hj
    refine ⟨hlost, ?_, hnamed⟩
    rw [State.callJob, List.map_append, List.mem_append]
    rintro (hin | hin)
    · exact hnot hin
    · obtain rfl := List.mem_singleton.mp hin
      exact absurd (hnone.symm.trans hj) (by simp)
  · intro j g hj hearly
    rw [State.callJob, List.map_append, List.mem_append]
    have hg : (s.setFiring id ⟨jobId, .executing⟩).firings.get? j = some g := hj
    rw [get?_setFiring] at hg
    split at hg
    · obtain rfl := Option.some.inj hg
      rcases hearly with hs | hs <;> cases hs
    · next hne =>
      rintro (hin | hin)
      · exact h.fresh j g hg hearly hin
      · exact hne (List.mem_singleton.mp hin)

theorem Sound.readGate (h : s.Sound) {jobId : String} (hid : s.firings.get? id = some ⟨jobId, .started⟩)
    (raises : Option String) : (s.readGate jobId id raises).Sound := by
  have hset (stage : Stage) : (s.setFiring id ⟨jobId, stage⟩).Sound :=
    h.setStage hid stage fun _ ↦ .inl rfl
  cases raises with
  | some exc => exact hset _
  | none =>
    rw [State.readGate]
    split <;> exact hset _

/-- A row that is written ends the run it is of, and no other. -/
theorem Sound.open_finishRun (h : s.Sound) (hid : s.firings.get? id = some f) (result : JobResult)
    (j : ℕ) : (s.finishRun id result true).Open j ↔ j ≠ id ∧ s.Open j := by
  obtain ⟨hpending, hlost, -⟩ := h.firing id f hid
  have hsplit : (s.finishRun id result true).Open j ↔
      (s.firings.erase id).get? j ≠ none ∨ s.pending.get? j ≠ none ∨ j ∈ s.lost := Iff.rfl
  rw [hsplit, s.firings.get?_erase]
  by_cases he : j = id
  · subst he
    simp [hpending, hlost]
  · rw [if_neg he, and_iff_right he]
    rfl

theorem Accounted.finished (h : s.Accounted) (result : JobResult)
    (hopen : ∀ j, (s.finishRun id result true).Open j ↔ j ≠ id ∧ s.Open j) :
    (s.finishRun id result true).Accounted := by
  have hget (j : ℕ) : (s.finishRun id result true).rows[j]? =
      (fun row ↦ if id = j then row.finish s.clock result else row) <$> s.rows[j]? :=
    List.getElem?_modify _ _ _ _
  refine
    { rows := ?_
      running := ?_
      executed := fun e he ↦ (h.executed e he).finish id result
      once := h.once }
  · intro row hrow
    obtain ⟨j, hj⟩ := List.mem_iff_getElem?.mp hrow
    rw [hget] at hj
    obtain ⟨row', hrow', rfl⟩ := Option.map_eq_some_iff.mp hj
    have hsound := h.rows row' (List.mem_of_getElem? hrow')
    split
    · exact (hsound.finish result).later le_rfl
    · exact hsound.later le_rfl
  · intro j row hrow
    rw [hget] at hrow
    obtain ⟨row', hrow', rfl⟩ := Option.map_eq_some_iff.mp hrow
    rw [hopen]
    split
    · next he => exact iff_of_false (by simp [ScheduledJobRun.finish]) fun ho ↦ ho.1 he.symm
    · next hne =>
      rw [and_iff_right (Ne.symm hne)]
      exact h.running j row' hrow'

/-- A firing that is over is no longer held, and its row is ended. -/
theorem Sound.finishWritten (h : s.Sound) (hid : s.firings.get? id = some f) (result : JobResult) :
    (s.finishRun id result true).Sound := by
  have hopen := h.open_finishRun hid result
  have hlength : (s.finishRun id result true).rows.length = s.rows.length :=
    List.length_modify _ _ _
  refine
    { toAccounted := h.toAccounted.finished result hopen
      bounded := fun j hj ↦ hlength ▸ h.bounded j ((hopen j).mp hj).2
      firing := ?_
      waiting := ?_
      fresh := ?_ }
  · intro j g hj
    obtain ⟨-, hj⟩ := s.firings.get?_erase_eq_some.mp hj
    obtain ⟨hnone, hnotLost, hnamed⟩ := h.firing j g hj
    exact ⟨hnone, hnotLost, hnamed.finish id result⟩
  · intro j job hj
    obtain ⟨hnotLost, hexec, hnamed⟩ := h.waiting j job hj
    exact ⟨hnotLost, hexec, hnamed.finish id result⟩
  · intro j g hj
    exact h.fresh j g (s.firings.get?_erase_eq_some.mp hj).2

/-- The row of a firing whose end was not written stays as it is. -/
theorem Sound.finishLost (h : s.Sound) (hid : s.firings.get? id = some f) (result : JobResult) :
    (s.finishRun id result false).Sound := by
  obtain ⟨hpending, -, -⟩ := h.firing id f hid
  have hopen (j : ℕ) : (s.finishRun id result false).Open j ↔ s.Open j := by
    have hsplit : (s.finishRun id result false).Open j ↔ (s.firings.erase id).get? j ≠ none ∨
        s.pending.get? j ≠ none ∨ j ∈ id :: s.lost := Iff.rfl
    rw [hsplit, s.firings.get?_erase, List.mem_cons]
    by_cases he : j = id
    · exact iff_of_true (.inr (.inr (.inl he))) (he ▸ open_of_firing hid)
    · rw [if_neg he, or_iff_right he]
      rfl
  refine
    { toAccounted := h.toAccounted.moved le_rfl rfl hopen rfl
      bounded := fun j hj ↦ h.bounded j ((hopen j).mp hj)
      firing := ?_
      waiting := ?_
      fresh := fun j g hj ↦ h.fresh j g (s.firings.get?_erase_eq_some.mp hj).2 }
  · intro j g hj
    obtain ⟨hne, hj⟩ := s.firings.get?_erase_eq_some.mp hj
    obtain ⟨hnone, hnotLost, hnamed⟩ := h.firing j g hj
    refine ⟨hnone, ?_, hnamed.of_eq rfl⟩
    rintro (_ | ⟨_, hin⟩)
    · exact hne rfl
    · exact hnotLost hin
  · intro j job hj
    obtain ⟨hnotLost, hexec, hnamed⟩ := h.waiting j job hj
    refine ⟨?_, hexec, hnamed.of_eq rfl⟩
    rintro (_ | ⟨_, hin⟩)
    · exact absurd (hpending.symm.trans hj) (by simp)
    · exact hnotLost hin

theorem Sound.finishRun (h : s.Sound) (hid : s.firings.get? id = some f) (result : JobResult)
    (written : Bool) : (s.finishRun id result written).Sound := by
  cases written with
  | true => exact h.finishWritten hid result
  | false => exact h.finishLost hid result

theorem Sound.restart (h : s.Sound) :
    ({ s with
        live := false
        pending := .empty
        firings := .empty
        lost := s.firings.keys ++ s.pending.keys ++ s.lost } : State).Sound := by
  let t : State :=
    { s with
      live := false
      pending := .empty
      firings := .empty
      lost := s.firings.keys ++ s.pending.keys ++ s.lost }
  have hopen (j : ℕ) : t.Open j ↔ s.Open j := by
    have hsplit : t.Open j ↔ j ∈ s.firings.keys ++ s.pending.keys ++ s.lost := by
      constructor
      · rintro (hn | hn | hl)
        · exact absurd rfl hn
        · exact absurd rfl hn
        · exact hl
      · exact fun hl ↦ .inr (.inr hl)
    rw [hsplit, List.mem_append, List.mem_append, Open, ne_eq, s.firings.get?_eq_none, not_not, ne_eq,
      s.pending.get?_eq_none, not_not, or_assoc]
  exact
    { toAccounted := h.toAccounted.moved le_rfl rfl hopen rfl
      bounded := fun j hj ↦ h.bounded j ((hopen j).mp hj)
      firing := fun j g hj ↦ by cases hj
      waiting := fun j job hj ↦ by cases hj
      fresh := fun j g hj ↦ by cases hj }

/-- A step that leaves the runs and their process as they are. -/
theorem Sound.aside (h : s.Sound) (hclock : s.clock ≤ t.clock) (hrows : t.rows = s.rows)
    (hpending : t.pending = s.pending) (hfirings : t.firings = s.firings) (hlost : t.lost = s.lost)
    (hexec : t.executions = s.executions) : t.Sound := by
  have hopen (j : ℕ) : t.Open j ↔ s.Open j := by rw [Open, hfirings, hpending, hlost, Open]
  refine
    { toAccounted := h.toAccounted.moved hclock hrows hopen hexec
      bounded := fun j hj ↦ hrows ▸ h.bounded j ((hopen j).mp hj)
      firing := ?_
      waiting := ?_
      fresh := ?_ }
  · rw [hfirings, hpending, hlost]
    exact fun j g hj ↦
      have ⟨hnone, hnotLost, hnamed⟩ := h.firing j g hj
      ⟨hnone, hnotLost, hnamed.of_eq hrows⟩
  · rw [hpending, hlost, hexec]
    exact fun j job hj ↦
      have ⟨hnotLost, hnot, hnamed⟩ := h.waiting j job hj
      ⟨hnotLost, hnot, hnamed.of_eq hrows⟩
  · rw [hfirings, hexec]
    exact h.fresh

theorem Sound.step (h : s.Sound) {e : Event} (hstep : s.step e = some t) : t.Sound := by
  cases e with
  | tick seconds =>
    cases hstep
    exact h.aside (Nat.le_add_right _ _) rfl rfl rfl rfl rfl
  | setAgentEnabled agentName enabled reason =>
    rw [State.step] at hstep
    split at hstep <;> cases hstep
    · exact h.aside le_rfl rfl rfl rfl rfl rfl
    · exact h
  | buildScheduler =>
    cases hstep
    exact h.aside le_rfl rfl rfl rfl rfl rfl
  | cronFire jobId inserted =>
    rw [State.step] at hstep
    split at hstep
    · next hlive =>
      cases hstep
      cases inserted with
      | true => exact h.beginCron hlive.2
      | false => exact h
    · cases hstep
  | runNow jobId userId inserted =>
    rw [State.step] at hstep
    split at hstep <;> cases hstep
    · next hlive => exact h.dispatchManual hlive.2.1 userId
    · exact h
  | manualFire id =>
    rw [State.step] at hstep
    split at hstep <;> cases hstep
    next hid => exact h.manualFire hid
  | misfire id =>
    rw [State.step] at hstep
    split at hstep <;> cases hstep
    next hid => exact h.misfire hid
  | gate id raises =>
    rw [State.step] at hstep
    split at hstep <;> cases hstep
    next hid => exact h.readGate hid raises
  | call id =>
    rw [State.step] at hstep
    split at hstep <;> cases hstep
    next hid => exact h.callJob hid
  | report id outcome =>
    rw [State.step] at hstep
    split at hstep <;> cases hstep
    next hid => exact h.setStage hid _ (by rintro (hs | hs) <;> cases hs)
  | finish id written =>
    rw [State.step] at hstep
    split at hstep <;> cases hstep
    next hid => exact h.finishRun hid _ written
  | restart =>
    cases hstep
    exact h.restart

end Steps

theorem sound_init (control : ControlTable) : (init control).Sound where
  rows := List.forall_mem_nil _
  running := fun id row hrow ↦ by cases hrow
  executed := List.forall_mem_nil _
  once := List.nodup_nil
  bounded := by
    rintro id (hn | hn | hn)
    · exact absurd rfl hn
    · exact absurd rfl hn
    · cases hn
  firing := fun id f hn ↦ by cases hn
  waiting := fun id job hn ↦ by cases hn
  fresh := fun id f hn ↦ by cases hn

theorem sound_of_run {control : ControlTable} {events : List Event} {t : State}
    (h : Run step (init control) events t) : t.Sound :=
  h.invariant (fun _ _ _ hs hstep ↦ hs.step hstep) (sound_init control)

/-- Whatever fires, fails or is lost, in any order, the ledger accounts for what has been run. -/
theorem ledger_accounts {control : ControlTable} {events : List Event} {t : State}
    (h : Run step (init control) events t) : t.Accounted := (sound_of_run h).toAccounted

/-- An archive run by its cron trigger, and a backup run by hand that a restart loses. -/
def oneNight : List Event :=
  [.buildScheduler, .runNow "scheduler_data_lake_backup" 7 true, .tick 5,
    .cronFire "scheduler_audit_archive" true, .manualFire 0, .gate 1 none, .gate 0 none, .call 0,
    .call 1, .tick 20, .report 1 (.ok ⟨.completed, "3 row(s) archived, 0 failure(s)"⟩),
    .finish 1 true, .restart]

theorem ledger_accounts_oneNight : ∃ t, Run step (init .empty) oneNight t ∧ t.Accounted := by
  have hruns : (exec step (init .empty) oneNight).isSome := by decide +kernel
  obtain ⟨t, ht⟩ := Option.isSome_iff_exists.mp hruns
  have hrun := exec_eq_some.mp ht
  exact ⟨t, hrun, ledger_accounts hrun⟩

end State

end TradingOS.Agents.JobRuns
