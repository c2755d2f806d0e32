import TradingOS.Orchestration.RunLifecycle

namespace TradingOS.Orchestration

open Lib Lib.Runs

namespace Db

/-- No task failed, blocked, escalated or open: what `completed` says of a run. -/
def WorkComplete (db : Db) : Prop :=
  ∀ tid t, db.tasks.get? tid = some t → t.status = .completed ∨ t.status = .cancelled

/-- The tasks `_finalize` fails a run for. -/
def hasDeadTask (db : Db) : Bool :=
  db.tasks.values.any fun t ↦ t.status ∈ [TaskStatus.failed, .blocked, .escalated]

/-- The end `_finalize` writes (`none`: the run goes on). -/
def finalizeOutcome (db : Db) (undispositioned : ℕ) (pendingApproval : Bool) : Option RunStatus :=
  if (db.finalize undispositioned pendingApproval).2 then
    (db.finalize undispositioned pendingApproval).1
  else none

/-- The end `settle_run_after_approval` writes (`none`: the run goes on). -/
def settleOutcome (db : Db) (pendingApproval : Bool) : Option RunStatus :=
  if pendingApproval then none else if db.openTasks ≠ 0 then none else some .completed

theorem openTasks_eq_zero {db : Db} :
    db.openTasks = 0 ↔ ∀ tid t, db.tasks.get? tid = some t → t.status.isTerminal := by
  simp only [openTasks, List.countP_eq_zero, Table.mem_values, forall_exists_index,
    Bool.not_eq_true, decide_eq_true_eq, Bool.not_eq_false]
  exact ⟨fun h tid t ht ↦ h t tid ht, fun h t tid ht ↦ h tid t ht⟩

theorem nonterminalCount_eq_openTasks (db : Db) : db.nonterminalCount = db.openTasks := by
  simp only [nonterminalCount, openTasks]
  congr 1
  funext t
  cases t.status <;> rfl

theorem hasDeadTask_eq_true {db : Db} :
    db.hasDeadTask ↔
      db.countStatus .failed ≠ 0 ∨ db.countStatus .blocked ≠ 0 ∨ db.countStatus .escalated ≠ 0 := by
  simp only [hasDeadTask, countStatus, List.any_eq_true, List.countP_eq_zero, ne_eq, not_forall,
    List.mem_cons, List.not_mem_nil, or_false, decide_eq_true_eq, exists_prop, not_not]
  constructor
  · rintro ⟨t, ht, hst | hst | hst⟩
    · exact .inl ⟨t, ht, hst⟩
    · exact .inr (.inl ⟨t, ht, hst⟩)
    · exact .inr (.inr ⟨t, ht, hst⟩)
  · rintro (⟨t, ht, hst⟩ | ⟨t, ht, hst⟩ | ⟨t, ht, hst⟩)
    · exact ⟨t, ht, .inl hst⟩
    · exact ⟨t, ht, .inr (.inl hst)⟩
    · exact ⟨t, ht, .inr (.inr hst)⟩

theorem workComplete_iff {db : Db} : db.WorkComplete ↔ db.openTasks = 0 ∧ db.hasDeadTask = false := by
  simp only [WorkComplete, openTasks_eq_zero, hasDeadTask, List.any_eq_false, Table.mem_values,
    forall_exists_index, decide_eq_true_eq]
  constructor
  · intro h
    refine ⟨fun tid t ht ↦ ?_, fun t tid ht ↦ ?_⟩ <;> rcases h tid t ht with hst | hst <;> simp [hst]
    all_goals rfl
  · rintro ⟨hterm, hdead⟩ tid t ht
    have hnot := hdead t tid ht
    have hend := hterm tid t ht
    cases hst : t.status <;> simp_all [TaskStatus.isTerminal]

theorem finalize_eq_completed {db : Db} {undispositioned : ℕ} {pendingApproval : Bool}
    (h : (db.finalize undispositioned pendingApproval).1 = some .completed) :
    db.WorkComplete := by
  simp only [finalize, ← hasDeadTask_eq_true, nonterminalCount_eq_openTasks] at h
  rw [workComplete_iff]
  by_cases hopen : db.openTasks = 0
  · cases hdead : db.hasDeadTask with
    | false => exact ⟨hopen, rfl⟩
    | true => simp [hopen, hdead] at h
  · by_cases hready : db.countStatus .ready = 0 <;> simp [hopen, hready] at h

theorem outcomes_agree_iff (db : Db) (undispositioned : ℕ) (pendingApproval : Bool) :
    db.finalizeOutcome undispositioned pendingApproval = db.settleOutcome pendingApproval ↔
      db.openTasks ≠ 0 ∨
        db.hasDeadTask = false ∧ (undispositioned = 0 ∨ pendingApproval) := by
  simp only [finalizeOutcome, settleOutcome, finalize, ← hasDeadTask_eq_true,
    nonterminalCount_eq_openTasks]
  by_cases hopen : db.openTasks = 0
  · cases hdead : db.hasDeadTask <;> cases pendingApproval <;>
      by_cases hu : undispositioned = 0 <;> simp [hopen, hu]
  · by_cases hready : db.countStatus .ready = 0 <;> simp [hopen, hready]

theorem WorkComplete.of_keeps {db db' : Db} (h : db.WorkComplete)
    (hkeys : db'.tasks.keys = db.tasks.keys) (hkeep : db.Keeps db') : db'.WorkComplete := by
  intro tid t' ht'
  have hmem : tid ∈ db.tasks.keys := by
    by_contra hn
    rw [← hkeys, ← db'.tasks.get?_eq_none, ht'] at hn
    cases hn
  obtain ⟨t, ht⟩ := Option.ne_none_iff_exists'.mp fun hn ↦ db.tasks.get?_eq_none.mp hn hmem
  have hst := h tid t ht
  have hterm : t.status.isTerminal := by rcases hst with hst | hst <;> rw [hst] <;> rfl
  obtain ⟨t'', ht'', he⟩ :=
    statusOf_eq_some.mp (hkeep tid t.status (statusOf_eq_some.mpr ⟨t, ht, rfl⟩) hterm)
  obtain rfl := Option.some.inj (ht'.symm.trans ht'')
  rwa [he]

theorem WorkComplete.cancelTasks {db : Db} (h : db.WorkComplete) : db.cancelTasks.WorkComplete := by
  intro tid t' ht'
  simp only [Db.cancelTasks, Table.get?_mapVals, Option.map_eq_some_iff] at ht'
  obtain ⟨t, ht, rfl⟩ := ht'
  rcases h tid t ht with hst | hst <;> simp [hst]

theorem WorkComplete.reapTasks {db : Db} (h : db.WorkComplete) : db.reapTasks.WorkComplete := by
  intro tid t' ht'
  simp only [Db.reapTasks, Table.get?_mapVals, Option.map_eq_some_iff] at ht'
  obtain ⟨t, ht, rfl⟩ := ht'
  rcases h tid t ht with hst | hst <;> simp [hst]

section Keys

variable (db : Db) (tid : TaskId)

@[simp] theorem keys_modifyTask (f : Task → Task) :
    (db.modifyTask tid f).tasks.keys = db.tasks.keys :=
  db.tasks.keys_modify tid f

@[simp] theorem keys_markUnsatisfiable (capability reason : String) :
    (db.markUnsatisfiable tid capability reason).tasks.keys = db.tasks.keys :=
  db.tasks.keys_mapVals _

@[simp] theorem keys_evaluateOnCompletion :
    (db.evaluateOnCompletion tid).tasks.keys = db.tasks.keys :=
  db.tasks.keys_mapVals _

theorem keys_handleTaskTimeout : (db.handleTaskTimeout tid).tasks.keys = db.tasks.keys := by
  simp only [handleTaskTimeout]
  split
  · rfl
  · split <;> simp

theorem keys_runDispatchAndComplete (outcome : DispatchOutcome) :
    (db.runDispatchAndComplete tid outcome).tasks.keys = db.tasks.keys := by
  cases outcome with
  | success =>
    simp only [runDispatchAndComplete]
    split <;> simp
  | raised error =>
    simp only [runDispatchAndComplete, handleTaskFailure]
    split
    · rfl
    · split <;> simp
  | dataStale dataset =>
    simp only [runDispatchAndComplete, handleDataStale]
    split <;> simp
  | agentUnavailable error registry =>
    simp only [runDispatchAndComplete, handleAgentUnavailable]
    split
    · rfl
    · split <;> simp

end Keys

end Db

theorem Engine.step_keys {e e' : Engine} {event : Event} (h : e.step event = some e') :
    e'.db.tasks.keys = e.db.tasks.keys := by
  cases event with
  | readyTasks =>
    obtain rfl := Option.some.inj h
    exact Table.keys_mapVals _ _
  | claim tid =>
    simp only [step, Db.claim] at h
    split_ifs at h
    · obtain rfl := Option.some.inj h
      exact Db.keys_modifyTask _ _ _
    · obtain rfl := Option.some.inj h
      rfl
  | report tid outcome =>
    simp only [step] at h
    split_ifs at h
    obtain rfl := Option.some.inj h
    exact e.db.keys_runDispatchAndComplete tid outcome
  | timeout tid =>
    obtain rfl := Option.some.inj h
    exact e.db.keys_handleTaskTimeout tid
  | cancelRun =>
    obtain rfl := Option.some.inj h
    exact Table.keys_mapVals _ _

theorem Engine.step_workComplete {e e' : Engine} {event : Event} (h : e.db.WorkComplete)
    (hlate : LateReportHarmless e event e') (hstep : e.step event = some e') :
    e'.db.WorkComplete := by
  by_cases hcancel : event = .cancelRun
  · subst hcancel
    obtain rfl := Option.some.inj hstep
    exact h.cancelTasks
  · exact h.of_keeps (step_keys hstep) ((step_terminalKept_iff hstep).mpr hlate hcancel)

namespace OrgRun

def CompletedIsComplete (r : OrgRun) : Prop := r.status = .completed → r.engine.db.WorkComplete

/-- The run has been reported completed, or a transaction that will report it is open. -/
def Completing (r : OrgRun) : Prop :=
  r.status = .completed ∨
    ∃ thread session, r.sessions thread = some session ∧ session.decision = some .completed

end OrgRun

/-- A decision on an approval finds another one pending, a task open, or no task that has failed,
is blocked or escalated; and no result that comes in late puts a task of a completed run into
another status. -/
def SettlesSoundly (r : OrgRun) : OrgEvent → OrgRun → Prop
  | .decide thread, _ => ∀ session, r.sessions thread = some session →
    session.writer = .settleRunAfterApproval →
    r.pendingApproval ∨ r.engine.db.openTasks ≠ 0 ∨ r.engine.db.hasDeadTask = false
  | .task event, r' => r.Completing → LateReportHarmless r.engine event r'.engine
  | _, _ => True

namespace OrgRun

theorem decision_eq_completed {r : OrgRun} {writer : Writer}
    (h : r.decision writer = some .completed) :
    writer = .finalize ∧ r.engine.db.WorkComplete ∨
      writer = .settleRunAfterApproval ∧ r.pendingApproval = false ∧ r.engine.db.openTasks = 0 := by
  cases writer with
  | finalize => exact .inl ⟨rfl, Db.finalize_eq_completed h⟩
  | settleRunAfterApproval =>
    simp only [decision] at h
    split_ifs at h with hpending hopen
    exact .inr ⟨rfl, by simpa using hpending, not_not.mp hopen⟩
  | checkStalledRuns =>
    simp only [decision] at h
    split_ifs at h
    cases h
  | _ => cases h

theorem Completing.of_update {r r' : OrgRun} {thread : ThreadId} {new : Option Session}
    (h : r'.Completing) (hr' : r'.sessions = Function.update r.sessions thread new)
    (hst : r'.status = r.status)
    (hnew : ∀ session, new = some session → session.decision ≠ some .completed) :
    r.Completing := by
  rcases h with h | ⟨k, session, hk, hdec⟩
  · exact .inl (hst ▸ h)
  · rw [hr', Function.update_apply] at hk
    split at hk
    · exact absurd hdec (hnew session hk)
    · exact .inr ⟨k, session, hk, hdec⟩

theorem Completing.of_closeSession {r : OrgRun} {thread : ThreadId}
    (h : (r.closeSession thread).Completing) : r.Completing :=
  h.of_update rfl rfl nofun

theorem Completing.of_written {r : OrgRun} {thread : ThreadId} {session : Session}
    (hs : r.sessions thread = some session) (h : r.written session = .completed) :
    r.Completing := by
  simp only [written] at h
  split at h
  · exact .inl h
  · next st hdec =>
    split_ifs at h
    · exact .inl h
    · exact .inr ⟨thread, session, hs, h ▸ hdec⟩

def CompletingIsComplete (r : OrgRun) : Prop := r.Completing → r.engine.db.WorkComplete

theorem step_completingIsComplete {r r' : OrgRun} {event : OrgEvent}
    (h : r.CompletingIsComplete) (hok : SettlesSoundly r event r')
    (hstep : r.step event = some r') : r'.CompletingIsComplete := by
  intro hr'
  cases event with
  | read thread writer =>
    simp only [step] at hstep
    split at hstep
    · split at hstep
      · obtain rfl := Option.some.inj hstep
        refine h (hr'.of_update rfl rfl fun session hs ↦ ?_)
        obtain rfl := Option.some.inj hs
        intro hdecision
        cases hdecision
      · obtain rfl := Option.some.inj hstep
        exact h hr'
    · cases hstep
  | decide thread =>
    simp only [step] at hstep
    split at hstep
    · cases hstep
    · next session hs =>
      obtain rfl := Option.some.inj hstep
      by_cases hdec : r.decision session.writer = some .completed
      · rcases decision_eq_completed hdec with ⟨-, hwork⟩ | ⟨hw, hpending, hopen⟩
        · exact hwork
        · rcases hok session hs hw with hp | ho | hdead
          · rw [hpending] at hp
            cases hp
          · exact absurd hopen ho
          · exact Db.workComplete_iff.mpr ⟨hopen, hdead⟩
      · refine h (hr'.of_update rfl rfl fun new hnew ↦ ?_)
        obtain rfl := Option.some.inj hnew
        exact hdec
  | commit thread =>
    simp only [step] at hstep
    split at hstep
    · cases hstep
    · next session hs =>
      split at hstep
      · obtain rfl := Option.some.inj hstep
        have hbefore : r.Completing := by
          rcases hr' with hst | hsession
          · exact .of_written hs hst
          · have hclosed : (r.closeSession thread).Completing := .inr hsession
            exact hclosed.of_closeSession
        simp only [commit]
        split
        · exact (h hbefore).cancelTasks
        · exact h hbefore
      · cases hstep
  | rollback thread =>
    simp only [step] at hstep
    split at hstep
    · cases hstep
    · obtain rfl := Option.some.inj hstep
      exact h hr'.of_closeSession
  | task event =>
    obtain ⟨engine, hengine, rfl⟩ := Option.map_eq_some_iff.mp hstep
    exact Engine.step_workComplete (h hr') (hok hr') hengine
  | reapTasks =>
    obtain rfl := Option.some.inj hstep
    exact (h hr').reapTasks
  | setDispositions undispositioned =>
    obtain rfl := Option.some.inj hstep
    exact h hr'
  | setPendingApproval pending =>
    obtain rfl := Option.some.inj hstep
    exact h hr'

end OrgRun

/-- In every run whose steps settle soundly, a run reported completed has only completed and
cancelled tasks; and `_finalize` and the settlement after an approval answer alike exactly if a
task is open, or none has failed and no artefact waits unless an approval does. -/
theorem completed_run_is_complete (status : RunStatus) (engine : Engine)
    (hstatus : status = .queued ∨ status = .planning) (events : List OrgEvent)
    (hok : Along OrgRun.step SettlesSoundly (.created status engine) events) :
    Along OrgRun.step (fun _ _ r ↦ r.CompletedIsComplete) (.created status engine) events ∧
      ∀ (db : Db) (undispositioned : ℕ) (pendingApproval : Bool),
        db.finalizeOutcome undispositioned pendingApproval = db.settleOutcome pendingApproval ↔
          db.openTasks ≠ 0 ∨
            db.hasDeadTask = false ∧ (undispositioned = 0 ∨ pendingApproval) := by
  refine ⟨?_, Db.outcomes_agree_iff⟩
  have hinit : (OrgRun.created status engine).CompletingIsComplete := by
    rintro (hst | ⟨thread, session, hs, -⟩)
    · simp only [OrgRun.created] at hst
      rcases hstatus with rfl | rfl <;> cases hst
    · cases hs
  refine along_of_invariant (fun r event r' h hok hstep ↦ ?_) hinit hok
  have hr' := OrgRun.step_completingIsComplete h hok hstep
  exact ⟨hr', fun hst ↦ hr' (.inl hst)⟩

theorem completed_run_is_complete_loneTask :
    Along OrgRun.step (fun _ _ r ↦ r.CompletedIsComplete) (.created .planning loneTask)
      [.read 0 .runSchedulerLoop, .decide 0, .commit 0, .task .readyTasks, .task (.claim 0),
        .setPendingApproval true, .task (.report 0 .success), .read 0 .finalize, .decide 0,
        .commit 0, .setPendingApproval false, .read 1 .settleRunAfterApproval, .decide 1,
        .commit 1] := by
  refine (completed_run_is_complete .planning loneTask (.inr rfl) _ ?_).1
  refine ⟨trivial, fun session hs hw ↦ ?_, trivial, fun _ ↦ trivial, fun _ ↦ trivial, trivial,
    fun _ _ _ _ ↦ trivial, trivial, fun session hs hw ↦ ?_, trivial, trivial, trivial,
    fun _ _ _ ↦ .inr (.inr rfl), trivial, trivial⟩
  all_goals
    obtain rfl := Option.some.inj hs
    cases hw

def twoTasks : Engine where
  db :=
    { tasks := ⟨[(0, ⟨"deploy", "deployer", .planned, true, 0, 3, 600, none, none⟩),
        (1, ⟨"screen", "screener", .planned, true, 0, 3, 600, none, none⟩)], by decide⟩
      deps := [] }
  dispatches := []

/-- One task opens an approval, the other is blocked on stale data; the human decides before the
loop comes round to `_finalize`. -/
theorem run_completed_with_blocked_task :
    ¬ Along OrgRun.step (fun _ _ r ↦ r.CompletedIsComplete) (.created .planning twoTasks)
      [.read 0 .runSchedulerLoop, .decide 0, .commit 0, .task .readyTasks, .task (.claim 0),
        .task (.claim 1), .setPendingApproval true, .task (.report 0 .success),
        .task (.report 1 (.dataStale "ohlcv_daily")), .setPendingApproval false,
        .read 1 .settleRunAfterApproval, .decide 1, .commit 1] := by
  intro h
  have hlast := h.2.2.2.2.2.2.2.2.2.2.2.2.1 rfl 1 _ rfl
  rcases hlast with hst | hst <;> cases hst

end TradingOS.Orchestration
