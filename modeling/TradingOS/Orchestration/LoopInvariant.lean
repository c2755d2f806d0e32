import TradingOS.Orchestration.PlanFate

namespace TradingOS.Orchestration

open Lib Lib.Runs

def TaskDependency.reset (d : TaskDependency) : TaskDependency := { d with state := .unsatisfied }

namespace Db

def Completed (db : Db) (tid : TaskId) : Prop := db.statusOf tid = some .completed

def Terminated (db : Db) (tid : TaskId) : Prop := ∃ st, db.statusOf tid = some st ∧ st.isTerminal

def SameEnds (db db' : Db) : Prop :=
  ∀ tid st, st.isTerminal → (db'.statusOf tid = some st ↔ db.statusOf tid = some st)

theorem sameEnds_of_mapVals {db db' : Db} {f : TaskId → Task → Task}
    (hdb' : db'.tasks = db.tasks.mapVals f)
    (hf : ∀ tid t, db.tasks.get? tid = some t → (f tid t).status = t.status ∨
      t.status.isTerminal = false ∧ (f tid t).status.isTerminal = false) : SameEnds db db' := by
  intro tid st hst
  simp only [statusOf, hdb', Table.get?_mapVals]
  cases h : db.tasks.get? tid with
  | none => rfl
  | some t =>
    simp only [Option.map_some, Option.some.injEq]
    rcases hf tid t h with he | ⟨ht, hft⟩
    · rw [he]
    · constructor
      · rintro rfl
        rw [hst] at hft
        cases hft
      · rintro rfl
        rw [hst] at ht
        cases ht

theorem sameEnds_modifyTask {db : Db} {tid : TaskId} {t : Task} {f : Task → Task}
    (ht : db.tasks.get? tid = some t) (hf : (f t).status = t.status ∨
      t.status.isTerminal = false ∧ (f t).status.isTerminal = false) :
    SameEnds db (db.modifyTask tid f) := by
  have hmap : (db.modifyTask tid f).tasks = db.tasks.mapVals fun k t ↦ if k = tid then f t else t :=
    rfl
  refine sameEnds_of_mapVals hmap fun k t' ht' ↦ ?_
  by_cases hk : k = tid
  · subst hk
    obtain rfl := Option.some.inj (ht.symm.trans ht')
    simpa only [if_true] using hf
  · simp only [if_neg hk, true_or]

theorem sameEnds_readyTasks (db : Db) : SameEnds db db.readyTasks.1 := by
  refine sameEnds_of_mapVals rfl fun k t _ ↦ ?_
  simp only [settle]
  split
  · next hc =>
    refine .inr ⟨TaskStatus.not_isTerminal_of_isCandidate hc, ?_⟩
    dsimp only
    split <;> rfl
  · exact .inl rfl

theorem SameEnds.completed {db db' : Db} (h : SameEnds db db') {tid : TaskId} :
    db'.Completed tid ↔ db.Completed tid := h tid .completed rfl

theorem SameEnds.terminated {db db' : Db} (h : SameEnds db db') {tid : TaskId} :
    db'.Terminated tid ↔ db.Terminated tid :=
  exists_congr fun st ↦ ⟨fun ⟨h', ht⟩ ↦ ⟨(h tid st ht).mp h', ht⟩,
    fun ⟨h', ht⟩ ↦ ⟨(h tid st ht).mpr h', ht⟩⟩

theorem map_reset {f : TaskDependency → TaskDependency} (hf : ∀ d, (f d).reset = d.reset)
    (deps : List TaskDependency) : (deps.map f).map TaskDependency.reset =
      deps.map TaskDependency.reset := by
  simp only [List.map_map, Function.comp_def, hf]

end Db

namespace Plan

variable (p : Plan) (o : Outcomes) (attempts : TaskId → ℕ) (db : Db)

/-- What is left of the task's own fate is the fate it had in the plan. -/
def SameFate (tid : TaskId) (t : Task) : Prop :=
  ∀ st, p.OwnFate o tid st ↔ Settles (o tid) t.standing (attempts tid) st

def PrerequisitesCompleted (tid : TaskId) : Prop :=
  ∀ d ∈ p.db.deps, d.dependentTaskId = tid → db.Completed d.prerequisiteTaskId

def TaskSound (tid : TaskId) (t : Task) : Prop :=
  match t.status with
  | .planned | .waitingForDependency => p.SameFate o attempts tid t
  | .ready | .running | .retrying =>
    p.SameFate o attempts tid t ∧ p.PrerequisitesCompleted db tid
  | .completed => p.Completes o tid
  | .failed | .escalated => p.FailsItself o tid
  | .blocked => p.FailsItself o tid ∨
    ∃ d ∈ p.db.deps, d.dependentTaskId = tid ∧ p.FailsItself o d.prerequisiteTaskId
  | .created | .queued | .cancelled => False

def DepSound (d : TaskDependency) : Prop :=
  match d.state with
  | .satisfied => db.Completed d.prerequisiteTaskId
  | .failed => p.FailsItself o d.prerequisiteTaskId ∧ db.Terminated d.dependentTaskId
  | .unsatisfied => ¬ db.Completed d.prerequisiteTaskId ∧
    (p.FailsItself o d.prerequisiteTaskId → ¬ db.Terminated d.prerequisiteTaskId)

/-- The rows agree with the fates the plan and the outcomes give its tasks. -/
structure Sound : Prop where
  keys : db.tasks.keys = p.db.tasks.keys
  deps : db.deps.map TaskDependency.reset = p.db.deps
  task : ∀ tid t, db.tasks.get? tid = some t → p.TaskSound o attempts db tid t
  dep : ∀ d ∈ db.deps, p.DepSound o db d

variable {p o attempts db} {attempts' : TaskId → ℕ} {db' : Db} {tid : TaskId} {t : Task}

theorem TaskSound.mono (h : p.TaskSound o attempts db tid t) (hn : attempts' tid = attempts tid)
    (hc : ∀ k, db.Completed k → db'.Completed k) : p.TaskSound o attempts' db' tid t := by
  have hfate : p.SameFate o attempts tid t → p.SameFate o attempts' tid t := by
    simp only [SameFate, hn, imp_self]
  simp only [TaskSound] at h ⊢
  split <;> simp only [*] at h
  · exact hfate h
  · exact hfate h
  all_goals first
    | exact ⟨hfate h.1, fun d hd hk ↦ hc _ (h.2 d hd hk)⟩
    | exact h

theorem TaskSound.sameFate (h : p.TaskSound o attempts db tid t) (ht : t.status.isTerminal = false) :
    p.SameFate o attempts tid t := by
  simp only [TaskSound] at h
  cases hst : t.status <;> simp only [hst, TaskStatus.isTerminal] at h ht <;>
    first | exact h | exact h.1 | cases ht

theorem TaskSound.of_terminal (h : p.TaskSound o attempts db tid t) (ht : t.status.isTerminal) :
    t.status = .completed ∧ p.Completes o tid ∨ t.status ≠ .completed ∧ (p.FailsItself o tid ∨
      ∃ d ∈ p.db.deps, d.dependentTaskId = tid ∧ p.FailsItself o d.prerequisiteTaskId) := by
  simp only [TaskSound] at h
  cases hst : t.status <;> simp only [hst, TaskStatus.isTerminal] at h ht
  case completed => exact .inl ⟨rfl, h⟩
  case blocked => exact .inr ⟨by simp, h⟩
  case failed => exact .inr ⟨by simp, .inl h⟩
  case escalated => exact .inr ⟨by simp, .inl h⟩
  all_goals cases ht

namespace Sound

variable (h : p.Sound o attempts db)

include h

theorem mem_plan {d : TaskDependency} (hd : d ∈ db.deps) : d.reset ∈ p.db.deps := by
  rw [← h.deps]
  exact List.mem_map_of_mem hd

theorem exists_task (hk : tid ∈ p.db.tasks.keys) : ∃ t, db.tasks.get? tid = some t := by
  rw [← h.keys] at hk
  exact Option.ne_none_iff_exists'.mp fun hn ↦ db.tasks.get?_eq_none.mp hn hk

theorem policy {d : TaskDependency} (hd : d ∈ db.deps) : d.policy = .hard :=
  (p.hard _ (h.mem_plan hd)).1

theorem exists_row {d : TaskDependency} (hd : d ∈ p.db.deps) :
    ∃ d' ∈ db.deps, d'.dependentTaskId = d.dependentTaskId ∧
      d'.prerequisiteTaskId = d.prerequisiteTaskId := by
  rw [← h.deps] at hd
  obtain ⟨d', hd', rfl⟩ := List.mem_map.mp hd
  exact ⟨d', hd', rfl, rfl⟩

theorem completes (hc : db.Completed tid) : p.Completes o tid := by
  obtain ⟨t, ht, hst⟩ := Db.statusOf_eq_some.mp hc
  have hk := h.task tid t ht
  simpa only [TaskSound, hst] using hk

theorem satisfied_iff {d : TaskDependency} (hd : d ∈ db.deps) :
    d.state = .satisfied ↔ db.Completed d.prerequisiteTaskId := by
  have hk := h.dep d hd
  simp only [DepSound] at hk
  cases hst : d.state <;> simp only [hst] at hk
  · exact iff_of_false (by simp) hk.1
  · exact iff_of_true rfl hk
  · exact iff_of_false (by simp) fun hc ↦ (h.completes hc).not_failsItself hk.1

theorem hardSatisfied_iff : db.hardSatisfied tid = true ↔ p.PrerequisitesCompleted db tid := by
  simp only [Db.hardSatisfied, Db.hardDepsFor, List.all_eq_true, List.mem_filter,
    decide_eq_true_eq, and_imp]
  constructor
  · intro hall d hd htid
    obtain ⟨d', hd', hdep, hpre⟩ := h.exists_row hd
    rw [← hpre]
    exact (h.satisfied_iff hd').mp (hall d' hd' (hdep.trans htid) (h.policy hd'))
  · intro hall d hd htid _
    exact (h.satisfied_iff hd).mpr (hall d.reset (h.mem_plan hd) htid)

theorem running_satisfied (ht : db.tasks.get? tid = some t) (hrun : t.status = .running)
    {d : TaskDependency} (hd : d ∈ db.deps) (hdep : d.dependentTaskId = tid) :
    d.state = .satisfied := by
  have hk := h.task tid t ht
  simp only [TaskSound, hrun] at hk
  exact (h.satisfied_iff hd).mpr (hk.2 d.reset (h.mem_plan hd) hdep)

theorem quiet (hkeys : db'.tasks.keys = db.tasks.keys) (hdeps : db'.deps = db.deps)
    (hends : db.SameEnds db')
    (htask : ∀ tid t, db'.tasks.get? tid = some t → p.TaskSound o attempts' db' tid t) :
    p.Sound o attempts' db' where
  keys := hkeys.trans h.keys
  deps := by rw [hdeps, h.deps]
  task := htask
  dep := fun d hd ↦ by
    rw [hdeps] at hd
    have hk := h.dep d hd
    simp only [DepSound] at hk ⊢
    simpa only [hends.completed, hends.terminated] using hk

theorem readyTasks : p.Sound o attempts db.readyTasks.1 := by
  have hends := db.sameEnds_readyTasks
  refine h.quiet (Table.keys_mapVals _ _) rfl hends fun k t' ht' ↦ ?_
  obtain ⟨t, ht, rfl⟩ := Option.map_eq_some_iff.mp ((Table.get?_mapVals _ _ _).symm.trans ht')
  have hk := h.task k t ht
  simp only [Db.settle]
  split
  · next hc =>
    have hfate := hk.sameFate (TaskStatus.not_isTerminal_of_isCandidate hc)
    by_cases hsat : db.hardSatisfied k = true
    · rw [if_pos hsat]
      refine ⟨hfate, fun d hd hdep ↦ hends.completed.mpr ?_⟩
      exact h.hardSatisfied_iff.mp hsat d hd hdep
    · rw [if_neg hsat]
      exact hfate
  · exact hk.mono rfl fun _ ↦ hends.completed.mpr

theorem modifyTask {f : Task → Task} (ht : db.tasks.get? tid = some t)
    (hends : db.SameEnds (db.modifyTask tid f))
    (hother : ∀ k, k ≠ tid → attempts' k = attempts k)
    (htid : p.TaskSound o attempts' (db.modifyTask tid f) tid (f t)) :
    p.Sound o attempts' (db.modifyTask tid f) := by
  refine h.quiet (Table.keys_modify _ _ _) rfl hends fun k t' ht' ↦ ?_
  rw [Db.modifyTask_get?] at ht'
  split at ht'
  · next hk =>
    subst hk
    rw [ht] at ht'
    obtain rfl := Option.some.inj ht'
    exact htid
  · next hk => exact (h.task k t' ht').mono (hother k hk) fun _ ↦ hends.completed.mpr

end Sound

end Plan

namespace Db

/-- A running task gets its last status, and of the others only unfinished ones change. -/
structure Finishes (db : Db) (tid : TaskId) (t : Task) (f : Task → Task)
    (g : TaskId → Task → Task) (db' : Db) : Prop where
  get? : db.tasks.get? tid = some t
  running : t.status = .running
  terminal : (f t).status.isTerminal
  kept : ∀ k t, t.status.isTerminal → g k t = t
  tasks : db'.tasks = (db.modifyTask tid f).tasks.mapVals g

namespace Finishes

variable {db db' : Db} {tid k : TaskId} {t : Task} {f : Task → Task} {g : TaskId → Task → Task}
  (h : db.Finishes tid t f g db')

include h

theorem get?_self : db'.tasks.get? tid = some (f t) := by
  rw [h.tasks, Table.get?_mapVals, modifyTask_get?, if_pos rfl, h.get?, Option.map_some,
    Option.map_some, h.kept tid _ h.terminal]

theorem get?_ne (hk : k ≠ tid) : db'.tasks.get? k = (db.tasks.get? k).map (g k) := by
  rw [h.tasks, Table.get?_mapVals, modifyTask_get?, if_neg hk]

theorem keys : db'.tasks.keys = db.tasks.keys := by
  rw [h.tasks, Table.keys_mapVals]
  exact Table.keys_modify _ _ _

theorem statusOf_running : db.statusOf tid = some .running :=
  statusOf_eq_some.mpr ⟨t, h.get?, h.running⟩

theorem ne_of_terminal {st : TaskStatus} (hk : db.statusOf k = some st) (hst : st.isTerminal) :
    k ≠ tid := by
  rintro rfl
  rw [h.statusOf_running, Option.some.injEq] at hk
  subst hk
  cases hst

theorem statusOf_kept {st : TaskStatus} (hk : db.statusOf k = some st) (hst : st.isTerminal) :
    db'.statusOf k = some st := by
  have hne := h.ne_of_terminal hk hst
  obtain ⟨t', ht', rfl⟩ := statusOf_eq_some.mp hk
  refine statusOf_eq_some.mpr ⟨t', ?_, rfl⟩
  rw [h.get?_ne hne, ht', Option.map_some, h.kept k t' hst]

theorem completed_kept (hk : db.Completed k) : db'.Completed k := h.statusOf_kept hk rfl

theorem terminated_kept (hk : db.Terminated k) : db'.Terminated k := by
  obtain ⟨st, hst, hterm⟩ := hk
  exact ⟨st, h.statusOf_kept hst hterm, hterm⟩

theorem statusOf_of_ne {st : TaskStatus} (hk : k ≠ tid) (hst : db'.statusOf k = some st)
    (hg : ∀ t, (g k t).status = st → t.status = st) : db.statusOf k = some st := by
  obtain ⟨t', ht', he⟩ := statusOf_eq_some.mp hst
  rw [h.get?_ne hk] at ht'
  obtain ⟨t₀, ht₀, rfl⟩ := Option.map_eq_some_iff.mp ht'
  exact statusOf_eq_some.mpr ⟨t₀, ht₀, hg t₀ he⟩

theorem running_iff (hk : k ≠ tid) (hg : ∀ t, db.tasks.get? k = some t →
    ((g k t).status = .running ↔ t.status = .running)) :
    db'.statusOf k = some .running ↔ db.statusOf k = some .running := by
  simp only [statusOf, h.get?_ne hk]
  cases ht : db.tasks.get? k with
  | none => rfl
  | some t' => simpa only [Option.map_some, Option.some.injEq] using hg t' ht

theorem terminated_self : db'.Terminated tid :=
  ⟨_, statusOf_eq_some.mpr ⟨_, h.get?_self, rfl⟩, h.terminal⟩

end Finishes

variable {db : Db} {tid : TaskId} {t : Task}

theorem finishes_completed (ht : db.tasks.get? tid = some t) (hrun : t.status = .running) :
    db.Finishes tid t (fun t ↦ { t with status := .completed })
      ((db.modifyTask tid fun t ↦ { t with status := .completed }).wake tid)
      ((db.modifyTask tid fun t ↦ { t with status := .completed }).evaluateOnCompletion tid) :=
  ⟨ht, hrun, rfl, fun _ _ hterm ↦ by simp [wake, hterm], rfl⟩

theorem finishes_failed (ht : db.tasks.get? tid = some t) (hrun : t.status = .running)
    {f : Task → Task} (hf : (f t).status.isTerminal) (capability reason : String) :
    db.Finishes tid t f ((db.modifyTask tid f).block tid capability reason)
      ((db.modifyTask tid f).markUnsatisfiable tid capability reason) :=
  ⟨ht, hrun, hf, fun _ _ hterm ↦ by simp [block, hterm], rfl⟩

end Db

namespace Plan

variable {p : Plan} {o : Outcomes} {attempts attempts' : TaskId → ℕ} {db : Db} {tid : TaskId}
  {t : Task}

namespace Sound

theorem prerequisites_complete (h : p.Sound o attempts db) (ht : db.tasks.get? tid = some t)
    (hrun : t.status = .running) :
    ∀ d ∈ p.db.deps, d.dependentTaskId = tid → p.Completes o d.prerequisiteTaskId := by
  have hk := h.task tid t ht
  simp only [TaskSound, hrun] at hk
  exact fun d hd hdep ↦ h.completes (hk.2 d hd hdep)

theorem ownFate (h : p.Sound o attempts db) (ht : db.tasks.get? tid = some t)
    (hrun : t.status = .running) {st : TaskStatus}
    (hc : t.standing.conclude (o tid (attempts tid)) = .inl st) : p.OwnFate o tid st := by
  have hfate := (h.task tid t ht).sameFate (by rw [hrun]; rfl)
  exact (hfate st).mpr (.done hc)

theorem complete (h : p.Sound o attempts db) (ht : db.tasks.get? tid = some t)
    (hrun : t.status = .running)
    (hc : t.standing.conclude (o tid (attempts tid)) = .inl .completed)
    (hother : ∀ k, k ≠ tid → attempts' k = attempts k) :
    p.Sound o attempts'
      ((db.modifyTask tid fun t ↦ { t with status := .completed }).evaluateOnCompletion tid) := by
  let db₁ := db.modifyTask tid fun t ↦ { t with status := .completed }
  have hfin := Db.finishes_completed ht hrun
  have hself : (db₁.evaluateOnCompletion tid).Completed tid :=
    Db.statusOf_eq_some.mpr ⟨_, hfin.get?_self, rfl⟩
  have hcompletes : p.Completes o tid :=
    .intro (h.ownFate ht hrun hc) (h.prerequisites_complete ht hrun)
  refine ⟨hfin.keys.trans h.keys, ?_, ?_, ?_⟩
  · refine (Db.map_reset (fun d ↦ ?_) _).trans h.deps
    split <;> rfl
  · intro k t' ht'
    by_cases hk : k = tid
    · subst hk
      obtain rfl := Option.some.inj (hfin.get?_self.symm.trans ht')
      exact hcompletes
    · rw [hfin.get?_ne hk] at ht'
      obtain ⟨t₀, ht₀, rfl⟩ := Option.map_eq_some_iff.mp ht'
      rcases db₁.wake_cases tid k t₀ with he | ⟨he, hterm, hsat, -⟩
      · rw [he]
        exact (h.task k t₀ ht₀).mono (hother k hk) fun _ ↦ hfin.completed_kept
      · rw [he]
        have hfate := (h.task k t₀ ht₀).sameFate hterm
        refine ⟨fun st ↦ ?_, fun d hd hdep ↦ ?_⟩
        · rw [hother k hk]
          exact hfate st
        · obtain ⟨d', hd', hdep', hpre⟩ := h.exists_row hd
          rw [← hpre]
          rcases Db.state_of_satisfyDeps hsat hd' (hdep'.trans hdep) (h.policy hd') with he | hs
          · rw [he]
            exact hself
          · exact hfin.completed_kept ((h.satisfied_iff hd').mp hs)
  · intro d' hd'
    obtain ⟨d, hd, rfl⟩ := List.mem_map.mp hd'
    have hsound := h.dep d hd
    by_cases hs : Db.satisfiedBy tid d = true
    · have hpre : d.prerequisiteTaskId = tid := (of_decide_eq_true hs).1
      rw [if_pos hs]
      show Db.Completed _ d.prerequisiteTaskId
      rw [hpre]
      exact hself
    · rw [if_neg hs]
      simp only [DepSound] at hsound ⊢
      cases hst : d.state <;> simp only [hst] at hsound ⊢
      · have hpre : d.prerequisiteTaskId ≠ tid := fun he ↦ hs (decide_eq_true ⟨he, hst⟩)
        have hback : ∀ st : TaskStatus, st.isTerminal →
            (db₁.evaluateOnCompletion tid).statusOf d.prerequisiteTaskId = some st →
            db.statusOf d.prerequisiteTaskId = some st := by
          intro st hterm hk
          refine hfin.statusOf_of_ne hpre hk fun t' he ↦ ?_
          rcases db₁.wake_cases tid d.prerequisiteTaskId t' with hw | ⟨hw, -⟩
          · rwa [hw] at he
          · rw [hw] at he
            subst he
            cases hterm
        refine ⟨fun hc ↦ hsound.1 (hback _ rfl hc), fun hf ⟨st, hk, hterm⟩ ↦ ?_⟩
        exact hsound.2 hf ⟨st, hback st hterm hk, hterm⟩
      · exact hfin.completed_kept hsound
      · exact ⟨hsound.1, hfin.terminated_kept hsound.2⟩

theorem complete_running (h : p.Sound o attempts db) (ht : db.tasks.get? tid = some t)
    (hrun : t.status = .running) {k : TaskId} (hk : k ≠ tid) :
    ((db.modifyTask tid fun t ↦ { t with status := .completed }).evaluateOnCompletion tid).statusOf k
      = some .running ↔ db.statusOf k = some .running := by
  let db₁ := db.modifyTask tid fun t ↦ { t with status := .completed }
  have hfin := Db.finishes_completed ht hrun
  refine hfin.running_iff hk fun t' ht' ↦ ?_
  rcases db₁.wake_cases tid k t' with he | ⟨he, -, -, d, hd, hs, hdep⟩
  · rw [he]
  · rw [he]
    refine iff_of_false (by simp) fun hrun' ↦ ?_
    have hsat := h.running_satisfied ht' hrun' hd hdep
    rw [(of_decide_eq_true hs).2] at hsat
    cases hsat

section Fail

variable {f : Task → Task} {capability reason : String}
  (hfin : db.Finishes tid t f ((db.modifyTask tid f).block tid capability reason)
    ((db.modifyTask tid f).markUnsatisfiable tid capability reason))

include hfin

theorem fail_dependent (h : p.Sound o attempts db) {d : TaskDependency} (hd : d ∈ db.deps)
    (hs : Db.failedBy tid d) :
    ((db.modifyTask tid f).markUnsatisfiable tid capability reason).Terminated
      d.dependentTaskId := by
  by_cases hk : d.dependentTaskId = tid
  · rw [hk]
    exact hfin.terminated_self
  · obtain ⟨t₀, ht₀⟩ := h.exists_task (p.dependent_mem _ (h.mem_plan hd))
    have hget := hfin.get?_ne hk
    rw [show db.tasks.get? d.dependentTaskId = some t₀ from ht₀, Option.map_some] at hget
    exact ⟨_, Db.statusOf_eq_some.mpr ⟨_, hget, rfl⟩, Db.block_status_isTerminal hd hs t₀⟩

variable (hfails : p.FailsItself o tid)

include hfails

/-- The other tasks: what the failed one blocks does not complete. -/
theorem fail_task (h : p.Sound o attempts db) {k : TaskId} (hk : k ≠ tid)
    (hother : attempts' k = attempts k) {t' : Task}
    (ht' : ((db.modifyTask tid f).markUnsatisfiable tid capability reason).tasks.get? k =
      some t') :
    p.TaskSound o attempts' ((db.modifyTask tid f).markUnsatisfiable tid capability reason) k
      t' := by
  rw [hfin.get?_ne hk] at ht'
  obtain ⟨t₀, ht₀, rfl⟩ := Option.map_eq_some_iff.mp ht'
  rcases (db.modifyTask tid f).block_cases tid k capability reason t₀ with
    he | ⟨he, -, d, hd, hfb, hdep⟩
  · rw [he]
    exact (h.task k t₀ ht₀).mono hother fun _ ↦ hfin.completed_kept
  · have hpre : d.prerequisiteTaskId = tid := (of_decide_eq_true hfb).1
    simp only [TaskSound]
    rw [he]
    refine .inr ⟨d.reset, h.mem_plan hd, hdep, ?_⟩
    rw [show d.reset.prerequisiteTaskId = tid from hpre]
    exact hfails

/-- A prerequisite that fails by itself has ended no more than before: what the failed task blocks
waits for one that does not complete. -/
theorem fail_prerequisite (h : p.Sound o attempts db) {k : TaskId} (hk : k ≠ tid)
    (hfp : p.FailsItself o k)
    (hterm : ((db.modifyTask tid f).markUnsatisfiable tid capability reason).Terminated k) :
    db.Terminated k := by
  obtain ⟨st', hst', hterm⟩ := hterm
  obtain ⟨t', ht', rfl⟩ := Db.statusOf_eq_some.mp hst'
  rw [hfin.get?_ne hk] at ht'
  obtain ⟨t₀, ht₀, rfl⟩ := Option.map_eq_some_iff.mp ht'
  rcases (db.modifyTask tid f).block_cases tid k capability reason t₀ with
    hb | ⟨-, -, d, hd, hfb, hdep⟩
  · rw [hb] at hterm
    exact ⟨_, Db.statusOf_eq_some.mpr ⟨t₀, ht₀, rfl⟩, hterm⟩
  · have hpre : d.reset.prerequisiteTaskId = tid := (of_decide_eq_true hfb).1
    have hcompletes := hfp.2 d.reset (h.mem_plan hd) hdep
    rw [hpre] at hcompletes
    exact absurd hfails hcompletes.not_failsItself

end Fail

theorem fail (h : p.Sound o attempts db) (ht : db.tasks.get? tid = some t)
    (hrun : t.status = .running) {f : Task → Task} {st : TaskStatus} (hf : (f t).status = st)
    (hst : st = .failed ∨ st = .blocked ∨ st = .escalated)
    (hc : t.standing.conclude (o tid (attempts tid)) = .inl st)
    (hother : ∀ k, k ≠ tid → attempts' k = attempts k) (capability reason : String) :
    p.Sound o attempts' ((db.modifyTask tid f).markUnsatisfiable tid capability reason) := by
  have hterm : (f t).status.isTerminal = true := by
    rcases hst with rfl | rfl | rfl <;> rw [hf] <;> rfl
  have hfin := Db.finishes_failed ht hrun hterm capability reason
  have hfails : p.FailsItself o tid :=
    ⟨⟨st, by rcases hst with rfl | rfl | rfl <;> simp, h.ownFate ht hrun hc⟩,
      h.prerequisites_complete ht hrun⟩
  refine ⟨hfin.keys.trans h.keys, ?_, ?_, ?_⟩
  · refine (Db.map_reset (fun d ↦ ?_) _).trans h.deps
    split <;> rfl
  · intro k t' ht'
    by_cases hk : k = tid
    · subst hk
      obtain rfl := Option.some.inj (hfin.get?_self.symm.trans ht')
      simp only [TaskSound]
      rcases hst with rfl | rfl | rfl <;> rw [hf]
      · exact hfails
      · exact .inl hfails
      · exact hfails
    · exact fail_task hfin hfails h hk (hother k hk) ht'
  · intro d' hd'
    obtain ⟨d, hd, rfl⟩ := List.mem_map.mp hd'
    have hsound := h.dep d hd
    by_cases hs : Db.failedBy tid d = true
    · have hpre : d.prerequisiteTaskId = tid := (of_decide_eq_true hs).1
      rw [if_pos hs]
      have hended := fail_dependent hfin h hd hs
      refine ⟨?_, hended⟩
      rw [show d.prerequisiteTaskId = tid from hpre]
      exact hfails
    · rw [if_neg hs]
      simp only [DepSound] at hsound ⊢
      cases hst' : d.state <;> simp only [hst'] at hsound ⊢
      · have hpre : d.prerequisiteTaskId ≠ tid := fun he ↦
          hs (decide_eq_true ⟨he, h.policy hd, by simp [hst']⟩)
        refine ⟨fun hc ↦ hsound.1 ?_,
          fun hfp hended ↦ hsound.2 hfp (fail_prerequisite hfin hfails h hpre hfp hended)⟩
        refine hfin.statusOf_of_ne hpre hc fun t' he ↦ ?_
        rcases (db.modifyTask tid f).block_cases tid d.prerequisiteTaskId capability reason t' with
          hb | ⟨hb, -⟩
        · rwa [hb] at he
        · rw [hb] at he
          cases he
      · exact hfin.completed_kept hsound
      · exact ⟨hsound.1, hfin.terminated_kept hsound.2⟩

theorem fail_running (h : p.Sound o attempts db) (ht : db.tasks.get? tid = some t)
    (hrun : t.status = .running) {f : Task → Task} (hf : (f t).status.isTerminal)
    (capability reason : String) {k : TaskId} (hk : k ≠ tid) :
    ((db.modifyTask tid f).markUnsatisfiable tid capability reason).statusOf k = some .running ↔
      db.statusOf k = some .running := by
  let db₁ := db.modifyTask tid f
  have hfin := Db.finishes_failed ht hrun hf capability reason
  refine hfin.running_iff hk fun t' ht' ↦ ?_
  rcases db₁.block_cases tid k capability reason t' with he | ⟨he, -, d, hd, hfb, hdep⟩
  · rw [he]
  · rw [he]
    refine iff_of_false (by simp) fun hrun' ↦ ?_
    exact (of_decide_eq_true hfb).2.2 (h.running_satisfied ht' hrun' hd hdep)

end Sound

end Plan

end TradingOS.Orchestration
