import TradingOS.Orchestration.LoopInvariant

namespace TradingOS.Orchestration

open Lib Lib.Runs

/-- The statuses that only a report can take a task out of. -/
def TaskStatus.isStopped : TaskStatus → Bool
  | failed | blocked | escalated | cancelled => true
  | _ => false

/-- A dependency up to the difference between unsatisfied and failed. -/
def TaskDependency.mark (d : TaskDependency) : TaskDependency :=
  { d with state := if d.state = .satisfied then .satisfied else .unsatisfied }

theorem TaskDependency.reset_mark (d : TaskDependency) : d.mark.reset = d.reset := rfl

theorem TaskDependency.mark_state {d : TaskDependency} :
    d.mark.state = .satisfied ↔ d.state = .satisfied := by
  by_cases h : d.state = .satisfied <;> simp [mark, h]

namespace Db

variable {db db' : Db} {tid k : TaskId}

/-- Nothing happens to the task, or it is stopped short of its completion. -/
def Halted (db db' : Db) (k : TaskId) : Prop :=
  db'.statusOf k = db.statusOf k ∨ ∃ st st', db.statusOf k = some st ∧ st ≠ .completed ∧
    db'.statusOf k = some st' ∧ st'.isStopped

theorem Halted.completed (h : Halted db db' k) : db'.Completed k ↔ db.Completed k := by
  rcases h with h | ⟨st, st', hst, hne, hst', hstopped⟩
  · rw [Completed, Completed, h]
  · refine iff_of_false (fun hc ↦ ?_) fun hc ↦ hne (Option.some.inj (hst.symm.trans hc))
    obtain rfl := Option.some.inj (hst'.symm.trans hc)
    cases hstopped

/-- A transaction that rewrites a task's row either keeps its status or changes it as told. -/
theorem statusOf_of_map {f : Task → Task} {p : Task → Prop}
    (hdb' : db'.tasks.get? k = (db.tasks.get? k).map f)
    (hf : ∀ t, db.tasks.get? k = some t → (f t).status = t.status ∨ p t) :
    db'.statusOf k = db.statusOf k ∨
      ∃ t, db.tasks.get? k = some t ∧ db'.statusOf k = some (f t).status ∧ p t := by
  simp only [statusOf, hdb']
  cases ht : db.tasks.get? k with
  | none => exact .inl rfl
  | some t => exact (hf t ht).imp (congrArg some) fun hp ↦ ⟨t, rfl, rfl, hp⟩

theorem halted_of_map {f : TaskId → Task → Task}
    (hdb' : ∀ k, db'.tasks.get? k = (db.tasks.get? k).map (f k))
    (hf : ∀ t, db.tasks.get? k = some t → (f k t).status = t.status ∨
      t.status ≠ .completed ∧ (f k t).status.isStopped) : Halted db db' k := by
  refine (statusOf_of_map (hdb' k) hf).imp_right ?_
  rintro ⟨t, ht, hst, hne, hstopped⟩
  exact ⟨t.status, (f k t).status, statusOf_eq_some.mpr ⟨t, ht, rfl⟩, hne, hst, hstopped⟩

theorem hardSatisfied_iff : db.hardSatisfied tid ↔
    ∀ d ∈ db.deps, d.dependentTaskId = tid → d.policy = .hard → d.state = .satisfied := by
  simp only [hardSatisfied, hardDepsFor, List.all_eq_true, List.mem_filter, decide_eq_true_eq, and_imp]

theorem exists_mark_eq (h : db'.deps.map TaskDependency.mark = db.deps.map TaskDependency.mark)
    {d : TaskDependency} (hd : d ∈ db'.deps) : ∃ d' ∈ db.deps, d'.mark = d.mark := by
  have hmem : d.mark ∈ db.deps.map TaskDependency.mark := h ▸ List.mem_map_of_mem hd
  exact List.mem_map.mp hmem

theorem hardSatisfied_of_mark
    (h : db'.deps.map TaskDependency.mark = db.deps.map TaskDependency.mark)
    (hsat : db.hardSatisfied tid) : db'.hardSatisfied tid := by
  rw [hardSatisfied_iff] at hsat ⊢
  intro d hd hdep hhard
  obtain ⟨d', hd', hmark⟩ := exists_mark_eq h hd
  have hdep' : d'.dependentTaskId = tid := (congrArg TaskDependency.dependentTaskId hmark).trans hdep
  have hhard' : d'.policy = .hard := (congrArg TaskDependency.policy hmark).trans hhard
  rw [← TaskDependency.mark_state, ← hmark, TaskDependency.mark_state]
  exact hsat d' hd' hdep' hhard'

theorem hardSatisfied_satisfyDeps (hsat : db.hardSatisfied k) :
    (db.satisfyDeps tid).hardSatisfied k := by
  rw [hardSatisfied_iff] at hsat ⊢
  intro d hd hdep hhard
  obtain ⟨d', hd', rfl⟩ := List.mem_map.mp hd
  split_ifs at hdep hhard ⊢
  · rfl
  · exact hsat d' hd' hdep hhard

/-- A task that waits for nothing is woken by no completion. -/
theorem not_satisfiedBy (hhard : ∀ d ∈ db.deps, d.policy = .hard) (hsat : db.hardSatisfied k)
    {d : TaskDependency} (hd : d ∈ db.deps) (hdep : d.dependentTaskId = k) :
    ¬ satisfiedBy tid d := by
  intro hby
  have hsatisfied := hardSatisfied_iff.mp hsat d hd hdep (hhard d hd)
  rw [(of_decide_eq_true hby).2] at hsatisfied
  cases hsatisfied

end Db

/-- A task is let run on top of completed prerequisites only, and has at most one dispatch under
way, which a completed task has not. -/
structure Db.Orderly (db : Db) (live : List TaskId) : Prop where
  hard : ∀ d ∈ db.deps, d.policy = .hard
  satisfied : ∀ d ∈ db.deps, d.state = .satisfied → db.Completed d.prerequisiteTaskId
  started : ∀ tid st, db.statusOf tid = some st → st = .ready ∨ st = .running → db.hardSatisfied tid
  dispatched : ∀ tid ∈ live, db.hardSatisfied tid ∧
    ∃ st, db.statusOf tid = some st ∧ (st = .running ∨ st.isStopped)
  nodup : live.Nodup

namespace Db.Orderly

variable {db db' : Db} {live live' : List TaskId} {tid : TaskId}

theorem of_mark (h : Orderly db live)
    (hdeps : db'.deps.map TaskDependency.mark = db.deps.map TaskDependency.mark)
    (hcompleted : ∀ k, db.Completed k → db'.Completed k)
    (hstarted : ∀ k st, db'.statusOf k = some st → st = .ready ∨ st = .running → db.hardSatisfied k)
    (hlive : ∀ k ∈ live', db.hardSatisfied k ∧
      ∃ st, db'.statusOf k = some st ∧ (st = .running ∨ st.isStopped))
    (hnodup : live'.Nodup) : Orderly db' live' where
  hard d hd := by
    obtain ⟨d', hd', hmark⟩ := exists_mark_eq hdeps hd
    exact (congrArg TaskDependency.policy hmark).symm.trans (h.hard d' hd')
  satisfied d hd hst := by
    obtain ⟨d', hd', hmark⟩ := exists_mark_eq hdeps hd
    rw [← TaskDependency.mark_state, ← hmark, TaskDependency.mark_state] at hst
    change db'.Completed d.mark.prerequisiteTaskId
    rw [← hmark]
    exact hcompleted _ (h.satisfied d' hd' hst)
  started k st hk hst := hardSatisfied_of_mark hdeps (hstarted k st hk hst)
  dispatched k hk := ⟨hardSatisfied_of_mark hdeps (hlive k hk).1, (hlive k hk).2⟩
  nodup := hnodup

/-- What goes on after a halt went on before it. -/
theorem started_of_halted (h : Orderly db live) {k : TaskId} (hhalt : Halted db db' k)
    {st : TaskStatus} (hk : db'.statusOf k = some st) (hst : st = .ready ∨ st = .running) :
    db.hardSatisfied k := by
  rcases hhalt with he | ⟨-, st', -, -, hst', hstopped⟩
  · exact h.started k st (he ▸ hk) hst
  · obtain rfl := Option.some.inj (hk.symm.trans hst')
    rcases hst with rfl | rfl <;> cases hstopped

theorem live_of_halted (h : Orderly db live) {k : TaskId} (hk : k ∈ live) (hhalt : Halted db db' k) :
    db.hardSatisfied k ∧ ∃ st, db'.statusOf k = some st ∧ (st = .running ∨ st.isStopped) := by
  obtain ⟨hsat, st, hst, hrun⟩ := h.dispatched k hk
  refine ⟨hsat, ?_⟩
  rcases hhalt with he | ⟨-, st', -, -, hst', hstopped⟩
  · exact ⟨st, he ▸ hst, hrun⟩
  · exact ⟨st', hst', .inr hstopped⟩

theorem halt (h : Orderly db live)
    (hdeps : db'.deps.map TaskDependency.mark = db.deps.map TaskDependency.mark)
    (hhalt : ∀ k, Halted db db' k) : Orderly db' live :=
  h.of_mark hdeps (fun k ↦ (hhalt k).completed.mpr)
    (fun k _ hk hst ↦ h.started_of_halted (hhalt k) hk hst)
    (fun k hk ↦ h.live_of_halted hk (hhalt k)) h.nodup

theorem not_completed (h : Orderly db live) (htid : tid ∈ live) : ¬ db.Completed tid := by
  intro hc
  obtain ⟨-, st, hst, hrun⟩ := h.dispatched tid htid
  obtain rfl := Option.some.inj (hst.symm.trans hc)
  rcases hrun with hrun | hrun <;> cases hrun

/-- A report that is not a success ends its dispatch, and may have the task dispatched again. -/
theorem report (h : Orderly db live) (htid : tid ∈ live)
    (hdeps : db'.deps.map TaskDependency.mark = db.deps.map TaskDependency.mark)
    (hhalt : ∀ k, k ≠ tid → Halted db db' k) (hsub : live'.Sublist live) (hnot : tid ∉ live') :
    Orderly db' live' := by
  refine h.of_mark hdeps (fun k hk ↦ ?_) (fun k st hk hst ↦ ?_) (fun k hk ↦ ?_)
    (h.nodup.sublist hsub)
  · have hne : k ≠ tid := by
      rintro rfl
      exact h.not_completed htid hk
    exact (hhalt k hne).completed.mpr hk
  · by_cases hne : k = tid
    · exact hne ▸ (h.dispatched tid htid).1
    · exact h.started_of_halted (hhalt k hne) hk hst
  · have hne : k ≠ tid := by
      rintro rfl
      exact hnot hk
    exact h.live_of_halted (hsub.subset hk) (hhalt k hne)

end Db.Orderly

namespace Db

variable {db : Db} {live live' : List TaskId} {tid k : TaskId}

theorem markUnsatisfiable_mark (db : Db) (tid : TaskId) (capability reason : String) :
    (db.markUnsatisfiable tid capability reason).deps.map TaskDependency.mark =
      db.deps.map TaskDependency.mark := by
  simp only [markUnsatisfiable, List.map_map]
  refine List.map_congr_left fun d _ ↦ ?_
  simp only [Function.comp_apply]
  split_ifs with hf
  · have hne : d.state ≠ .satisfied := (of_decide_eq_true hf).2.2
    simp [TaskDependency.mark, hne]
  · rfl

theorem statusOf_modifyTask_ne {f : Task → Task} (hk : k ≠ tid) :
    (db.modifyTask tid f).statusOf k = db.statusOf k := by
  rw [statusOf, modifyTask_get?, if_neg hk]
  rfl

theorem statusOf_modifyTask_self {f : Task → Task} :
    (db.modifyTask tid f).statusOf tid = (db.tasks.get? tid).map fun t ↦ (f t).status := by
  rw [statusOf, modifyTask_get?, if_pos rfl, Option.map_map]
  rfl

theorem halted_fail {f : Task → Task} (hne : ¬ db.Completed tid) (hf : ∀ t, (f t).status.isStopped)
    (capability reason : String) (k : TaskId) :
    Halted db ((db.modifyTask tid f).markUnsatisfiable tid capability reason) k := by
  let g : TaskId → Task → Task := fun k t ↦
    (db.modifyTask tid f).block tid capability reason k (if k = tid then f t else t)
  have hget (k : TaskId) : ((db.modifyTask tid f).markUnsatisfiable tid capability reason).tasks.get? k =
      (db.tasks.get? k).map (g k) := by
    simp only [markUnsatisfiable, Table.get?_mapVals, modifyTask_get?, g]
    split_ifs <;> simp [Function.comp_def]
  refine halted_of_map hget fun t ht ↦ ?_
  simp only [g]
  by_cases hk : k = tid
  · subst hk
    have hst : t.status ≠ .completed := fun he ↦ hne (statusOf_eq_some.mpr ⟨t, ht, he⟩)
    rw [if_pos rfl]
    rcases block_cases (db.modifyTask k f) k k capability reason (f t) with hb | ⟨hb, -⟩
    · rw [hb]
      exact .inr ⟨hst, hf t⟩
    · rw [hb]
      exact .inr ⟨hst, rfl⟩
  · rw [if_neg hk]
    rcases block_cases (db.modifyTask tid f) tid k capability reason t with hb | ⟨hb, hterm, -⟩
    · rw [hb]
      exact .inl rfl
    · rw [hb]
      refine .inr ⟨fun he ↦ ?_, rfl⟩
      rw [he] at hterm
      cases hterm

theorem halted_handleTaskTimeout (db : Db) (tid k : TaskId) : Halted db (db.handleTaskTimeout tid) k := by
  simp only [handleTaskTimeout]
  split
  · exact .inl rfl
  · next task htask =>
    split_ifs with hrun
    · refine halted_fail (fun hc ↦ ?_) (fun _ ↦ rfl) _ _ k
      obtain ⟨t, ht, hst⟩ := statusOf_eq_some.mp hc
      obtain rfl := Option.some.inj (ht.symm.trans htask)
      rw [hrun] at hst
      cases hst
    · exact .inl rfl

theorem handleTaskTimeout_mark (db : Db) (tid : TaskId) :
    (db.handleTaskTimeout tid).deps.map TaskDependency.mark = db.deps.map TaskDependency.mark := by
  simp only [handleTaskTimeout]
  split
  · rfl
  · split_ifs
    · exact markUnsatisfiable_mark _ _ _ _
    · rfl

theorem halted_cancelTasks (db : Db) (k : TaskId) : Halted db db.cancelTasks k := by
  refine halted_of_map (Table.get?_mapVals _ _) fun t _ ↦ ?_
  split_ifs with hst
  · exact .inl rfl
  · exact .inr ⟨fun he ↦ hst (by simp [he]), rfl⟩

theorem claim_eq_some {db' : Db} : db.claim tid = some db' ↔
    db.statusOf tid = some .ready ∧ db' = db.modifyTask tid fun t ↦ { t with status := .running } := by
  simp only [claim]
  split_ifs with h
  · simp [h, eq_comm]
  · simp [h]

theorem completed_claim {db' : Db} (h : db.claim tid = some db') (k : TaskId) :
    db'.Completed k ↔ db.Completed k := by
  obtain ⟨hready, rfl⟩ := claim_eq_some.mp h
  obtain ⟨t, ht, hst⟩ := statusOf_eq_some.mp hready
  exact (sameEnds_modifyTask ht (.inr ⟨by rw [hst]; rfl, rfl⟩)).completed

/-- The task is stopped, or put back to be dispatched again; others are at most stopped. -/
structure Fails (db db' : Db) (tid : TaskId) : Prop where
  mark : db'.deps.map TaskDependency.mark = db.deps.map TaskDependency.mark
  halted : ∀ k, k ≠ tid → Halted db db' k
  not_completed : ¬ db'.Completed tid

theorem fails_refl (hne : ¬ db.Completed tid) : Fails db db tid := ⟨rfl, fun _ _ ↦ .inl rfl, hne⟩

theorem fails_stop (hne : ¬ db.Completed tid) {f : Task → Task} (hf : ∀ t, (f t).status.isStopped)
    (capability reason : String) :
    Fails db ((db.modifyTask tid f).markUnsatisfiable tid capability reason) tid where
  mark := markUnsatisfiable_mark _ _ _ _
  halted k _ := halted_fail hne hf capability reason k
  not_completed hc := hne ((halted_fail hne hf capability reason tid).completed.mp hc)

theorem fails_again {f : Task → Task} (hf : ∀ t, (f t).status ≠ .completed) :
    Fails db (db.modifyTask tid f) tid where
  mark := rfl
  halted k hk := .inl (statusOf_modifyTask_ne hk)
  not_completed hc := by
    obtain ⟨t, ht, hst⟩ := statusOf_eq_some.mp hc
    rw [modifyTask_get?, if_pos rfl] at ht
    obtain ⟨t, -, rfl⟩ := Option.map_eq_some_iff.mp ht
    exact hf t hst

theorem fails_report {outcome : DispatchOutcome} (hout : outcome ≠ .success)
    (hne : ¬ db.Completed tid) : Fails db (db.runDispatchAndComplete tid outcome) tid := by
  cases outcome with
  | success => exact absurd rfl hout
  | raised error =>
    simp only [runDispatchAndComplete, handleTaskFailure]
    split
    · exact fails_refl hne
    · split_ifs
      · refine fails_again fun t ht ↦ ?_
        cases ht
      · exact fails_stop hne (fun _ ↦ rfl) _ _
  | dataStale dataset =>
    simp only [runDispatchAndComplete, handleDataStale]
    split
    · exact fails_refl hne
    · exact fails_stop hne (fun _ ↦ rfl) _ _
  | agentUnavailable error registry =>
    simp only [runDispatchAndComplete, handleAgentUnavailable]
    split
    · exact fails_refl hne
    · split
      · refine fails_again fun t ht ↦ ?_
        cases ht
      · exact fails_stop hne (fun _ ↦ rfl) _ _

end Db

namespace Db.Orderly

variable {db : Db} {live live' : List TaskId} {tid : TaskId}

theorem readyTasks (h : Orderly db live) : Orderly db.readyTasks.1 live := by
  have hget (k : TaskId) : db.readyTasks.1.tasks.get? k = (db.tasks.get? k).map (db.settle k) :=
    Table.get?_mapVals _ _ _
  have hkept {k : TaskId} {st : TaskStatus} (hk : db.statusOf k = some st)
      (hst : st.isCandidate = false) : db.readyTasks.1.statusOf k = some st := by
    obtain ⟨t, ht, rfl⟩ := statusOf_eq_some.mp hk
    refine statusOf_eq_some.mpr ⟨_, (hget k).trans (congrArg _ ht), ?_⟩
    simp [settle, hst]
  refine h.of_mark rfl (fun k hk ↦ hkept hk rfl) (fun k st hk hst ↦ ?_) (fun k hk ↦ ?_) h.nodup
  · obtain ⟨t', ht', rfl⟩ := statusOf_eq_some.mp hk
    rw [hget] at ht'
    obtain ⟨t, ht, rfl⟩ := Option.map_eq_some_iff.mp ht'
    simp only [settle] at hst
    split_ifs at hst with hcand hsat
    · exact hsat
    · rcases hst with hst | hst <;> cases hst
    · exact h.started k t.status (statusOf_eq_some.mpr ⟨t, ht, rfl⟩) hst
  · obtain ⟨hsat, st, hst, hrun⟩ := h.dispatched k hk
    refine ⟨hsat, st, hkept hst ?_, hrun⟩
    rcases hrun with rfl | hstopped
    · rfl
    · cases st <;> first | rfl | cases hstopped

theorem claim (h : Orderly db live) {db' : Db} (hclaim : db.claim tid = some db') :
    Orderly db' (tid :: live) := by
  obtain ⟨hready, rfl⟩ := claim_eq_some.mp hclaim
  have hfree : tid ∉ live := by
    intro htid
    obtain ⟨-, st, hst, hrun⟩ := h.dispatched tid htid
    obtain rfl := Option.some.inj (hst.symm.trans hready)
    rcases hrun with hrun | hrun <;> cases hrun
  have hself : (db.modifyTask tid fun t ↦ { t with status := .running }).statusOf tid =
      some .running := by
    obtain ⟨t, ht, -⟩ := statusOf_eq_some.mp hready
    rw [statusOf_modifyTask_self, ht]
    rfl
  have hsat := h.started tid .ready hready (.inl rfl)
  refine h.of_mark rfl (fun k hk ↦ ?_) (fun k st hk hst ↦ ?_) (fun k hk ↦ ?_)
    (h.nodup.cons hfree)
  · have hne : k ≠ tid := by
      rintro rfl
      cases hready.symm.trans hk
    exact (statusOf_modifyTask_ne hne).trans hk
  · by_cases hne : k = tid
    · exact hne ▸ hsat
    · exact h.started k st ((statusOf_modifyTask_ne hne).symm.trans hk) hst
  · rcases List.mem_cons.mp hk with rfl | hlive
    · exact ⟨hsat, .running, hself, .inl rfl⟩
    · have hne : k ≠ tid := by
        rintro rfl
        exact hfree hlive
      obtain ⟨hksat, st, hst, hrun⟩ := h.dispatched k hlive
      exact ⟨hksat, st, (statusOf_modifyTask_ne hne).trans hst, hrun⟩

/-- The one way into `completed`. -/
theorem complete (h : Orderly db live) (hrun : db.statusOf tid = some .running)
    (hsub : live'.Sublist live) (hnot : tid ∉ live') :
    Orderly ((db.modifyTask tid fun t ↦ { t with status := .completed }).evaluateOnCompletion tid)
      live' := by
  obtain ⟨t, ht, hst⟩ := statusOf_eq_some.mp hrun
  have hfin := finishes_completed ht hst
  let db₁ := db.modifyTask tid fun t ↦ { t with status := .completed }
  have hself : (db₁.evaluateOnCompletion tid).Completed tid :=
    statusOf_eq_some.mpr ⟨_, hfin.get?_self, rfl⟩
  have hmono {k : TaskId} (hk : db.hardSatisfied k) : (db₁.evaluateOnCompletion tid).hardSatisfied k :=
    @hardSatisfied_satisfyDeps db₁ tid k hk
  refine ⟨fun d hd ↦ ?_, fun d hd hsat ↦ ?_, fun k st hk hkst ↦ ?_, fun k hk ↦ ?_,
    h.nodup.sublist hsub⟩
  · obtain ⟨d', hd', rfl⟩ := List.mem_map.mp hd
    split_ifs <;> exact h.hard d' hd'
  · obtain ⟨d', hd', rfl⟩ := List.mem_map.mp hd
    by_cases hby : satisfiedBy tid d' = true
    · rw [if_pos hby]
      change (db₁.evaluateOnCompletion tid).Completed d'.prerequisiteTaskId
      rw [(of_decide_eq_true hby).1]
      exact hself
    · rw [if_neg hby] at hsat ⊢
      exact hfin.completed_kept (h.satisfied d' hd' hsat)
  · by_cases hne : k = tid
    · subst hne
      obtain rfl := Option.some.inj (hk.symm.trans hself)
      rcases hkst with hkst | hkst <;> cases hkst
    · obtain ⟨t', ht', rfl⟩ := statusOf_eq_some.mp hk
      rw [hfin.get?_ne hne] at ht'
      obtain ⟨t₀, ht₀, rfl⟩ := Option.map_eq_some_iff.mp ht'
      rcases db₁.wake_cases tid k t₀ with hw | ⟨-, -, hwoken, -⟩
      · rw [hw] at hkst
        exact hmono (h.started k t₀.status (statusOf_eq_some.mpr ⟨t₀, ht₀, rfl⟩) hkst)
      · exact hwoken
  · have hne : k ≠ tid := by
      rintro rfl
      exact hnot hk
    obtain ⟨hksat, st, hkst, hgo⟩ := h.dispatched k (hsub.subset hk)
    refine ⟨hmono hksat, st, ?_, hgo⟩
    obtain ⟨t₀, ht₀, rfl⟩ := statusOf_eq_some.mp hkst
    refine statusOf_eq_some.mpr ⟨_, (hfin.get?_ne hne).trans (congrArg _ ht₀), ?_⟩
    rcases db₁.wake_cases tid k t₀ with hw | ⟨-, -, -, d, hd, hby, hdep⟩
    · rw [hw]
    · exact absurd hby (not_satisfiedBy h.hard hksat hd hdep)

theorem completed_complete (hrun : db.statusOf tid = some .running) (k : TaskId) :
    ((db.modifyTask tid fun t ↦ { t with status := .completed }).evaluateOnCompletion tid).Completed k ↔
      k = tid ∨ db.Completed k := by
  obtain ⟨t, ht, hst⟩ := statusOf_eq_some.mp hrun
  have hfin := finishes_completed ht hst
  let db₁ := db.modifyTask tid fun t ↦ { t with status := .completed }
  constructor
  · intro hc
    by_cases hne : k = tid
    · exact .inl hne
    · refine .inr (hfin.statusOf_of_ne hne hc fun t' he ↦ ?_)
      rcases db₁.wake_cases tid k t' with hw | ⟨hw, -⟩
      · rwa [hw] at he
      · rw [hw] at he
        cases he
  · rintro (rfl | hc)
    · exact statusOf_eq_some.mpr ⟨_, hfin.get?_self, rfl⟩
    · exact hfin.completed_kept hc

end Db.Orderly

end TradingOS.Orchestration
