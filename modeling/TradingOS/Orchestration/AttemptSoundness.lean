import TradingOS.Orchestration.LoopInvariant

namespace TradingOS.Orchestration

open Lib Lib.Runs

variable {p : Plan} {o : Outcomes} {poolSize : ℕ}

namespace Db

variable {db : Db} {tid : TaskId} {t : Task}

theorem afterAttempt_cases (ht : db.tasks.get? tid = some t) (hrun : t.status = .running)
    (a : Attempt) :
    (t.standing.conclude a = .inl .completed ∧ db.afterAttempt tid a =
      (db.modifyTask tid fun t ↦ { t with status := .completed }).evaluateOnCompletion tid) ∨
    (∃ st f capability reason, (st = .failed ∨ st = .blocked ∨ st = .escalated) ∧
      t.standing.conclude a = .inl st ∧ (f t).status = st ∧ db.afterAttempt tid a =
        (db.modifyTask tid f).markUnsatisfiable tid capability reason) ∨
    ∃ f, t.standing.conclude a = .inr (f t).standing ∧
      ((f t).status = .retrying ∨ (f t).status = .ready) ∧
      db.afterAttempt tid a = db.modifyTask tid f := by
  cases a with
  | timesOut =>
    let reason := "timed out after " ++ toString t.timeoutSeconds ++ "s"
    refine .inr (.inl ⟨.failed, fun t ↦ { t with status := .failed, failureReason := some reason },
      t.capability, reason, .inl rfl, rfl, rfl, ?_⟩)
    simp only [afterAttempt, handleTaskTimeout, ht, hrun, if_true]
    rfl
  | reports outcome =>
    cases outcome with
    | success =>
      have hst : db.statusOf tid = some .running := statusOf_eq_some.mpr ⟨t, ht, hrun⟩
      exact .inl ⟨rfl, by simp only [afterAttempt, runDispatchAndComplete, hst, if_true]⟩
    | dataStale dataset =>
      let reason := "data stale: " ++ dataset
      refine .inr (.inl ⟨.blocked,
        fun t ↦ { t with status := .blocked, blockedReason := some reason },
        t.capability, reason, .inr (.inl rfl), rfl, rfl, ?_⟩)
      simp only [afterAttempt, runDispatchAndComplete, handleDataStale, ht]
      rfl
    | raised error =>
      by_cases hr : t.retryCount < t.maxRetries
      · refine .inr (.inr ⟨fun t ↦ { t with retryCount := t.retryCount + 1, status := .retrying },
          ?_, .inl rfl, ?_⟩)
        · simp only [Standing.conclude, Task.standing, hr, if_true]
        · simp only [afterAttempt, runDispatchAndComplete, handleTaskFailure, ht, hr, if_true]
      · refine .inr (.inl ⟨.failed, fun t ↦ { t with status := .failed, failureReason := some error },
          t.capability, "failed after exhausting retries", .inl rfl, ?_, rfl, ?_⟩)
        · simp only [Standing.conclude, Task.standing, hr, if_false]
        · simp only [afterAttempt, runDispatchAndComplete, handleTaskFailure, ht, hr, if_false]
    | agentUnavailable error registry =>
      cases hc : replacements registry t.capability t.assignedAgent with
      | cons newAgent rest =>
        refine .inr (.inr ⟨fun t ↦ { t with assignedAgent := newAgent, status := .ready },
          ?_, .inr rfl, ?_⟩)
        · simp only [Standing.conclude, Task.standing, hc]
        · simp only [afterAttempt, runDispatchAndComplete, handleAgentUnavailable, ht, hc]
      | nil =>
        let reason := "agent unavailable: " ++ error
        refine .inr (.inl ⟨.escalated,
          fun t ↦ { t with status := .escalated, blockedReason := some reason },
          t.capability, reason, .inr (.inr rfl), ?_, rfl, ?_⟩)
        · simp only [Standing.conclude, Task.standing, hc]
        · simp only [afterAttempt, runDispatchAndComplete, handleAgentUnavailable, ht, hc]
          rfl

theorem markUnsatisfiable_eq_self {capability reason : String} (h : ∀ d ∈ db.deps,
    failedBy tid d → d.state = .failed ∧ db.Terminated d.dependentTaskId) :
    db.markUnsatisfiable tid capability reason = db := by
  obtain ⟨tasks, deps⟩ := db
  simp only [markUnsatisfiable, mk.injEq]
  constructor
  · refine tasks.mapVals_eq_self fun k t ht ↦ ?_
    rcases block_cases ⟨tasks, deps⟩ tid k capability reason t with he | ⟨-, hterm, d, hd, hf, rfl⟩
    · exact he
    · obtain ⟨st, hst, hst'⟩ := (h d hd hf).2
      obtain ⟨t', ht', rfl⟩ := statusOf_eq_some.mp hst
      obtain rfl := Option.some.inj (ht.symm.trans ht')
      rw [hst'] at hterm
      cases hterm
  · have hmap : (deps.map fun d ↦ if failedBy tid d then { d with state := .failed } else d) =
        deps.map id := by
      apply List.map_congr_left
      intro d hd
      split
      · next hf => rw [← (h d hd hf).1, id]
      · rfl
    rw [hmap, List.map_id]

end Db

namespace Plan.Sound

variable {attempts : TaskId → ℕ} {db : Db} {tid : TaskId} {t : Task}

theorem retry (h : p.Sound o attempts db) (ht : db.tasks.get? tid = some t)
    (hrun : t.status = .running) {f : Task → Task}
    (hc : t.standing.conclude (o tid (attempts tid)) = .inr (f t).standing)
    (hst : (f t).status = .retrying ∨ (f t).status = .ready) :
    p.Sound o (Function.update attempts tid (attempts tid + 1)) (db.modifyTask tid f) ∧
      db.SameEnds (db.modifyTask tid f) := by
  have hends : db.SameEnds (db.modifyTask tid f) := by
    refine Db.sameEnds_modifyTask ht (.inr ⟨by rw [hrun]; rfl, ?_⟩)
    rcases hst with hst | hst <;> rw [hst] <;> rfl
  refine ⟨h.modifyTask ht hends (fun k hk ↦ Function.update_of_ne hk _ _) ?_, hends⟩
  have hk := h.task tid t ht
  simp only [TaskSound, hrun] at hk
  have hsound : p.SameFate o (Function.update attempts tid (attempts tid + 1)) tid (f t) ∧
      p.PrerequisitesCompleted (db.modifyTask tid f) tid := by
    refine ⟨fun st ↦ ?_, fun d hd hdep ↦ hends.completed.mpr (hk.2 d hd hdep)⟩
    rw [hk.1 st, Function.update_self, settles_of_inr hc]
  simp only [TaskSound]
  rcases hst with hst | hst <;> rw [hst] <;> exact hsound

theorem afterAttempt (h : p.Sound o attempts db) (hrun : db.statusOf tid = some .running) :
    let db' := db.afterAttempt tid (o tid (attempts tid))
    p.Sound o (Function.update attempts tid (attempts tid + 1)) db' ∧
      (∀ k, db'.statusOf k = some .running ↔ k ≠ tid ∧ db.statusOf k = some .running) ∧
      ∀ k st, st.isTerminal → db.statusOf k = some st → db'.statusOf k = some st := by
  obtain ⟨t, ht, hst⟩ := Db.statusOf_eq_some.mp hrun
  have hother : ∀ k, k ≠ tid → Function.update attempts tid (attempts tid + 1) k = attempts k :=
    fun k hk ↦ Function.update_of_ne hk _ _
  -- the running tasks: `tid` leaves them, the others stay
  have hsplit : ∀ db' : Db, db'.statusOf tid ≠ some .running →
      (∀ k, k ≠ tid → (db'.statusOf k = some .running ↔ db.statusOf k = some .running)) →
      ∀ k, db'.statusOf k = some .running ↔ k ≠ tid ∧ db.statusOf k = some .running := by
    intro db' hself hne k
    by_cases hk : k = tid
    · subst hk
      exact iff_of_false hself fun hk ↦ hk.1 rfl
    · simp only [hne k hk, ne_eq, hk, not_false_eq_true, true_and]
  rcases Db.afterAttempt_cases ht hst (o tid (attempts tid)) with
    ⟨hc, he⟩ | ⟨st, f, capability, reason, hcase, hc, hf, he⟩ | ⟨f, hc, hf, he⟩
  · have hfin := Db.finishes_completed ht hst
    rw [he]
    refine ⟨h.complete ht hst hc hother, hsplit _ ?_ fun k ↦ h.complete_running ht hst,
      fun k st hterm hk ↦ hfin.statusOf_kept hk hterm⟩
    simp only [Db.statusOf, hfin.get?_self, Option.map_some, ne_eq, Option.some.injEq,
      reduceCtorEq, not_false_eq_true]
  · have hterm : (f t).status.isTerminal = true := by
      rcases hcase with rfl | rfl | rfl <;> rw [hf] <;> rfl
    have hfin := Db.finishes_failed ht hst hterm capability reason
    rw [he]
    refine ⟨h.fail ht hst hf hcase hc hother capability reason,
      hsplit _ ?_ fun k ↦ h.fail_running ht hst hterm capability reason,
      fun k st hterm hk ↦ hfin.statusOf_kept hk hterm⟩
    simp only [Db.statusOf, hfin.get?_self, Option.map_some, hf]
    rcases hcase with rfl | rfl | rfl <;> simp
  · obtain ⟨hsound, hends⟩ := h.retry ht hst hc hf
    rw [he]
    refine ⟨hsound, hsplit _ ?_ fun k hk ↦ ?_, fun k st hterm hk ↦ (hends k st hterm).mpr hk⟩
    · simp only [Db.statusOf, Db.modifyTask_get?, if_true, ht, Option.map_some]
      rcases hf with hf | hf <;> rw [hf] <;> simp
    · simp only [Db.statusOf, Db.modifyTask_get?, if_neg hk]

theorem afterAttempt_timesOut (hrun : db.statusOf tid = some .running) :
    (db.afterAttempt tid .timesOut).statusOf tid = some .failed := by
  obtain ⟨t, ht, hst⟩ := Db.statusOf_eq_some.mp hrun
  simp only [Db.afterAttempt, Db.handleTaskTimeout, ht, hst, if_true]
  exact Db.statusOf_eq_some.mpr ⟨_, (Db.finishes_failed ht hst rfl _ _).get?_self, rfl⟩

/-- The late report of a timed-out task that rewrites no terminal status changes no status. -/
theorem orphanReport (h : p.Sound o attempts db) (hst : db.statusOf tid = some .failed)
    {outcome : DispatchOutcome} (hharm : ∀ task, db.tasks.get? tid = some task →
      task.status.isTerminal → outcome.HarmlessFor task) :
    let db' := db.runDispatchAndComplete tid outcome
    p.Sound o attempts db' ∧ (∀ k, db'.statusOf k = db.statusOf k) ∧ db'.deps = db.deps := by
  obtain ⟨t, ht, hfailed⟩ := Db.statusOf_eq_some.mp hst
  have hfor := hharm t ht (by rw [hfailed]; rfl)
  cases outcome with
  | success =>
    have he : db.runDispatchAndComplete tid .success = db := by
      simp [Db.runDispatchAndComplete, hst]
    rw [he]
    exact ⟨h, fun _ ↦ rfl, rfl⟩
  | dataStale dataset =>
    rw [DispatchOutcome.HarmlessFor, hfailed] at hfor
    cases hfor
  | agentUnavailable error registry =>
    rw [DispatchOutcome.HarmlessFor, hfailed] at hfor
    cases hfor.1
  | raised error =>
    let f : Task → Task := fun t ↦ { t with status := .failed, failureReason := some error }
    have hends : db.SameEnds (db.modifyTask tid f) :=
      Db.sameEnds_modifyTask ht (.inl hfailed.symm)
    have hfails : p.FailsItself o tid := by
      have hk := h.task tid t ht
      simpa only [TaskSound, hfailed] using hk
    have he : db.runDispatchAndComplete tid (.raised error) = db.modifyTask tid f := by
      simp only [Db.runDispatchAndComplete, Db.handleTaskFailure, ht, Nat.not_lt.mpr hfor.2,
        if_false]
      refine Db.markUnsatisfiable_eq_self fun d hd hf ↦ ?_
      obtain ⟨hpre, -, hne⟩ := of_decide_eq_true hf
      have hsound := h.dep d hd
      simp only [DepSound] at hsound
      rw [hpre] at hsound
      cases hs : d.state with
      | satisfied => exact absurd hs hne
      | unsatisfied =>
        rw [hs] at hsound
        exact absurd ⟨_, hst, rfl⟩ (hsound.2 hfails)
      | failed =>
        rw [hs] at hsound
        exact ⟨rfl, hends.terminated.mpr hsound.2⟩
    rw [he]
    refine ⟨h.modifyTask ht hends (fun _ _ ↦ rfl) hfails, fun k ↦ ?_, rfl⟩
    simp only [Db.statusOf, Db.modifyTask_get?]
    split
    · next hk =>
      subst hk
      rw [ht, Option.map_some, Option.map_some, Option.map_some, hfailed]
    · rfl

end Plan.Sound

end TradingOS.Orchestration
