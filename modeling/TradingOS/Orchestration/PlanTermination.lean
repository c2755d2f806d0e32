import TradingOS.Orchestration.AttemptSoundness

namespace TradingOS.Orchestration

open Lib Lib.Runs

variable {p : Plan} {o : Outcomes} {poolSize : ℕ}

namespace Plan

def Parked (db : Db) : Prop :=
  ∀ tid st, db.statusOf tid = some st → st.isTerminal = false → db.hardSatisfied tid = false

def AllTerminal (db : Db) : Prop := ∀ tid st, db.statusOf tid = some st → st.isTerminal

def FailureNoticed (s : Loop) : Prop :=
  AllTerminal s.db → (∃ tid st, s.db.statusOf tid = some st ∧ st ≠ .completed) →
    s.runStatus = .failed

structure LoopSound (p : Plan) (o : Outcomes) (s : Loop) : Prop where
  sound : p.Sound o s.attempts s.db
  running : ∀ tid, tid ∈ s.running ↔ s.db.statusOf tid = some .running
  nodup : s.running.Nodup
  orphans : ∀ tid ∈ s.orphans, s.db.statusOf tid = some .failed
  idle : s.stage ≠ .looping → s.safe = [] ∧ s.serial = [] ∧ s.running = []
  parked : s.stage ≠ .looping → Parked s.db
  noticed : s.stage = .returned → FailureNoticed s

theorem loopSound_begin (p : Plan) (o : Outcomes) : p.LoopSound o p.begin where
  sound :=
    { keys := rfl
      deps := by
        have hmap : p.db.deps.map TaskDependency.reset = p.db.deps.map id :=
          List.map_congr_left fun d hd ↦ by
            rw [TaskDependency.reset, ← (p.hard d hd).2, id]
        exact hmap.trans (List.map_id _)
      task := fun tid t ht ↦ by
        have hst := p.planned t (p.db.tasks.mem_values.mpr ⟨tid, ht⟩)
        simp only [TaskSound]
        rw [hst]
        intro st
        constructor
        · rintro ⟨t', ht', hs⟩
          obtain rfl := Option.some.inj (ht.symm.trans ht')
          exact hs
        · exact fun hs ↦ ⟨t, ht, hs⟩
      dep := fun d hd ↦ by
        have hplanned : ∀ st, p.db.statusOf d.prerequisiteTaskId = some st → st = .planned := by
          intro st hst
          obtain ⟨t, ht, rfl⟩ := Db.statusOf_eq_some.mp hst
          exact p.planned t (p.db.tasks.mem_values.mpr ⟨_, ht⟩)
        simp only [DepSound]
        rw [(p.hard d hd).2]
        refine ⟨fun hc ↦ ?_, fun _ hended ↦ ?_⟩
        · cases hplanned _ hc
        · obtain ⟨st, hst, hterm⟩ := hended
          rw [hplanned st hst] at hterm
          cases hterm }
  running := fun tid ↦ by
    refine iff_of_false List.not_mem_nil fun hrun ↦ ?_
    obtain ⟨t, ht, hst⟩ := Db.statusOf_eq_some.mp hrun
    rw [p.planned t (p.db.tasks.mem_values.mpr ⟨tid, ht⟩)] at hst
    cases hst
  nodup := List.nodup_nil
  orphans := fun _ h ↦ by cases h
  idle := fun h ↦ absurd rfl h
  parked := fun h ↦ absurd rfl h
  noticed := fun h ↦ by cases h

end Plan

namespace Db

variable {db : Db} {tid : TaskId}

theorem readyTasks_running : db.readyTasks.1.statusOf tid = some .running ↔
    db.statusOf tid = some .running := by
  simp only [readyTasks, statusOf, Table.get?_mapVals]
  cases ht : db.tasks.get? tid with
  | none => rfl
  | some t =>
    simp only [Option.map_some, Option.some.injEq, settle]
    split
    · next hc =>
      refine iff_of_false ?_ fun hrun ↦ by rw [hrun] at hc; cases hc
      dsimp only
      split <;> simp
    · rfl

theorem not_hardSatisfied_of_readyTasks_eq_nil (h : db.readyTasks.2 = []) {t : Task}
    (ht : db.tasks.get? tid = some t) (hc : t.status.isCandidate) :
    db.hardSatisfied tid = false := by
  simp only [readyTasks, List.map_eq_nil_iff, List.filter_eq_nil_iff, decide_eq_true_eq,
    not_and, Bool.not_eq_true] at h
  exact h _ (db.tasks.get?_eq_some.mp ht) hc

theorem nonterminalCount_eq_zero (h : Plan.AllTerminal db) : db.nonterminalCount = 0 := by
  refine List.countP_eq_zero.mpr fun t ht hmem ↦ ?_
  obtain ⟨tid, ht⟩ := db.tasks.mem_values.mp ht
  have hterm := h tid t.status (statusOf_eq_some.mpr ⟨t, ht, rfl⟩)
  cases hst : t.status <;> simp [hst, TaskStatus.isTerminal] at hmem hterm

theorem countStatus_ne_zero {st : TaskStatus} (h : db.statusOf tid = some st) :
    db.countStatus st ≠ 0 := by
  obtain ⟨t, ht, hst⟩ := statusOf_eq_some.mp h
  have hpos : 0 < db.countStatus st :=
    List.countP_pos_iff.mpr ⟨t, db.tasks.mem_values.mpr ⟨tid, ht⟩, decide_eq_true hst⟩
  exact Nat.pos_iff_ne_zero.mp hpos

end Db

namespace Plan

namespace LoopSound

variable {s : Loop} (h : p.LoopSound o s)

include h

theorem poll (hst : s.stage = .looping) (hsafe : s.safe = []) (hserial : s.serial = [])
    (hrun : s.running = []) : p.LoopSound o s.poll := by
  have hsound := h.sound.readyTasks
  have hrunning : ∀ tid, tid ∈ s.running ↔ s.db.readyTasks.1.statusOf tid = some .running :=
    fun tid ↦ (h.running tid).trans Db.readyTasks_running.symm
  have horphans : ∀ tid ∈ s.orphans, s.db.readyTasks.1.statusOf tid = some .failed :=
    fun tid htid ↦ s.db.readyTasks_keeps tid .failed (h.orphans tid htid) rfl
  simp only [Loop.poll]
  split
  · next hready =>
    refine ⟨hsound, hrunning, h.nodup, horphans, fun _ ↦ ⟨hsafe, hserial, hrun⟩, fun _ ↦ ?_,
      fun hret ↦ by cases hret⟩
    intro tid st hst' hterm
    obtain ⟨t', ht', rfl⟩ := Db.statusOf_eq_some.mp hst'
    obtain ⟨t, ht, he⟩ := Option.map_eq_some_iff.mp ((Table.get?_mapVals _ _ _).symm.trans ht')
    by_cases hc : t.status.isCandidate = true
    · show s.db.hardSatisfied tid = false
      exact Db.not_hardSatisfied_of_readyTasks_eq_nil hready ht hc
    · obtain rfl : t = t' := by rwa [Db.settle, if_neg hc] at he
      have hk := h.sound.task tid t ht
      have hnot := mt (hrunning tid).mpr (by rw [hrun]; exact List.not_mem_nil)
      cases hst₂ : t.status <;>
        simp_all [TaskSound, TaskStatus.isCandidate, TaskStatus.isTerminal]
  · exact ⟨hsound, hrunning, h.nodup, horphans, fun hne ↦ absurd hst hne,
      fun hne ↦ absurd hst hne, fun hret ↦ by cases hst.symm.trans hret⟩

theorem start (hst : s.stage = .looping) (safe serial : List TaskId) (tid : TaskId) :
    p.LoopSound o ({ s with safe := safe, serial := serial }.start tid) := by
  have hlooping : ∀ {q : Prop}, s.stage ≠ .looping → q := fun hne ↦ absurd hst hne
  have hreturned : ∀ {q : Prop}, s.stage = .returned → q := fun hret ↦ by
    cases hst.symm.trans hret
  simp only [Loop.start]
  cases hclaim : s.db.claim tid with
  | none => exact ⟨h.sound, h.running, h.nodup, h.orphans, hlooping, hlooping, hreturned⟩
  | some db =>
    simp only [Db.claim] at hclaim
    split at hclaim
    · next hready =>
      obtain rfl := Option.some.inj hclaim
      obtain ⟨t, ht, hrt⟩ := Db.statusOf_eq_some.mp hready
      have hends : s.db.SameEnds (s.db.modifyTask tid fun t ↦ { t with status := .running }) :=
        Db.sameEnds_modifyTask ht (.inr ⟨by rw [hrt]; rfl, rfl⟩)
      have hk := h.sound.task tid t ht
      simp only [TaskSound, hrt] at hk
      have hnot : tid ∉ s.running := fun hmem ↦ by
        cases hready.symm.trans ((h.running tid).mp hmem)
      refine ⟨h.sound.modifyTask ht hends (fun _ _ ↦ rfl)
        ⟨hk.1, fun d hd hdep ↦ hends.completed.mpr (hk.2 d hd hdep)⟩, fun k ↦ ?_,
        List.nodup_cons.mpr ⟨hnot, h.nodup⟩,
        fun k hk' ↦ (hends k .failed rfl).mpr (h.orphans k hk'), hlooping, hlooping, hreturned⟩
      simp only [List.mem_cons, Db.statusOf, Db.modifyTask_get?]
      split
      · next hkt =>
        subst hkt
        simp only [true_or, ht, Option.map_some]
      · next hkt =>
        simp only [hkt, false_or]
        exact h.running k
    · cases hclaim

theorem conclude {tid : TaskId} (htid : tid ∈ s.running) : p.LoopSound o (s.conclude o tid) := by
  have hrun := (h.running tid).mp htid
  have hst : s.stage = .looping := by
    by_contra hne
    rw [(h.idle hne).2.2] at htid
    cases htid
  obtain ⟨hsound, hrunning, hkept⟩ := h.sound.afterAttempt hrun
  refine ⟨hsound, fun k ↦ ?_, h.nodup.erase tid, fun k hk ↦ ?_, fun hne ↦ absurd hst hne,
    fun hne ↦ absurd hst hne, fun hret ↦ ?_⟩
  · refine (h.nodup.mem_erase_iff).trans ?_
    rw [h.running k]
    exact (hrunning k).symm
  · by_cases ha : o tid (s.attempts tid) = .timesOut
    · simp only [Loop.conclude, ha, if_true, List.mem_cons] at hk ⊢
      rcases hk with rfl | hk
      · exact Sound.afterAttempt_timesOut hrun
      · rw [ha] at hkept
        exact hkept k .failed rfl (h.orphans k hk)
    · simp only [Loop.conclude, ha, if_false] at hk
      exact hkept k .failed rfl (h.orphans k hk)
  · rw [show (s.conclude o tid).stage = s.stage from rfl, hst] at hret
    cases hret

theorem orphanReport {tid : TaskId} (htid : tid ∈ s.orphans) {outcome : DispatchOutcome}
    (hharm : ∀ task, s.db.tasks.get? tid = some task → task.status.isTerminal →
      outcome.HarmlessFor task) :
    p.LoopSound o
      { s with
        db := s.db.runDispatchAndComplete tid outcome
        orphans := s.orphans.erase tid } := by
  obtain ⟨hsound, hstatus, hdeps⟩ := h.sound.orphanReport (h.orphans tid htid) hharm
  have hsat : ∀ k, (s.db.runDispatchAndComplete tid outcome).hardSatisfied k =
      s.db.hardSatisfied k := fun k ↦ by
    simp only [Db.hardSatisfied, Db.hardDepsFor, hdeps]
  refine ⟨hsound, fun k ↦ ?_, h.nodup, fun k hk ↦ ?_, h.idle, fun hne k st hk hterm ↦ ?_,
    fun hret ↦ ?_⟩
  · rw [hstatus]
    exact h.running k
  · rw [hstatus]
    exact h.orphans k (List.mem_of_mem_erase hk)
  · rw [hstatus] at hk
    rw [hsat]
    exact h.parked hne k st hk hterm
  · have hn := h.noticed hret
    simpa only [FailureNoticed, AllTerminal, hstatus] using hn

theorem finalize (hst : s.stage = .finalizing) (undispositioned : ℕ) (pendingApproval : Bool) :
    p.LoopSound o
      { s with
        runStatus := (s.db.finalize undispositioned pendingApproval).1.getD s.runStatus
        stage := .returned } := by
  have hne : s.stage ≠ .looping := by rw [hst]; decide
  refine ⟨h.sound, h.running, h.nodup, h.orphans, fun _ ↦ h.idle hne, fun _ ↦ h.parked hne,
    fun _ hall ⟨tid, st, hst', hcompleted⟩ ↦ ?_⟩
  have hdead : s.db.countStatus .failed ≠ 0 ∨ s.db.countStatus .blocked ≠ 0 ∨
      s.db.countStatus .escalated ≠ 0 := by
    have hterm := hall tid st hst'
    cases st with
    | failed => exact .inl (Db.countStatus_ne_zero hst')
    | blocked => exact .inr (.inl (Db.countStatus_ne_zero hst'))
    | escalated => exact .inr (.inr (Db.countStatus_ne_zero hst'))
    | completed => exact absurd rfl hcompleted
    | cancelled =>
      obtain ⟨t, ht, hc⟩ := Db.statusOf_eq_some.mp hst'
      have hk := h.sound.task tid t ht
      simp only [TaskSound, hc] at hk
    | _ => cases hterm
  show (s.db.finalize undispositioned pendingApproval).1.getD s.runStatus = .failed
  rw [Db.finalize, if_neg (not_not.mpr (Db.nonterminalCount_eq_zero hall)), if_pos hdead]
  rfl

theorem step {s' : Loop} {event : LoopEvent} (hstep : s.step o poolSize event = some s')
    (hharm : OrphanHarmless s event s') : p.LoopSound o s' := by
  cases event with
  | poll =>
    simp only [Loop.step] at hstep
    split at hstep
    · next hc =>
      obtain rfl := Option.some.inj hstep
      exact h.poll hc.1 hc.2.1 hc.2.2.1 hc.2.2.2
    · cases hstep
  | execute =>
    have hlooping : s.safe ≠ [] ∨ s.serial ≠ [] → s.stage = .looping := by
      intro hne
      by_contra hst
      obtain ⟨hsafe, hserial, -⟩ := h.idle hst
      exact hne.elim (absurd hsafe) (absurd hserial)
    simp only [Loop.step] at hstep
    split at hstep
    · next tid rest hsafe =>
      split at hstep
      · obtain rfl := Option.some.inj hstep
        exact h.start (hlooping (.inl (by rw [hsafe]; simp))) rest s.serial tid
      · cases hstep
    · next tid rest hsafe hserial =>
      split at hstep
      · obtain rfl := Option.some.inj hstep
        exact h.start (hlooping (.inr (by rw [hserial]; simp))) s.safe rest tid
      · cases hstep
    · cases hstep
  | conclude tid =>
    simp only [Loop.step] at hstep
    split at hstep
    · next htid =>
      obtain rfl := Option.some.inj hstep
      exact h.conclude htid
    · cases hstep
  | orphanReport tid outcome =>
    simp only [Loop.step] at hstep
    split at hstep
    · next htid =>
      obtain rfl := Option.some.inj hstep
      exact h.orphanReport htid hharm
    · cases hstep
  | finalize undispositioned pendingApproval =>
    simp only [Loop.step] at hstep
    split at hstep
    · next hst =>
      obtain rfl := Option.some.inj hstep
      exact h.finalize hst undispositioned pendingApproval
    · cases hstep

theorem exists_task {tid : TaskId} (htid : tid ∈ p.db.tasks.keys) :
    ∃ t, s.db.tasks.get? tid = some t ∧ p.TaskSound o s.attempts s.db tid t := by
  obtain ⟨t, ht⟩ := h.sound.exists_task htid
  exact ⟨t, ht, h.sound.task tid t ht⟩

/-- When nothing is left to start, a task whose prerequisites have completed has ended. -/
theorem terminal_of_prerequisites (hne : s.stage ≠ .looping) {tid : TaskId} {t : Task}
    (ht : s.db.tasks.get? tid = some t)
    (hpre : ∀ d ∈ p.db.deps, d.dependentTaskId = tid → s.db.Completed d.prerequisiteTaskId) :
    t.status.isTerminal := by
  by_contra hn
  have hnot := h.parked hne tid _ (Db.statusOf_eq_some.mpr ⟨t, ht, rfl⟩) (by simpa using hn)
  rw [h.sound.hardSatisfied_iff.mpr hpre] at hnot
  cases hnot

theorem completed_of_completes (hne : s.stage ≠ .looping) {tid : TaskId}
    (hc : p.Completes o tid) : s.db.Completed tid := by
  induction hc with
  | @intro tid hfate hpre ih =>
    have hcompletes : p.Completes o tid := .intro hfate hpre
    obtain ⟨t, ht, hk⟩ := h.exists_task hfate.mem_keys
    rcases hk.of_terminal (h.terminal_of_prerequisites hne ht ih) with
      ⟨hst, -⟩ | ⟨-, hf | ⟨d, hd, hdep, hf⟩⟩
    · exact Db.statusOf_eq_some.mpr ⟨t, ht, hst⟩
    · exact absurd hf hcompletes.not_failsItself
    · exact absurd hf (hpre d hd hdep).not_failsItself

theorem terminal_of_failsItself (hne : s.stage ≠ .looping) {tid : TaskId}
    (hf : p.FailsItself o tid) :
    ∃ t, s.db.tasks.get? tid = some t ∧ t.status.isTerminal ∧ t.status ≠ .completed := by
  obtain ⟨⟨st, hst, hfate⟩, hpre⟩ := id hf
  obtain ⟨t, ht, hk⟩ := h.exists_task hfate.mem_keys
  have hterm := h.terminal_of_prerequisites hne ht fun d hd hdep ↦
    h.completed_of_completes hne (hpre d hd hdep)
  refine ⟨t, ht, hterm, fun hc ↦ ?_⟩
  exact (h.sound.completes (Db.statusOf_eq_some.mpr ⟨t, ht, hc⟩)).not_failsItself hf

theorem terminal_iff_accounted (hne : s.stage ≠ .looping) {tid : TaskId} {t : Task}
    (ht : s.db.tasks.get? tid = some t) : t.status.isTerminal ↔ p.Accounted o tid := by
  have hk := h.sound.task tid t ht
  constructor
  · intro hterm
    rcases hk.of_terminal hterm with ⟨-, hc⟩ | ⟨-, hf | hd⟩
    · exact .inl hc
    · exact .inr (.inl hf)
    · exact .inr (.inr hd)
  · rintro (hc | hf | ⟨d, hd, hdep, hf⟩)
    · obtain ⟨t', ht', hst⟩ := Db.statusOf_eq_some.mp (h.completed_of_completes hne hc)
      obtain rfl := Option.some.inj (ht.symm.trans ht')
      rw [hst]
      rfl
    · obtain ⟨t', ht', hterm, -⟩ := h.terminal_of_failsItself hne hf
      obtain rfl := Option.some.inj (ht.symm.trans ht')
      exact hterm
    · -- the row of `d` has seen its prerequisite fail
      obtain ⟨t', ht', hterm, hnc⟩ := h.terminal_of_failsItself hne hf
      obtain ⟨d', hd', hdep', hpre'⟩ := h.sound.exists_row hd
      have hdead : s.db.Terminated d'.prerequisiteTaskId := by
        rw [hpre']
        exact ⟨_, Db.statusOf_eq_some.mpr ⟨t', ht', rfl⟩, hterm⟩
      have hrow := h.sound.dep d' hd'
      simp only [DepSound] at hrow
      cases hst : d'.state <;> simp only [hst] at hrow
      · rw [hpre'] at hrow hdead
        exact absurd hdead (hrow.2 hf)
      · rw [hpre'] at hrow
        exact absurd hf (h.sound.completes hrow).not_failsItself
      · obtain ⟨st, hst', hend⟩ := hrow.2
        rw [hdep', hdep] at hst'
        obtain ⟨t'', ht'', rfl⟩ := Db.statusOf_eq_some.mp hst'
        obtain rfl := Option.some.inj (ht.symm.trans ht'')
        exact hend

end LoopSound

theorem loopSound_of_run {s : Loop} {events : List LoopEvent}
    (hrun : Run (Loop.step o poolSize) p.begin events s)
    (hharm : Along (Loop.step o poolSize) OrphanHarmless p.begin events) : p.LoopSound o s :=
  hrun.invariant_along (fun _ _ _ h hk hst ↦ h.step hst hk) hharm (p.loopSound_begin o)

end Plan

/-- What a returned loop owes its plan: no task is left unfinished, and a run with a task
that did not complete is marked failed. -/
def NothingHalfDead (s : Loop) : Prop :=
  Plan.AllTerminal s.db ∧
    ((∃ tid st, s.db.statusOf tid = some st ∧ st ≠ .completed) → s.runStatus = .failed)

/-- For every plan, every number of retries, every assignment of outcomes and every order in
which the workers report, the loop returns with nothing half-dead exactly if no task is more
than one dependency away from the failure it depends on. -/
theorem nothing_half_dead_iff (p : Plan) (o : Outcomes) (poolSize : ℕ) {events : List LoopEvent}
    {s : Loop} (hrun : Run (Loop.step o poolSize) p.begin events s) (hret : s.stage = .returned)
    (hharm : Along (Loop.step o poolSize) OrphanHarmless p.begin events) :
    NothingHalfDead s ↔ ∀ tid ∈ p.db.tasks.keys, p.Accounted o tid := by
  have h := Plan.loopSound_of_run hrun hharm
  have hne : s.stage ≠ .looping := by rw [hret]; decide
  constructor
  · rintro ⟨hall, -⟩ tid htid
    obtain ⟨t, ht, -⟩ := h.exists_task htid
    exact (h.terminal_iff_accounted hne ht).mp (hall tid _ (Db.statusOf_eq_some.mpr ⟨t, ht, rfl⟩))
  · intro hacc
    have hall : Plan.AllTerminal s.db := by
      intro tid st hst
      obtain ⟨t, ht, rfl⟩ := Db.statusOf_eq_some.mp hst
      refine (h.terminal_iff_accounted hne ht).mpr (hacc tid ?_)
      rw [← h.sound.keys]
      by_contra hn
      cases ht.symm.trans (s.db.tasks.get?_eq_none.mpr hn)
    exact ⟨hall, h.noticed hret hall⟩

def chainTasks (n : ℕ) : List (TaskId × Task) :=
  (List.range n).map fun tid ↦ (tid, ⟨"analysis", "analyst", .planned, true, 0, 3, 300, none, none⟩)

def pair : Plan where
  db :=
    { tasks := ⟨chainTasks 2, by decide⟩
      deps := [⟨1, 0, .hard, .unsatisfied⟩] }
  planned := by decide
  hard := by decide
  dependent_mem := by decide
  prerequisite_mem := by decide

def chain : Plan where
  db :=
    { tasks := ⟨chainTasks 3, by decide⟩
      deps := [⟨1, 0, .hard, .unsatisfied⟩, ⟨2, 1, .hard, .unsatisfied⟩] }
  planned := by decide
  hard := by decide
  dependent_mem := by decide
  prerequisite_mem := by decide

def allStale : Outcomes := fun _ _ ↦ .reports (.dataStale "nse_eod")

theorem pair_not_half_dead : ∃ s, Run (Loop.step allStale 4) pair.begin
    [.poll, .execute, .conclude 0, .poll, .finalize 0 false] s ∧ NothingHalfDead s := by
  have hrun : ∃ s, Run (Loop.step allStale 4) pair.begin
      [.poll, .execute, .conclude 0, .poll, .finalize 0 false] s ∧ s.stage = .returned :=
    ⟨_, .cons rfl (.cons rfl (.cons rfl (.cons rfl (.cons rfl (.nil _))))), rfl⟩
  obtain ⟨s, hrun, hret⟩ := hrun
  have hfails : pair.FailsItself allStale 0 :=
    ⟨⟨.blocked, by decide, _, rfl, .done rfl⟩, fun d hd hdep ↦ by
      obtain rfl := List.mem_singleton.mp hd
      cases hdep⟩
  refine ⟨s, hrun, (nothing_half_dead_iff pair allStale 4 hrun hret ?_).mpr fun tid htid ↦ ?_⟩
  · exact ⟨trivial, trivial, trivial, trivial, trivial, trivial⟩
  · have htid : tid < 2 := by simpa [pair, chainTasks, Table.keys] using htid
    rcases Nat.le_one_iff_eq_zero_or_eq_one.mp (Nat.lt_succ_iff.mp htid) with rfl | rfl
    · exact .inr (.inl hfails)
    · exact .inr (.inr ⟨_, List.mem_singleton_self _, rfl, hfails⟩)

/-- The third task of a chain never hears of the first one's failure, and the run is parked. -/
theorem chain_half_dead : ∃ s, Run (Loop.step allStale 4) chain.begin
    [.poll, .execute, .conclude 0, .poll, .finalize 0 false] s ∧ s.stage = .returned ∧
    s.db.statusOf 2 = some .waitingForDependency ∧ s.runStatus = .waiting ∧
    ¬ NothingHalfDead s := by
  refine ⟨_, .cons rfl (.cons rfl (.cons rfl (.cons rfl (.cons rfl (.nil _))))), rfl, rfl, rfl, ?_⟩
  rintro ⟨hall, -⟩
  cases hall 2 .waitingForDependency rfl

end TradingOS.Orchestration
