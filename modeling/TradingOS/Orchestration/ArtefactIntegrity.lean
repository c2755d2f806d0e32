import TradingOS.Orchestration.ArtefactStore
import TradingOS.Orchestration.DependencyOrder
import TradingOS.Lib.Lists

namespace TradingOS.Orchestration

open Lib Lib.Runs

namespace ArtefactEngine

def begin (p : Plan) : ArtefactEngine where
  db := p.db
  artefacts := []
  resultArtefactId := fun _ ↦ none
  dispatches := []
  started := 0
  completions := []

/-- The artefacts are those of the dispatches that completed their tasks, one for each completed
task. -/
structure Inv (p : Plan) (s : ArtefactEngine) : Prop where
  orderly : s.db.Orderly (s.dispatches.map Dispatch.taskId)
  deps : s.db.deps.map TaskDependency.reset = p.db.deps
  origins : s.artefacts.map ResultArtefact.origin = s.completions
  nodup : (s.completions.map Dispatch.taskId).Nodup
  completed : ∀ tid, s.db.Completed tid ↔ tid ∈ s.completions.map Dispatch.taskId
  fresh : ∀ x ∈ s.dispatches ++ s.completions, x.id < s.started
  distinct : ((s.dispatches ++ s.completions).map Dispatch.id).Nodup

variable {p : Plan} {s t : ArtefactEngine}

theorem inv_begin (p : Plan) : Inv p (begin p) where
  orderly :=
    { hard := fun d hd ↦ (p.hard d hd).1
      satisfied := fun d hd hst ↦ by
        rw [(p.hard d hd).2] at hst
        cases hst
      started := fun tid st hst hgo ↦ by
        obtain ⟨t, ht, rfl⟩ := Db.statusOf_eq_some.mp hst
        rw [p.planned t (p.db.tasks.mem_values.mpr ⟨tid, ht⟩)] at hgo
        rcases hgo with hgo | hgo <;> cases hgo
      dispatched := nofun
      nodup := .nil }
  deps := by
    have hid (d) (hd : d ∈ p.db.deps) : d.reset = id d := by
      rw [TaskDependency.reset, ← (p.hard d hd).2, id]
    exact (List.map_congr_left hid).trans (List.map_id _)
  origins := rfl
  nodup := .nil
  completed tid := by
    refine iff_of_false (fun hc ↦ ?_) List.not_mem_nil
    obtain ⟨t, ht, hst⟩ := Db.statusOf_eq_some.mp hc
    rw [p.planned t (p.db.tasks.mem_values.mpr ⟨tid, ht⟩)] at hst
    cases hst
  fresh := nofun
  distinct := .nil

/-- A step that completes no task and writes no artefact. -/
theorem Inv.of_quiet (h : Inv p s) (horderly : t.db.Orderly (t.dispatches.map Dispatch.taskId))
    (hmark : t.db.deps.map TaskDependency.mark = s.db.deps.map TaskDependency.mark)
    (hcompleted : ∀ tid, t.db.Completed tid ↔ s.db.Completed tid)
    (hartefacts : t.artefacts = s.artefacts) (hcompletions : t.completions = s.completions)
    (hfresh : ∀ x ∈ t.dispatches ++ s.completions, x.id < t.started)
    (hdistinct : ((t.dispatches ++ s.completions).map Dispatch.id).Nodup) : Inv p t where
  orderly := horderly
  deps := by
    have hreset := congrArg (List.map TaskDependency.reset) hmark
    simp only [List.map_map, Function.comp_def, TaskDependency.reset_mark] at hreset
    exact hreset.trans h.deps
  origins := by rw [hartefacts, hcompletions, h.origins]
  nodup := hcompletions ▸ h.nodup
  completed tid := by rw [hcompleted, hcompletions, h.completed]
  fresh := hcompletions ▸ hfresh
  distinct := hcompletions ▸ hdistinct

theorem Inv.readyTasks (h : Inv p s) (hstep : s.step .readyTasks = some t) : Inv p t := by
  obtain rfl := Option.some.inj hstep
  exact h.of_quiet h.orderly.readyTasks rfl (fun _ ↦ s.db.sameEnds_readyTasks.completed) rfl rfl
    h.fresh h.distinct

theorem Inv.claim (h : Inv p s) {tid : TaskId} (hstep : s.step (.claim tid) = some t) : Inv p t := by
  simp only [step] at hstep
  cases hclaim : s.db.claim tid with
  | none =>
    rw [hclaim] at hstep
    exact Option.some.inj hstep ▸ h
  | some db =>
    rw [hclaim] at hstep
    obtain rfl := Option.some.inj hstep
    refine h.of_quiet (h.orderly.claim hclaim) ?_ (Db.completed_claim hclaim) rfl rfl ?_ ?_
    · obtain ⟨-, rfl⟩ := Db.claim_eq_some.mp hclaim
      rfl
    · intro x hx
      rcases List.mem_cons.mp hx with rfl | hx
      · exact Nat.lt_succ_self _
      · exact (h.fresh x hx).trans (Nat.lt_succ_self _)
    · refine List.nodup_cons.mpr ⟨fun hmem ↦ ?_, h.distinct⟩
      obtain ⟨x, hx, hid⟩ := List.mem_map.mp hmem
      exact (h.fresh x hx).ne hid

theorem Inv.halt (h : Inv p s) {db : Db} (hhalt : ∀ k, Db.Halted s.db db k)
    (hmark : db.deps.map TaskDependency.mark = s.db.deps.map TaskDependency.mark) :
    Inv p { s with db := db } :=
  h.of_quiet (h.orderly.halt hmark hhalt) hmark (fun tid ↦ (hhalt tid).completed) rfl rfl h.fresh
    h.distinct

section Report

variable {x : Dispatch}

/-- With its report a dispatch is over, and its task has no other. -/
theorem Inv.erase_sublist (h : Inv p s) (hx : x ∈ s.dispatches) :
    ((s.dispatches.erase x).map Dispatch.taskId).Sublist (s.dispatches.map Dispatch.taskId) ∧
      x.taskId ∉ (s.dispatches.erase x).map Dispatch.taskId := by
  refine ⟨(List.erase_sublist).map _, fun hmem ↦ ?_⟩
  have hnodup := ((List.perm_cons_erase hx).map Dispatch.taskId).nodup_iff.mp h.orderly.nodup
  exact (List.nodup_cons.mp hnodup).1 hmem

theorem Inv.report_failing (h : Inv p s) (hx : x ∈ s.dispatches) {outcome : DispatchOutcome}
    (hout : outcome ≠ .success) :
    Inv p { s with
      db := s.db.runDispatchAndComplete x.taskId outcome
      dispatches := s.dispatches.erase x } := by
  have hlive : x.taskId ∈ s.dispatches.map Dispatch.taskId := List.mem_map_of_mem hx
  obtain ⟨hmark, hhalt, hnot⟩ := Db.fails_report hout (h.orderly.not_completed hlive)
  obtain ⟨hsub, hgone⟩ := h.erase_sublist hx
  have hkept : (s.dispatches.erase x ++ s.completions).Sublist (s.dispatches ++ s.completions) :=
    List.erase_sublist.append_right _
  refine h.of_quiet (h.orderly.report hlive hmark hhalt hsub hgone) hmark (fun tid ↦ ?_) rfl rfl
    (fun y hy ↦ h.fresh y (hkept.subset hy)) (h.distinct.sublist (hkept.map _))
  by_cases hne : tid = x.taskId
  · subst hne
    exact iff_of_false hnot (h.orderly.not_completed hlive)
  · exact (hhalt tid hne).completed

/-- The result is discarded, and with it the artefact. -/
theorem Inv.report_discarded (h : Inv p s) (hx : x ∈ s.dispatches) :
    Inv p { s with dispatches := s.dispatches.erase x } := by
  obtain ⟨hsub, hgone⟩ := h.erase_sublist hx
  have hkept : (s.dispatches.erase x ++ s.completions).Sublist (s.dispatches ++ s.completions) :=
    List.erase_sublist.append_right _
  have hlive : x.taskId ∈ s.dispatches.map Dispatch.taskId := List.mem_map_of_mem hx
  exact h.of_quiet (h.orderly.report hlive rfl (fun _ _ ↦ .inl rfl) hsub hgone) rfl
    (fun _ ↦ Iff.rfl) rfl rfl (fun y hy ↦ h.fresh y (hkept.subset hy))
    (h.distinct.sublist (hkept.map _))

theorem Inv.report_completing (h : Inv p s) (hx : x ∈ s.dispatches)
    (hrun : s.db.statusOf x.taskId = some .running) (artefactType : String) :
    Inv p { s.runDispatchAndComplete x .success artefactType with
      dispatches := s.dispatches.erase x } := by
  obtain ⟨hsub, hgone⟩ := h.erase_sublist hx
  have hlive : x.taskId ∈ s.dispatches.map Dispatch.taskId := List.mem_map_of_mem hx
  have hcompleted := Db.Orderly.completed_complete hrun
  have hperm : (s.dispatches.erase x ++ (s.completions ++ [x])).Perm
      (s.dispatches ++ s.completions) := by
    rw [← List.append_assoc]
    refine (List.perm_append_singleton _ _).trans ?_
    exact (List.perm_cons_erase hx).symm.append_right _
  rw [runDispatchAndComplete_of_running hrun]
  refine ⟨h.orderly.complete hrun hsub hgone, ?_, ?_, ?_, fun tid ↦ ?_, ?_, ?_⟩
  · refine (Db.map_reset (fun d ↦ ?_) _).trans h.deps
    split <;> rfl
  · exact (s.dispatch_origins x artefactType).trans (congrArg (· ++ [x]) h.origins)
  · have hnew := (h.completed x.taskId).not.mp (h.orderly.not_completed hlive)
    rw [List.map_append, List.nodup_append]
    refine ⟨h.nodup, List.nodup_singleton _, fun tid htid tid' htid' ↦ ?_⟩
    rw [List.mem_singleton.mp htid']
    rintro rfl
    exact hnew htid
  · rw [hcompleted, h.completed, List.map_append, List.mem_append, or_comm]
    exact or_congr_right List.mem_singleton.symm
  · exact fun y hy ↦ h.fresh y (hperm.mem_iff.mp hy)
  · exact (hperm.map _).nodup_iff.mpr h.distinct

end Report

theorem Inv.report (h : Inv p s) {x : Dispatch} {outcome : DispatchOutcome} {artefactType : String}
    (hstep : s.step (.report x outcome artefactType) = some t) : Inv p t := by
  simp only [step] at hstep
  split_ifs at hstep with hx
  obtain rfl := Option.some.inj hstep
  by_cases hout : outcome = .success
  · subst hout
    by_cases hrun : s.db.statusOf x.taskId = some .running
    · exact h.report_completing hx hrun artefactType
    · rw [runDispatchAndComplete_of_not_running hrun]
      exact h.report_discarded hx
  · cases outcome with
    | success => exact absurd rfl hout
    | _ => exact h.report_failing hx hout

theorem inv_step (h : Inv p s) (e : ArtefactEvent) (hstep : s.step e = some t) : Inv p t := by
  cases e with
  | readyTasks => exact h.readyTasks hstep
  | claim tid => exact h.claim hstep
  | report x outcome artefactType => exact h.report hstep
  | timeout tid =>
    obtain rfl := Option.some.inj hstep
    exact h.halt (s.db.halted_handleTaskTimeout tid) (s.db.handleTaskTimeout_mark tid)
  | cancelRun =>
    obtain rfl := Option.some.inj hstep
    exact h.halt s.db.halted_cancelTasks rfl

theorem inv_run {events : List ArtefactEvent} (h : Run step (begin p) events s) : Inv p s :=
  h.invariant (fun _ e _ hs hstep ↦ inv_step hs e hstep) (inv_begin p)

namespace Inv

variable (h : Inv p s)

include h

theorem taskIds : s.artefacts.map (·.taskId) = s.completions.map Dispatch.taskId := by
  rw [← h.origins, List.map_map]
  rfl

theorem origin_mem {a : ResultArtefact} (ha : a ∈ s.artefacts) : a.origin ∈ s.completions :=
  h.origins ▸ List.mem_map_of_mem ha

theorem exists_artefact {tid : TaskId} (hc : s.db.Completed tid) :
    ∃ a ∈ s.artefacts, a.taskId = tid := by
  have hmem := (h.completed tid).mp hc
  rw [← h.taskIds] at hmem
  exact List.mem_map.mp hmem

theorem artefacts_of_completed {tid : TaskId} (hc : s.db.Completed tid) :
    ∃ a, s.artefacts.filter (·.taskId = tid) = [a] ∧ a.origin ∈ s.completions := by
  obtain ⟨a, ha, rfl⟩ := h.exists_artefact hc
  exact ⟨a, filter_key_eq_singleton (h.taskIds ▸ h.nodup) ha, h.origin_mem ha⟩

theorem completed_of_hardSatisfied {tid : TaskId} (hsat : s.db.hardSatisfied tid) {d : TaskDependency}
    (hd : d ∈ p.db.deps) (hdep : d.dependentTaskId = tid) : s.db.Completed d.prerequisiteTaskId := by
  rw [← h.deps] at hd
  obtain ⟨d', hd', rfl⟩ := List.mem_map.mp hd
  exact h.orderly.satisfied d' hd' (Db.hardSatisfied_iff.mp hsat d' hd' hdep (h.orderly.hard d' hd'))

end Inv

/-- Every prerequisite that the plan gives the task is completed, and has left its artefact. -/
def PrerequisitesDone (p : Plan) (s : ArtefactEngine) (tid : TaskId) : Prop :=
  ∀ d ∈ p.db.deps, d.dependentTaskId = tid →
    s.db.Completed d.prerequisiteTaskId ∧ ∃ a ∈ s.artefacts, a.taskId = d.prerequisiteTaskId

/-- In every state that any order of transactions leads to, late reports included: what can be
claimed, or runs, has its prerequisites done; what is marked satisfied is completed; a completed
task has one artefact, from the dispatch whose conditional update succeeded; and no other dispatch
has left any. -/
theorem dependency_order_and_artefact_integrity (p : Plan) {events : List ArtefactEvent}
    {s : ArtefactEngine} (hrun : Run step (begin p) events s) :
    (∀ tid, (s.db.claim tid).isSome ∨ s.db.statusOf tid = some .running → PrerequisitesDone p s tid) ∧
    (∀ d ∈ s.db.deps, d.state = .satisfied → s.db.Completed d.prerequisiteTaskId) ∧
    (∀ tid, s.db.Completed tid →
      ∃ a, s.artefacts.filter (·.taskId = tid) = [a] ∧ a.origin ∈ s.completions) ∧
    (∀ a ∈ s.artefacts, a.origin ∈ s.completions ∧ s.db.Completed a.taskId) ∧
    ((s.dispatches ++ s.completions).map Dispatch.id).Nodup := by
  have h := inv_run hrun
  refine ⟨fun tid hgo d hd hdep ↦ ?_, h.orderly.satisfied, fun tid ↦ h.artefacts_of_completed,
    fun a ha ↦ ⟨h.origin_mem ha, ?_⟩, h.distinct⟩
  · have hstarted : ∃ st, s.db.statusOf tid = some st ∧ (st = .ready ∨ st = .running) := by
      rcases hgo with hclaim | hrunning
      · obtain ⟨db, hdb⟩ := Option.isSome_iff_exists.mp hclaim
        exact ⟨_, (Db.claim_eq_some.mp hdb).1, .inl rfl⟩
      · exact ⟨_, hrunning, .inr rfl⟩
    obtain ⟨st, hst, hgo⟩ := hstarted
    have hc := h.completed_of_hardSatisfied (h.orderly.started tid st hst hgo) hd hdep
    exact ⟨hc, h.exists_artefact hc⟩
  · exact (h.completed _).mpr (List.mem_map_of_mem (h.origin_mem ha))

section Example

def threeTaskPlan : Plan where
  db :=
    { tasks := ⟨[(0, ⟨"news_ingestion", "news", .planned, true, 0, 3, 600, none, none⟩),
        (1, ⟨"sentiment_analysis", "sentiment", .planned, true, 0, 3, 600, none, none⟩),
        (2, ⟨"market_analysis", "market", .planned, true, 0, 3, 600, none, none⟩)], by decide⟩
      deps := [⟨1, 0, .hard, .unsatisfied⟩] }
  planned := by decide
  hard := by decide
  dependent_mem := by decide
  prerequisite_mem := by decide

/-- The dispatch of the last task reports after its timeout, and is discarded. -/
def lateResultRun : List ArtefactEvent :=
  [.readyTasks, .claim 0, .claim 2, .timeout 2, .report ⟨1, 2⟩ .success "market",
    .report ⟨0, 0⟩ .success "news", .claim 1]

def lateResultEnd : ArtefactEngine :=
  (exec step (begin threeTaskPlan) lateResultRun).get (by decide +kernel)

theorem lateResultEnd_integrity :
    PrerequisitesDone threeTaskPlan lateResultEnd 1 ∧
      (∃ a, lateResultEnd.artefacts.filter (·.taskId = 0) = [a] ∧
        a.origin ∈ lateResultEnd.completions) ∧
      ∀ a ∈ lateResultEnd.artefacts, a.taskId ≠ 2 := by
  have hrun : Run step (begin threeTaskPlan) lateResultRun lateResultEnd :=
    exec_eq_some.mp (Option.some_get (by decide +kernel)).symm
  obtain ⟨hprerequisites, -, hartefacts, hwinners, -⟩ :=
    dependency_order_and_artefact_integrity threeTaskPlan hrun
  have hcompleted : lateResultEnd.db.statusOf 0 = some .completed := by decide +kernel
  have hfailed : lateResultEnd.db.statusOf 2 = some .failed := by decide +kernel
  refine ⟨hprerequisites 1 (.inr (by decide +kernel)), hartefacts 0 hcompleted, fun a ha htask ↦ ?_⟩
  have hc := (hwinners a ha).2
  rw [htask] at hc
  cases hfailed.symm.trans hc

end Example

end ArtefactEngine

end TradingOS.Orchestration
