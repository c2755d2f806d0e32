import TradingOS.Orchestration.ResearchScaffold

namespace TradingOS.Orchestration.Planner

open Lib

/-- The same task, with more to wait for. -/
def PlannedTask.Extends (t t' : PlannedTask) : Prop :=
  ∃ more, t' = { t with dependsOn := t.dependsOn ++ more }

namespace GeneratedPlan

/-- The same plan, with more tasks behind its own and more for its own to wait for. -/
def Extends (plan plan' : GeneratedPlan) : Prop :=
  ∃ own added, List.Forall₂ PlannedTask.Extends plan.tasks own ∧
    plan' = { plan with tasks := own ++ added }

def adding (plan : GeneratedPlan) (added : List PlannedTask) : GeneratedPlan :=
  { plan with tasks := plan.tasks ++ added }

/-- The rows of the research scaffold that no task provides. -/
def missing (plan : GeneratedPlan) : List ScaffoldRow :=
  contextScaffold.filter fun row ↦ ¬ plan.Planned row.capability

variable {plan : GeneratedPlan} {registry : List AgentSnapshotRow}

section Appending

theorem extends_refl (t : PlannedTask) : t.Extends t := ⟨[], by rw [List.append_nil]⟩

theorem adding_nil (plan : GeneratedPlan) : plan.adding [] = plan := by
  rw [adding, List.append_nil]

theorem adding_adding (plan : GeneratedPlan) (added added' : List PlannedTask) :
    (plan.adding added).adding added' = plan.adding (added ++ added') := by
  simp only [adding, List.append_assoc]

theorem extends_adding (plan : GeneratedPlan) (added : List PlannedTask) :
    plan.Extends (plan.adding added) :=
  ⟨plan.tasks, added, List.forall₂_same.mpr fun t _ ↦ extends_refl t, rfl⟩

theorem extends_self (plan : GeneratedPlan) : plan.Extends plan := by
  have h := plan.extends_adding []
  rwa [adding_nil] at h

theorem extends_wire (t : PlannedTask) : t.Extends (plan.wire t) := by
  rw [wire]
  split
  · exact ⟨[plan.assemblyKey], rfl⟩
  · exact extends_refl t

end Appending

section Research

theorem foldl_addMissing_eq_self {rows : List ScaffoldRow} {tasks : List PlannedTask}
    (h : ∀ row ∈ rows, ∃ t ∈ tasks, t.capability = row.capability) :
    rows.foldl (plan.addMissing registry) tasks = tasks := by
  induction rows with
  | nil => rfl
  | cons row rows ih =>
    obtain ⟨hrow, hrows⟩ := List.forall_mem_cons.mp h
    rw [List.foldl_cons, addMissing, if_pos hrow]
    exact ih hrows

/-- The tasks that come back, where there is a strategy. -/
theorem tasks_ensureResearchScaffold (registry : List AgentSnapshotRow)
    (h : ∃ t ∈ plan.tasks, t.capability ∈ strategyCaps) :
    (plan.ensureResearchScaffold registry).tasks =
      (plan.tasks ++ plan.missing.map (plan.provide registry)).map plan.wire := by
  have hrows : (contextScaffold.map (·.capability)).Nodup := by decide
  rw [missing, ensureResearchScaffold, if_neg (not_not.mpr h), foldl_addMissing hrows]
  simp only [Planned, not_exists, not_and, ne_eq]

/-- The scaffold does not change which task a capability is found at. -/
theorem keyForCap_ensureResearchScaffold (c : String) :
    (plan.ensureResearchScaffold registry).keyForCap c = plan.keyForCap c := by
  by_cases h : ∃ t ∈ plan.tasks, t.capability ∈ strategyCaps
  · have hkey : (fun t : PlannedTask ↦ t.key) ∘ plan.wire = fun t ↦ t.key := funext wire_key
    rw [keyForCap, tasks_ensureResearchScaffold registry h, lastOf_map wire_capability, Option.map_map,
      lastOf_append, hkey, keyForCap]
    cases hlast : lastOf PlannedTask.capability (plan.missing.map (plan.provide registry)) c with
    | none => rw [Option.none_or]
    | some v =>
      obtain ⟨hv, hcap⟩ := of_lastOf_eq_some hlast
      obtain ⟨row, hrow, rfl⟩ := List.mem_map.mp hv
      obtain ⟨hrow, hnone⟩ := List.mem_filter.mp hrow
      obtain rfl : row.capability = c := hcap
      have hnone := of_decide_eq_true hnone
      rw [lastOf_eq_none_of_not_planned hnone, Option.some_or, Option.map_some, Option.getD_some,
        provide_key registry hrow hnone, scaffoldKey_capability row hrow]
      rfl
  · rw [ensureResearchScaffold, if_pos h]

theorem planned_ensureResearchScaffold (h : ∃ t ∈ plan.tasks, t.capability ∈ strategyCaps)
    {row : ScaffoldRow} (hrow : row ∈ contextScaffold) :
    (plan.ensureResearchScaffold registry).Planned row.capability := by
  obtain ⟨v, hv, hcap, -⟩ := (exists_provides registry h hrow (p := fun _ ↦ True)).mpr
    ⟨_, provides_keyForCap row.capability, trivial⟩
  exact ⟨v, hv, hcap⟩

/-- What has been wired stays as it is. -/
theorem wire_ensureResearchScaffold (h : ∃ t ∈ plan.tasks, t.capability ∈ strategyCaps)
    {t : PlannedTask} (ht : t ∈ (plan.ensureResearchScaffold registry).tasks) :
    (plan.ensureResearchScaffold registry).wire t = t := by
  rw [wire, if_neg]
  rintro ⟨hcap, hnotin⟩
  have hassembly : (plan.ensureResearchScaffold registry).assemblyKey = plan.assemblyKey :=
    keyForCap_ensureResearchScaffold "context_assembly"
  rw [tasks_ensureResearchScaffold registry h] at ht
  obtain ⟨t', -, rfl⟩ := List.mem_map.mp ht
  rw [wire_capability] at hcap
  rw [hassembly] at hnotin
  exact hnotin (mem_wire_dependsOn.mpr (.inr ⟨hcap, rfl⟩))

theorem ensureResearchScaffold_idempotent (plan : GeneratedPlan) (registry : List AgentSnapshotRow) :
    (plan.ensureResearchScaffold registry).ensureResearchScaffold registry =
      plan.ensureResearchScaffold registry := by
  by_cases h : ∃ t ∈ plan.tasks, t.capability ∈ strategyCaps
  · let out := plan.ensureResearchScaffold registry
    have hout : ∃ t ∈ out.tasks, t.capability ∈ strategyCaps := by
      obtain ⟨t, ht, hcap⟩ := h
      exact ⟨plan.wire t, (mem_ensureResearchScaffold ⟨t, ht, hcap⟩).mpr (.inl ⟨t, ht, rfl⟩),
        (wire_capability t).symm ▸ hcap⟩
    have hall : contextScaffold.foldl (out.addMissing registry) out.tasks = out.tasks :=
      foldl_addMissing_eq_self fun row hrow ↦ planned_ensureResearchScaffold h hrow
    have hwired : out.tasks.map out.wire = out.tasks := by
      rw [List.map_congr_left fun t ht ↦ wire_ensureResearchScaffold h ht]
      exact List.map_id' out.tasks
    rw [ensureResearchScaffold, if_neg (not_not.mpr hout), hall, hwired]
  · have hout : plan.ensureResearchScaffold registry = plan := if_pos h
    rw [hout, hout]

theorem extends_ensureResearchScaffold : plan.Extends (plan.ensureResearchScaffold registry) := by
  by_cases h : ∃ t ∈ plan.tasks, t.capability ∈ strategyCaps
  · refine ⟨plan.tasks.map plan.wire, (plan.missing.map (plan.provide registry)).map plan.wire, ?_, ?_⟩
    · rw [List.forall₂_map_right_iff, List.forall₂_same]
      exact fun t _ ↦ extends_wire t
    · rw [← List.map_append, ← tasks_ensureResearchScaffold registry h, ensureResearchScaffold,
        if_neg (not_not.mpr h)]
  · rw [ensureResearchScaffold, if_pos h]
    exact extends_self plan

end Research

section Adhoc

theorem withPortfolio_of_planned (h : plan.Planned "portfolio_read") :
    plan.withPortfolio registry = plan :=
  if_pos h

theorem withSynthesis_of_planned (h : plan.Planned "adhoc_synthesis") :
    plan.withSynthesis registry = plan :=
  if_pos h

theorem planned_adding {c : String} (h : plan.Planned c) (added : List PlannedTask) :
    (plan.adding added).Planned c := by
  obtain ⟨t, ht, hcap⟩ := h
  exact ⟨t, List.mem_append_left _ ht, hcap⟩

/-- The tasks that are added are of the two capabilities, which then are planned. -/
theorem ensureAdhocScaffold_cases (registry : List AgentSnapshotRow)
    (h : plan.objectiveClassification ∈ adhocObjectiveKinds) :
    ∃ added, plan.ensureAdhocScaffold registry = plan.adding added ∧
      (plan.ensureAdhocScaffold registry).Planned "portfolio_read" ∧
      (plan.ensureAdhocScaffold registry).Planned "adhoc_synthesis" := by
  have hfirst : ∃ added, plan.withPortfolio registry = plan.adding added ∧
      (plan.withPortfolio registry).Planned "portfolio_read" := by
    by_cases hplanned : plan.Planned "portfolio_read"
    · rw [withPortfolio_of_planned hplanned]
      exact ⟨[], plan.adding_nil.symm, hplanned⟩
    · rw [withPortfolio, if_neg hplanned]
      exact ⟨_, rfl, adhocPortfolio registry, List.mem_append_right _ List.mem_cons_self, rfl⟩
  obtain ⟨added, hadded, hportfolio⟩ := hfirst
  rw [ensureAdhocScaffold, if_neg (not_not.mpr h)]
  by_cases hplanned : (plan.withPortfolio registry).Planned "adhoc_synthesis"
  · rw [withSynthesis_of_planned hplanned]
    exact ⟨added, hadded, hportfolio, hplanned⟩
  · rw [withSynthesis, if_neg hplanned]
    refine ⟨added ++ [(plan.withPortfolio registry).adhocSynthesis registry], ?_,
      planned_adding hportfolio _, _, List.mem_append_right _ List.mem_cons_self, rfl⟩
    rw [hadded, ← adding_adding]
    rfl

theorem ensureAdhocScaffold_idempotent (plan : GeneratedPlan) (registry : List AgentSnapshotRow) :
    (plan.ensureAdhocScaffold registry).ensureAdhocScaffold registry =
      plan.ensureAdhocScaffold registry := by
  by_cases h : plan.objectiveClassification ∈ adhocObjectiveKinds
  · obtain ⟨added, hadded, hportfolio, hsynthesis⟩ := ensureAdhocScaffold_cases registry h
    have hkind : (plan.ensureAdhocScaffold registry).objectiveClassification ∈ adhocObjectiveKinds := by
      rw [hadded]
      exact h
    rw [ensureAdhocScaffold, if_neg (not_not.mpr hkind), withPortfolio_of_planned hportfolio,
      withSynthesis_of_planned hsynthesis]
  · have hout : plan.ensureAdhocScaffold registry = plan := if_pos h
    rw [hout, hout]

theorem extends_ensureAdhocScaffold : plan.Extends (plan.ensureAdhocScaffold registry) := by
  by_cases h : plan.objectiveClassification ∈ adhocObjectiveKinds
  · obtain ⟨added, hadded, -⟩ := ensureAdhocScaffold_cases registry h
    rw [hadded]
    exact extends_adding plan added
  · rw [ensureAdhocScaffold, if_pos h]
    exact extends_self plan

end Adhoc

/-- Each scaffold, on its own result, finds all in place; and all it does to a plan is add. -/
theorem scaffolds_conservative (plan : GeneratedPlan) (registry : List AgentSnapshotRow) :
    ((plan.ensureResearchScaffold registry).ensureResearchScaffold registry =
        plan.ensureResearchScaffold registry ∧
      plan.Extends (plan.ensureResearchScaffold registry)) ∧
    (plan.ensureAdhocScaffold registry).ensureAdhocScaffold registry =
        plan.ensureAdhocScaffold registry ∧
      plan.Extends (plan.ensureAdhocScaffold registry) :=
  ⟨⟨plan.ensureResearchScaffold_idempotent registry, extends_ensureResearchScaffold⟩,
    plan.ensureAdhocScaffold_idempotent registry, extends_ensureAdhocScaffold⟩

end GeneratedPlan

end TradingOS.Orchestration.Planner
