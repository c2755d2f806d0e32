import TradingOS.Orchestration.CycleCheck
import TradingOS.Orchestration.SafetyOrder
import TradingOS.Orchestration.ScaffoldExtension

namespace TradingOS.Orchestration.Planner

open Lib Lib.Closure Relation

/-- The agent is known and declares the capability. -/
def Known.Declares (known : Known) (agent capability : String) : Prop :=
  ∃ capabilities, known agent = some capabilities ∧ capability ∈ capabilities

/-- The enabled agents of a registry. -/
def knownOf (registry : List AgentSnapshotRow) : Known := fun name ↦
  (lastOf AgentSnapshotRow.name (registry.filter (·.enabled)) name).map (·.capabilities)

namespace GeneratedPlan

/-- What adding tasks behind the others and edges to them does not take from a plan. -/
structure Grounded (plan : GeneratedPlan) : Prop where
  nonempty : plan.tasks ≠ []
  inPlan : ∀ t ∈ plan.tasks, ∀ dep ∈ t.dependsOn, dep ∈ plan.tasks.map PlannedTask.key
  stages : ∀ p ∈ plan.present.zip plan.present.tail, TransGen plan.KeyLeads p.2.2 p.1.2

/-- What it may. -/
structure Admissible (plan : GeneratedPlan) (known : Known) : Prop where
  keys : (plan.tasks.map PlannedTask.key).Nodup
  declared : ∀ t ∈ plan.tasks, known.Declares t.assignedAgent t.capability
  acyclic : ∀ k, ¬ TransGen plan.KeyLeads k k

variable {plan : GeneratedPlan} {known : Known} {room : ℕ}

section Validate

theorem checkTask_eq_ok {t : PlannedTask} :
    plan.checkTask known t = .ok () ↔ known.Declares t.assignedAgent t.capability ∧
      ∀ dep ∈ t.dependsOn, dep ∈ plan.tasks.map PlannedTask.key ∧ dep ≠ t.key := by
  rw [checkTask, Known.Declares]
  cases known t.assignedAgent with
  | none => simp
  | some capabilities =>
    have hkey {dep : String} :
        (∃ u ∈ plan.tasks, u.key = dep) ↔ dep ∈ plan.tasks.map PlannedTask.key := List.mem_map.symm
    simp only [ite_error_eq_ok, forM_eq_ok, checkDependency_eq_ok, hkey, not_not,
      Option.some.injEq, exists_eq_left']

theorem assertSafetyOrder_eq_ok (hkeys : (plan.tasks.map PlannedTask.key).Nodup) :
    plan.assertSafetyOrder = .ok () ↔
      ∀ p ∈ plan.present.zip plan.present.tail, TransGen plan.KeyLeads p.2.2 p.1.2 := by
  constructor
  · intro h p hp
    exact (reach_edge hkeys).mp (stages_of_assertSafetyOrder h p hp)
  · intro h
    rw [assertSafetyOrder]
    split
    · rfl
    · refine forM_eq_ok.mpr fun p hp ↦ ?_
      rw [assertStage, if_pos]
      exact (reach_edge hkeys).mpr (h p hp)

theorem of_validate (h : plan.validate room known = .ok ()) :
    plan.Grounded ∧ plan.Admissible known := by
  rw [validate, ite_error_eq_ok, ite_error_eq_ok, not_not] at h
  obtain ⟨hnonempty, hkeys, h⟩ := h
  obtain ⟨⟨⟩, htasks, h⟩ := bind_eq_ok.mp h
  obtain ⟨⟨⟩, hacyclic, hstages⟩ := bind_eq_ok.mp h
  have htask (t : PlannedTask) (ht : t ∈ plan.tasks) := checkTask_eq_ok.mp (forM_eq_ok.mp htasks t ht)
  exact
    ⟨⟨hnonempty, fun t ht dep hdep ↦ ((htask t ht).2 dep hdep).1,
      (assertSafetyOrder_eq_ok hkeys).mp hstages⟩,
    ⟨hkeys, fun t ht ↦ (htask t ht).1, acyclic_of_assertAcyclic hkeys hacyclic⟩⟩

theorem validate_eq_ok (hroom : plan.tasks.length < room) :
    plan.validate room known = .ok () ↔ plan.Grounded ∧ plan.Admissible known := by
  refine ⟨of_validate, ?_⟩
  rintro ⟨hgrounded, hadmissible⟩
  have hacyclic : ¬ plan.Cyclic := fun ⟨k, hk⟩ ↦ hadmissible.acyclic k hk
  have htasks (t : PlannedTask) (ht : t ∈ plan.tasks) : plan.checkTask known t = .ok () := by
    refine checkTask_eq_ok.mpr ⟨hadmissible.declared t ht, fun dep hdep ↦
      ⟨hgrounded.inPlan t ht dep hdep, ?_⟩⟩
    rintro rfl
    exact hadmissible.acyclic t.key (.single ⟨t, ht, rfl, hdep⟩)
  rw [validate, ite_error_eq_ok, ite_error_eq_ok, not_not]
  simp only [bind_eq_ok]
  exact ⟨hgrounded.nonempty, hadmissible.keys, (), forM_eq_ok.mpr htasks, (),
    (assertAcyclic_eq_ok hadmissible.keys hroom).mpr hacyclic,
    (assertSafetyOrder_eq_ok hadmissible.keys).mpr hgrounded.stages⟩

end Validate

section Adding

variable {v : PlannedTask}

theorem mem_keys_of_path (h : plan.Grounded) {x y : String} (hpath : ReflTransGen plan.KeyLeads x y) :
    y = x ∨ y ∈ plan.tasks.map PlannedTask.key := by
  rcases ReflTransGen.cases_tail hpath with rfl | ⟨z, -, t, ht, -, hdep⟩
  · exact .inl rfl
  · exact .inr (h.inPlan t ht y hdep)

theorem keyLeads_adding :
    (plan.adding [v]).KeyLeads = Bridge plan.KeyLeads (· = v.key) (· ∈ v.dependsOn) := by
  funext x y
  simp [adding, KeyLeads, Bridge, or_and_right, exists_or, eq_comm]

theorem present_adding (hsafe : v.capability ∉ safetyOrder) :
    (plan.adding [v]).present = plan.present := by
  refine List.filterMap_congr fun c hc ↦ ?_
  have hlast : lastOf PlannedTask.capability [v] c = none := by
    rw [lastOf_eq_none, List.forall_mem_singleton]
    rintro rfl
    exact hsafe hc
  rw [byCap, byCap, if_pos hc, if_pos hc, adding, lastOf_append, hlast, Option.none_or]

theorem grounded_adding (h : plan.Grounded) (hsafe : v.capability ∉ safetyOrder)
    (hdeps : ∀ dep ∈ v.dependsOn, dep ∈ plan.tasks.map PlannedTask.key) :
    (plan.adding [v]).Grounded where
  nonempty := List.append_ne_nil_of_left_ne_nil h.nonempty _
  inPlan t ht dep hdep := by
    rw [adding, List.map_append]
    refine List.mem_append_left _ ?_
    rcases List.mem_append.mp ht with ht | ht
    · exact h.inPlan t ht dep hdep
    · obtain rfl := List.mem_singleton.mp ht
      exact hdeps dep hdep
  stages p hp := by
    rw [present_adding hsafe] at hp
    rw [keyLeads_adding]
    exact TransGen.mono (fun _ _ ↦ .inl) _ _ (h.stages p hp)

/-- A task that waits for others of the plan closes no cycle, for none waits for it. -/
theorem admissible_adding (h : plan.Grounded)
    (hdeps : ∀ dep ∈ v.dependsOn, dep ∈ plan.tasks.map PlannedTask.key) :
    (plan.adding [v]).Admissible known ↔ plan.Admissible known ∧
      v.key ∉ plan.tasks.map PlannedTask.key ∧ known.Declares v.assignedAgent v.capability := by
  have hkeys : ((plan.adding [v]).tasks.map PlannedTask.key).Nodup ↔
      (plan.tasks.map PlannedTask.key).Nodup ∧ v.key ∉ plan.tasks.map PlannedTask.key := by
    rw [adding, List.map_append, List.nodup_append']
    simp
  have hdeclared : (∀ t ∈ (plan.adding [v]).tasks, known.Declares t.assignedAgent t.capability) ↔
      (∀ t ∈ plan.tasks, known.Declares t.assignedAgent t.capability) ∧
        known.Declares v.assignedAgent v.capability := by
    rw [adding, List.forall_mem_append, List.forall_mem_singleton]
  have hacyclic (hfresh : v.key ∉ plan.tasks.map PlannedTask.key) :
      (∀ k, ¬ TransGen (plan.adding [v]).KeyLeads k k) ↔ ∀ k, ¬ TransGen plan.KeyLeads k k := by
    rw [keyLeads_adding, acyclic_bridge]
    refine and_iff_left ?_
    rintro a b rfl hb hpath
    rcases mem_keys_of_path h hpath with heq | hin
    · exact hfresh (heq ▸ hdeps b hb)
    · exact hfresh hin
  constructor
  · rintro ⟨hnodup, hdecl, hacyc⟩
    obtain ⟨hnodup, hfresh⟩ := hkeys.mp hnodup
    exact ⟨⟨hnodup, (hdeclared.mp hdecl).1, (hacyclic hfresh).mp hacyc⟩, hfresh, (hdeclared.mp hdecl).2⟩
  · rintro ⟨⟨hnodup, hdecl, hacyc⟩, hfresh, hv⟩
    exact ⟨hkeys.mpr ⟨hnodup, hfresh⟩, hdeclared.mpr ⟨hdecl, hv⟩, (hacyclic hfresh).mpr hacyc⟩

/-- Each task waits only for keys that are there before it. -/
def Stacked : List String → List PlannedTask → Prop
  | _, [] => True
  | keys, v :: vs => (∀ dep ∈ v.dependsOn, dep ∈ keys) ∧ Stacked (keys ++ [v.key]) vs

theorem stacked_tail {vs : List PlannedTask}
    (h : Stacked (plan.tasks.map PlannedTask.key) (v :: vs)) :
    Stacked ((plan.adding [v]).tasks.map PlannedTask.key) vs := by
  rw [adding, List.map_append]
  exact h.2

theorem grounded_stack {vs : List PlannedTask} (h : plan.Grounded)
    (hsafe : ∀ v ∈ vs, v.capability ∉ safetyOrder)
    (hvs : Stacked (plan.tasks.map PlannedTask.key) vs) : (plan.adding vs).Grounded := by
  induction vs generalizing plan with
  | nil => rwa [adding_nil]
  | cons v vs ih =>
    obtain ⟨hv, hrest⟩ := List.forall_mem_cons.mp hsafe
    rw [← List.singleton_append, ← adding_adding]
    exact ih (grounded_adding h hv hvs.1) hrest (stacked_tail hvs)

theorem admissible_stack {vs : List PlannedTask} (h : plan.Grounded)
    (hsafe : ∀ v ∈ vs, v.capability ∉ safetyOrder)
    (hvs : Stacked (plan.tasks.map PlannedTask.key) vs) (hkeys : (vs.map PlannedTask.key).Nodup) :
    (plan.adding vs).Admissible known ↔ plan.Admissible known ∧
      ∀ v ∈ vs, v.key ∉ plan.tasks.map PlannedTask.key ∧ known.Declares v.assignedAgent v.capability := by
  induction vs generalizing plan with
  | nil => simp [adding_nil]
  | cons v vs ih =>
    obtain ⟨hv, hrest⟩ := List.forall_mem_cons.mp hsafe
    obtain ⟨hnotin, hkeys⟩ := List.nodup_cons.mp hkeys
    have hother : ∀ w ∈ vs, (w.key ∉ (plan.adding [v]).tasks.map PlannedTask.key ∧
        known.Declares w.assignedAgent w.capability) ↔
          w.key ∉ plan.tasks.map PlannedTask.key ∧ known.Declares w.assignedAgent w.capability := by
      intro w hw
      have hne : w.key ≠ v.key := fun he ↦ hnotin (he ▸ List.mem_map_of_mem hw)
      rw [adding, List.map_append, List.mem_append, List.map_singleton, List.mem_singleton,
        or_iff_left hne]
    rw [← List.singleton_append, ← adding_adding,
      ih (grounded_adding h hv hvs.1) hrest (stacked_tail hvs) hkeys, admissible_adding h hvs.1,
      List.singleton_append, List.forall_mem_cons, forall₂_congr hother, and_assoc]

end Adding

section Wiring

def wiring (plan mid : GeneratedPlan) : GeneratedPlan :=
  { mid with tasks := mid.tasks.map plan.wire }

/-- The keys of the strategy tasks. -/
def Strategic (plan : GeneratedPlan) (k : String) : Prop :=
  ∃ t ∈ plan.tasks, t.key = k ∧ t.capability ∈ strategyCaps

variable {mid : GeneratedPlan}

@[simp] theorem wire_assignedAgent (t : PlannedTask) :
    (plan.wire t).assignedAgent = t.assignedAgent := by
  rw [wire]
  split <;> rfl

theorem keys_wiring : (plan.wiring mid).tasks.map PlannedTask.key = mid.tasks.map PlannedTask.key := by
  rw [wiring, List.map_map]
  exact List.map_congr_left fun t _ ↦ wire_key t

theorem keyLeads_wiring :
    (plan.wiring mid).KeyLeads = Bridge mid.KeyLeads mid.Strategic (· = plan.assemblyKey) := by
  funext x y
  refine propext ?_
  constructor
  · rintro ⟨t', ht', hkey, hdep⟩
    obtain ⟨t, ht, rfl⟩ := List.mem_map.mp ht'
    rw [wire_key] at hkey
    rcases mem_wire_dependsOn.mp hdep with hdep | ⟨hcap, rfl⟩
    · exact .inl ⟨t, ht, hkey, hdep⟩
    · exact .inr ⟨⟨t, ht, hkey, hcap⟩, rfl⟩
  · rintro (⟨t, ht, hkey, hdep⟩ | ⟨⟨t, ht, hkey, hcap⟩, rfl⟩)
    · exact ⟨_, List.mem_map_of_mem ht, (wire_key t).trans hkey, mem_wire_dependsOn.mpr (.inl hdep)⟩
    · exact ⟨_, List.mem_map_of_mem ht, (wire_key t).trans hkey,
        mem_wire_dependsOn.mpr (.inr ⟨hcap, rfl⟩)⟩

theorem present_wiring : (plan.wiring mid).present = mid.present := by
  refine List.filterMap_congr fun c hc ↦ ?_
  rw [byCap, byCap, if_pos hc, if_pos hc, wiring, lastOf_map wire_capability, Option.map_map]
  simp only [Function.comp_def, wire_key]

theorem grounded_wiring (h : mid.Grounded)
    (hassembly : plan.assemblyKey ∈ mid.tasks.map PlannedTask.key) : (plan.wiring mid).Grounded where
  nonempty := by
    rw [wiring, ne_eq, List.map_eq_nil_iff]
    exact h.nonempty
  inPlan t ht dep hdep := by
    rw [keys_wiring]
    obtain ⟨t', ht', rfl⟩ := List.mem_map.mp ht
    rcases mem_wire_dependsOn.mp hdep with hdep | ⟨-, rfl⟩
    · exact h.inPlan t' ht' dep hdep
    · exact hassembly
  stages p hp := by
    rw [present_wiring] at hp
    rw [keyLeads_wiring]
    exact TransGen.mono (fun _ _ ↦ .inl) _ _ (h.stages p hp)

/-- The edges to the assembly close a cycle exactly if the assembly leads back to a strategy. -/
theorem admissible_wiring : (plan.wiring mid).Admissible known ↔ mid.Admissible known ∧
    ∀ k, mid.Strategic k → ¬ ReflTransGen mid.KeyLeads plan.assemblyKey k := by
  have hdeclared : (∀ t ∈ (plan.wiring mid).tasks, known.Declares t.assignedAgent t.capability) ↔
      ∀ t ∈ mid.tasks, known.Declares t.assignedAgent t.capability := by
    simp only [wiring, List.forall_mem_map, wire_assignedAgent, wire_capability]
  have hacyclic : (∀ k, ¬ TransGen (plan.wiring mid).KeyLeads k k) ↔
      (∀ k, ¬ TransGen mid.KeyLeads k k) ∧
        ∀ k, mid.Strategic k → ¬ ReflTransGen mid.KeyLeads plan.assemblyKey k := by
    rw [keyLeads_wiring, acyclic_bridge]
    exact and_congr_right fun _ ↦
      ⟨fun h k hk ↦ h k _ hk rfl, fun h a b ha hb ↦ hb.symm ▸ h a ha⟩
  constructor
  · rintro ⟨hkeys, hdecl, hacyc⟩
    exact ⟨⟨keys_wiring ▸ hkeys, hdeclared.mp hdecl, (hacyclic.mp hacyc).1⟩, (hacyclic.mp hacyc).2⟩
  · rintro ⟨⟨hkeys, hdecl, hacyc⟩, hback⟩
    exact ⟨keys_wiring.symm ▸ hkeys, hdeclared.mpr hdecl, hacyclic.mpr ⟨hacyc, hback⟩⟩

end Wiring

section Missing

variable {registry : List AgentSnapshotRow} {c : String} {row : ScaffoldRow}

/-- Each row asks only for capabilities of the rows before it. -/
def Staged : List String → List ScaffoldRow → Prop
  | _, [] => True
  | before, row :: rows =>
    (∀ dk ∈ row.dependencies, capForScaffoldKey dk ∈ before) ∧ Staged (row.capability :: before) rows

theorem staged_contextScaffold : Staged [] contextScaffold :=
  ⟨by decide, by decide, by decide, by decide, by decide, by decide, trivial⟩

theorem keyForCap_of_lastOf {u : PlannedTask}
    (h : lastOf PlannedTask.capability plan.tasks c = some u) : plan.keyForCap c = u.key := by
  rw [keyForCap, h]
  rfl

theorem exists_lastOf (h : plan.Planned c) :
    ∃ u, lastOf PlannedTask.capability plan.tasks c = some u := by
  obtain ⟨t, ht, hcap⟩ := h
  exact Option.ne_none_iff_exists'.mp fun hnone ↦ lastOf_eq_none.mp hnone t ht hcap

theorem mem_missing : row ∈ plan.missing ↔ row ∈ contextScaffold ∧ ¬ plan.Planned row.capability := by
  simp [missing]

theorem keyForCap_of_missing (h : row ∈ plan.missing) : plan.keyForCap row.capability = row.key :=
  provide_key [] (mem_missing.mp h).1 (mem_missing.mp h).2

theorem stacked_provide {rows : List ScaffoldRow} {before keys : List String}
    (hrows : Staged before rows) (hbefore : ∀ c ∈ before, plan.keyForCap c ∈ keys)
    (hkeys : ∀ t ∈ plan.tasks, t.key ∈ keys) :
    Stacked keys ((rows.filter fun row ↦ ¬ plan.Planned row.capability).map
      (plan.provide registry)) := by
  induction rows generalizing before keys with
  | nil => trivial
  | cons row rows ih =>
    obtain ⟨hrow, hrows⟩ := hrows
    by_cases hplanned : plan.Planned row.capability
    · rw [List.filter_cons_of_neg (by simpa using hplanned)]
      refine ih hrows (List.forall_mem_cons.mpr ⟨?_, hbefore⟩) hkeys
      obtain ⟨u, hu⟩ := exists_lastOf hplanned
      exact keyForCap_of_lastOf hu ▸ hkeys u (of_lastOf_eq_some hu).1
    · rw [List.filter_cons_of_pos (by simpa using hplanned), List.map_cons]
      refine ⟨fun dep hdep ↦ ?_, ih hrows (List.forall_mem_cons.mpr ⟨?_, ?_⟩) ?_⟩
      · obtain ⟨dk, hdk, rfl⟩ := List.mem_map.mp hdep
        exact hbefore _ (hrow dk hdk)
      · exact List.mem_append_right _ List.mem_cons_self
      · exact fun c hc ↦ List.mem_append_left _ (hbefore c hc)
      · exact fun t ht ↦ List.mem_append_left _ (hkeys t ht)

theorem keyLeads_missing {x y : String} :
    (plan.adding (plan.missing.map (plan.provide registry))).KeyLeads x y ↔
      plan.KeyLeads x y ∨ ∃ row ∈ plan.missing, row.key = x ∧
        ∃ dk ∈ row.dependencies, plan.keyForCap (capForScaffoldKey dk) = y := by
  constructor
  · rintro ⟨t, ht, rfl, hdep⟩
    rcases List.mem_append.mp ht with ht | ht
    · exact .inl ⟨t, ht, rfl, hdep⟩
    · obtain ⟨row, hrow, rfl⟩ := List.mem_map.mp ht
      exact .inr ⟨row, hrow, (keyForCap_of_missing hrow).symm, List.mem_map.mp hdep⟩
  · rintro (⟨t, ht, rfl, hdep⟩ | ⟨row, hrow, rfl, hdep⟩)
    · exact ⟨t, List.mem_append_left _ ht, rfl, hdep⟩
    · exact ⟨_, List.mem_append_right _ (List.mem_map_of_mem hrow), keyForCap_of_missing hrow,
        List.mem_map.mpr hdep⟩

/-- The capabilities whose last task the scaffold makes the strategies wait for. -/
def gathering (plan : GeneratedPlan) : List String :=
  if plan.Planned "context_assembly" then ["context_assembly"] else scaffoldInputs

/-- Some task that the strategies are made to wait for leads to the key. -/
def Gathers (plan : GeneratedPlan) (k : String) : Prop :=
  ∃ c ∈ plan.gathering, ∃ u, lastOf PlannedTask.capability plan.tasks c = some u ∧
    ReflTransGen plan.KeyLeads u.key k

/-- A path in the scaffold goes on in the plan, or through an input that is in the plan. -/
theorem path_missing (h : plan.Grounded)
    (hfresh : ∀ row ∈ plan.missing, row.key ∉ plan.tasks.map PlannedTask.key) {x k : String}
    (hk : k ∈ plan.tasks.map PlannedTask.key)
    (hpath : ReflTransGen
      (plan.adding (plan.missing.map (plan.provide registry))).KeyLeads x k) :
    (x ∈ plan.tasks.map PlannedTask.key → ReflTransGen plan.KeyLeads x k) ∧
      ∀ row ∈ plan.missing, row.key = x → ∃ c ∈ scaffoldInputs, ∃ u,
        lastOf PlannedTask.capability plan.tasks c = some u ∧ ReflTransGen plan.KeyLeads u.key k := by
  have hinputs : ∀ row ∈ contextScaffold, ∀ dk ∈ row.dependencies,
      capForScaffoldKey dk ∈ scaffoldInputs := by decide
  induction hpath using ReflTransGen.head_induction_on with
  | refl => exact ⟨fun _ ↦ .refl, fun row hrow heq ↦ absurd (heq ▸ hk) (hfresh row hrow)⟩
  | @head x y hedge _ ih =>
    obtain ⟨hplanned, hadded⟩ := ih
    rcases keyLeads_missing.mp hedge with hedge | ⟨row, hrow, rfl, dk, hdk, rfl⟩
    · have hx : x ∈ plan.tasks.map PlannedTask.key := by
        obtain ⟨t, ht, rfl, -⟩ := hedge
        exact List.mem_map_of_mem ht
      have hy : y ∈ plan.tasks.map PlannedTask.key := by
        obtain ⟨t, ht, -, hdep⟩ := hedge
        exact h.inPlan t ht y hdep
      exact ⟨fun _ ↦ .head hedge (hplanned hy), fun row hrow heq ↦ absurd (heq ▸ hx) (hfresh row hrow)⟩
    · refine ⟨fun hx ↦ absurd hx (hfresh row hrow), fun _ _ _ ↦ ?_⟩
      have hinput := hinputs row (mem_missing.mp hrow).1 dk hdk
      by_cases hc : plan.Planned (capForScaffoldKey dk)
      · obtain ⟨u, hu⟩ := exists_lastOf hc
        rw [keyForCap_of_lastOf hu] at hplanned
        exact ⟨_, hinput, u, hu, hplanned (List.mem_map_of_mem (of_lastOf_eq_some hu).1)⟩
      · obtain ⟨row', hrow', hcap⟩ := mem_scaffoldInputs hinput
        rw [← hcap] at hc hadded
        have hmissing := mem_missing.mpr ⟨hrow', hc⟩
        exact hadded row' hmissing (keyForCap_of_missing hmissing).symm

theorem path_assembly (h : plan.Grounded)
    (hfresh : ∀ row ∈ plan.missing, row.key ∉ plan.tasks.map PlannedTask.key) {k : String}
    (hk : k ∈ plan.tasks.map PlannedTask.key) :
    ReflTransGen (plan.adding (plan.missing.map (plan.provide registry))).KeyLeads
      plan.assemblyKey k ↔ plan.Gathers k := by
  have hmono {x : String} (hpath : ReflTransGen plan.KeyLeads x k) :
      ReflTransGen (plan.adding (plan.missing.map (plan.provide registry))).KeyLeads x k :=
    ReflTransGen.mono (fun _ _ he ↦ keyLeads_missing.mpr (.inl he)) _ _ hpath
  rw [Gathers, gathering]
  split
  · next hplanned =>
    obtain ⟨u, hu⟩ := exists_lastOf hplanned
    have hkey : plan.assemblyKey = u.key := keyForCap_of_lastOf hu
    have hin : u.key ∈ plan.tasks.map PlannedTask.key :=
      List.mem_map_of_mem (of_lastOf_eq_some hu).1
    simp only [List.mem_singleton, exists_eq_left, hu, Option.some.injEq, exists_eq_left', hkey]
    exact ⟨fun hpath ↦ (path_missing h hfresh hk hpath).1 hin, hmono⟩
  · next hnone =>
    obtain ⟨row, hrow, hcap, hinputs⟩ : ∃ row ∈ contextScaffold,
        row.capability = "context_assembly" ∧ ∀ c ∈ scaffoldInputs, ∃ dk ∈ row.dependencies,
          capForScaffoldKey dk = c := by decide
    rw [← hcap] at hnone
    have hmissing := mem_missing.mpr ⟨hrow, hnone⟩
    have hkey : plan.assemblyKey = row.key := by
      rw [assemblyKey, ← hcap]
      exact keyForCap_of_missing hmissing
    rw [hkey]
    constructor
    · intro hpath
      exact (path_missing h hfresh hk hpath).2 row hmissing rfl
    · rintro ⟨c, hc, u, hu, hpath⟩
      obtain ⟨dk, hdk, rfl⟩ := hinputs c hc
      exact .head (keyLeads_missing.mpr (.inr ⟨row, hmissing, rfl, dk, hdk, keyForCap_of_lastOf hu⟩))
        (hmono hpath)

end Missing

section Research

variable {registry : List AgentSnapshotRow}

theorem ensureResearchScaffold_eq (h : ∃ t ∈ plan.tasks, t.capability ∈ strategyCaps) :
    plan.ensureResearchScaffold registry =
      plan.wiring (plan.adding (plan.missing.map (plan.provide registry))) := by
  have htasks := tasks_ensureResearchScaffold registry h
  rw [ensureResearchScaffold, if_neg (not_not.mpr h)] at htasks ⊢
  exact congrArg (fun tasks ↦ { plan with tasks }) htasks

theorem safe_missing : ∀ v ∈ plan.missing.map (plan.provide registry), v.capability ∉ safetyOrder := by
  have hsafe : ∀ row ∈ contextScaffold, row.capability ∉ safetyOrder := by decide
  exact List.forall_mem_map.mpr fun row hrow ↦ hsafe row (mem_missing.mp hrow).1

theorem stacked_missing :
    Stacked (plan.tasks.map PlannedTask.key) (plan.missing.map (plan.provide registry)) :=
  stacked_provide staged_contextScaffold (fun _ hc ↦ absurd hc List.not_mem_nil)
    fun _ ht ↦ List.mem_map_of_mem ht

theorem keys_missing : (plan.missing.map (plan.provide registry)).map PlannedTask.key =
    plan.missing.map (·.key) := by
  rw [List.map_map]
  exact List.map_congr_left fun row hrow ↦ keyForCap_of_missing hrow

theorem assemblyKey_mem : plan.assemblyKey ∈
    (plan.adding (plan.missing.map (plan.provide registry))).tasks.map PlannedTask.key := by
  rw [adding, List.map_append, keys_missing, List.mem_append]
  obtain ⟨row, hrow, hcap⟩ : ∃ row ∈ contextScaffold, row.capability = "context_assembly" := by decide
  rw [assemblyKey, ← hcap]
  by_cases hplanned : plan.Planned row.capability
  · obtain ⟨u, hu⟩ := exists_lastOf hplanned
    rw [keyForCap_of_lastOf hu]
    exact .inl (List.mem_map_of_mem (of_lastOf_eq_some hu).1)
  · have hmissing := mem_missing.mpr ⟨hrow, hplanned⟩
    rw [keyForCap_of_missing hmissing]
    exact .inr (List.mem_map_of_mem hmissing)

theorem grounded_research (h : plan.Grounded) : (plan.ensureResearchScaffold registry).Grounded := by
  by_cases hstrategy : ∃ t ∈ plan.tasks, t.capability ∈ strategyCaps
  · rw [ensureResearchScaffold_eq hstrategy]
    exact grounded_wiring (grounded_stack h safe_missing stacked_missing) assemblyKey_mem
  · rwa [ensureResearchScaffold, if_pos hstrategy]

theorem strategic_missing {k : String} :
    (plan.adding (plan.missing.map (plan.provide registry))).Strategic k ↔ plan.Strategic k := by
  constructor
  · rintro ⟨t, ht, hkey, hcap⟩
    rcases List.mem_append.mp ht with ht | ht
    · exact ⟨t, ht, hkey, hcap⟩
    · obtain ⟨row, hrow, rfl⟩ := List.mem_map.mp ht
      exact absurd hcap (not_mem_strategyCaps row (mem_missing.mp hrow).1)
  · rintro ⟨t, ht, hkey, hcap⟩
    exact ⟨t, List.mem_append_left _ ht, hkey, hcap⟩

theorem admissible_research (hstrategy : ∃ t ∈ plan.tasks, t.capability ∈ strategyCaps)
    (h : plan.Grounded) :
    (plan.ensureResearchScaffold registry).Admissible known ↔ plan.Admissible known ∧
      (∀ row ∈ plan.missing, row.key ∉ plan.tasks.map PlannedTask.key ∧
        known.Declares (resolveScaffoldAgent registry row.capability row.assignedAgent) row.capability) ∧
      ∀ k, plan.Strategic k → ¬ plan.Gathers k := by
  have hkeys : ((plan.missing.map (plan.provide registry)).map PlannedTask.key).Nodup := by
    have hall : (contextScaffold.map (·.key)).Nodup := by decide
    rw [keys_missing]
    exact hall.sublist (List.filter_sublist.map _)
  rw [ensureResearchScaffold_eq hstrategy, admissible_wiring,
    admissible_stack h safe_missing stacked_missing hkeys, List.forall_mem_map, and_assoc]
  refine and_congr_right fun _ ↦ ?_
  have hrow : ∀ row ∈ plan.missing, ((plan.provide registry row).key ∉ plan.tasks.map PlannedTask.key ∧
      known.Declares (plan.provide registry row).assignedAgent (plan.provide registry row).capability) ↔
        row.key ∉ plan.tasks.map PlannedTask.key ∧ known.Declares
          (resolveScaffoldAgent registry row.capability row.assignedAgent) row.capability := by
    intro row hrow
    have hkey : (plan.provide registry row).key = row.key := keyForCap_of_missing hrow
    rw [hkey]
    rfl
  rw [forall₂_congr hrow]
  refine and_congr_right fun hfresh ↦ forall_congr' fun k ↦ ?_
  rw [strategic_missing]
  refine imp_congr_right fun hk ↦ not_congr ?_
  obtain ⟨t, ht, rfl, -⟩ := hk
  exact path_assembly h (fun row hrow ↦ (hfresh row hrow).1) (List.mem_map_of_mem ht)

/-- The keys and the capabilities of the tasks that come back. -/
theorem exists_research (hstrategy : ∃ t ∈ plan.tasks, t.capability ∈ strategyCaps)
    {p : String → String → Prop} :
    (∃ t ∈ (plan.ensureResearchScaffold registry).tasks, p t.key t.capability) ↔
      (∃ t ∈ plan.tasks, p t.key t.capability) ∨ ∃ row ∈ plan.missing, p row.key row.capability := by
  constructor
  · rintro ⟨t, ht, hp⟩
    rcases (mem_ensureResearchScaffold hstrategy).mp ht with ⟨t', ht', rfl⟩ | ⟨row, hrow, hnone, rfl⟩
    · rw [wire_key, wire_capability] at hp
      exact .inl ⟨t', ht', hp⟩
    · rw [wire_key, wire_capability, provide_key registry hrow hnone] at hp
      exact .inr ⟨row, mem_missing.mpr ⟨hrow, hnone⟩, hp⟩
  · rintro (⟨t, ht, hp⟩ | ⟨row, hrow, hp⟩)
    · refine ⟨plan.wire t, (mem_ensureResearchScaffold hstrategy).mpr (.inl ⟨t, ht, rfl⟩), ?_⟩
      rwa [wire_key, wire_capability]
    · obtain ⟨hrow, hnone⟩ := mem_missing.mp hrow
      refine ⟨_, (mem_ensureResearchScaffold hstrategy).mpr (.inr ⟨row, hrow, hnone, rfl⟩), ?_⟩
      rw [wire_key, wire_capability, provide_key registry hrow hnone]
      exact hp

theorem exists_research_of_other (hstrategy : ∃ t ∈ plan.tasks, t.capability ∈ strategyCaps)
    {p : String → String → Prop} (hother : ∀ row ∈ contextScaffold, ¬ p row.key row.capability) :
    (∃ t ∈ (plan.ensureResearchScaffold registry).tasks, p t.key t.capability) ↔
      ∃ t ∈ plan.tasks, p t.key t.capability := by
  refine (exists_research hstrategy).trans (or_iff_left ?_)
  rintro ⟨row, hrow, hp⟩
  exact hother row (mem_missing.mp hrow).1 hp

theorem objectiveClassification_research (hstrategy : ∃ t ∈ plan.tasks, t.capability ∈ strategyCaps) :
    (plan.ensureResearchScaffold registry).objectiveClassification =
      plan.objectiveClassification := by
  rw [ensureResearchScaffold_eq hstrategy]
  rfl

theorem planned_portfolio_research (hstrategy : ∃ t ∈ plan.tasks, t.capability ∈ strategyCaps) :
    (plan.ensureResearchScaffold registry).Planned "portfolio_read" := by
  obtain ⟨row, hrow, hcap⟩ : ∃ row ∈ contextScaffold, row.capability = "portfolio_read" := by decide
  exact hcap ▸ planned_ensureResearchScaffold hstrategy hrow

theorem planned_synthesis_research (hstrategy : ∃ t ∈ plan.tasks, t.capability ∈ strategyCaps) :
    (plan.ensureResearchScaffold registry).Planned "adhoc_synthesis" ↔
      plan.Planned "adhoc_synthesis" :=
  exists_research_of_other hstrategy (p := fun _ c ↦ c = "adhoc_synthesis") (by decide)

theorem synthesis_key_research (hstrategy : ∃ t ∈ plan.tasks, t.capability ∈ strategyCaps) :
    "adhoc_synthesis" ∈ (plan.ensureResearchScaffold registry).tasks.map PlannedTask.key ↔
      "adhoc_synthesis" ∈ plan.tasks.map PlannedTask.key := by
  rw [List.mem_map, List.mem_map]
  exact exists_research_of_other hstrategy (p := fun k _ ↦ k = "adhoc_synthesis") (by decide)

end Research

section Adhoc

variable {registry : List AgentSnapshotRow}

theorem withPortfolio_eq (h : ¬ plan.Planned "portfolio_read") :
    plan.withPortfolio registry = plan.adding [adhocPortfolio registry] :=
  if_neg h

theorem withSynthesis_eq (h : ¬ plan.Planned "adhoc_synthesis") :
    plan.withSynthesis registry = plan.adding [plan.adhocSynthesis registry] :=
  if_neg h

theorem grounded_withPortfolio (h : plan.Grounded) : (plan.withPortfolio registry).Grounded := by
  by_cases hplanned : plan.Planned "portfolio_read"
  · rwa [withPortfolio_of_planned hplanned]
  · have hsafe : "portfolio_read" ∉ safetyOrder := by decide
    rw [withPortfolio_eq hplanned]
    exact grounded_adding h hsafe fun dep hdep ↦ absurd hdep List.not_mem_nil

theorem grounded_withSynthesis (h : plan.Grounded) : (plan.withSynthesis registry).Grounded := by
  by_cases hplanned : plan.Planned "adhoc_synthesis"
  · rwa [withSynthesis_of_planned hplanned]
  · have hsafe : "adhoc_synthesis" ∉ safetyOrder := by decide
    rw [withSynthesis_eq hplanned]
    exact grounded_adding h hsafe fun dep ↦ id

theorem admissible_withPortfolio (h : plan.Grounded) :
    (plan.withPortfolio registry).Admissible known ↔ plan.Admissible known ∧
      (¬ plan.Planned "portfolio_read" → "adhoc_portfolio" ∉ plan.tasks.map PlannedTask.key ∧
        known.Declares (resolveScaffoldAgent registry "portfolio_read" "portfolio_manager_agent")
          "portfolio_read") := by
  by_cases hplanned : plan.Planned "portfolio_read"
  · rw [withPortfolio_of_planned hplanned, iff_self_and]
    exact fun _ hnone ↦ absurd hplanned hnone
  · rw [withPortfolio_eq hplanned, forall_prop_of_true hplanned]
    exact admissible_adding h fun dep hdep ↦ absurd hdep List.not_mem_nil

theorem admissible_withSynthesis (h : plan.Grounded) :
    (plan.withSynthesis registry).Admissible known ↔ plan.Admissible known ∧
      (¬ plan.Planned "adhoc_synthesis" → "adhoc_synthesis" ∉ plan.tasks.map PlannedTask.key ∧
        known.Declares (resolveScaffoldAgent registry "adhoc_synthesis" "ceo_agent")
          "adhoc_synthesis") := by
  by_cases hplanned : plan.Planned "adhoc_synthesis"
  · rw [withSynthesis_of_planned hplanned, iff_self_and]
    exact fun _ hnone ↦ absurd hplanned hnone
  · rw [withSynthesis_eq hplanned, forall_prop_of_true hplanned]
    exact admissible_adding h fun dep ↦ id

theorem mem_keys_withPortfolio {k : String} (hk : k ≠ "adhoc_portfolio") :
    k ∈ (plan.withPortfolio registry).tasks.map PlannedTask.key ↔
      k ∈ plan.tasks.map PlannedTask.key := by
  by_cases hplanned : plan.Planned "portfolio_read"
  · rw [withPortfolio_of_planned hplanned]
  · rw [withPortfolio_eq hplanned, adding, List.map_append, List.mem_append, List.map_singleton,
      List.mem_singleton]
    exact or_iff_left hk

theorem grounded_adhoc (h : plan.Grounded) : (plan.ensureAdhocScaffold registry).Grounded := by
  rw [ensureAdhocScaffold]
  split
  · exact h
  · exact grounded_withSynthesis (grounded_withPortfolio h)

theorem admissible_adhoc (h : plan.Grounded) :
    (plan.ensureAdhocScaffold registry).Admissible known ↔ plan.Admissible known ∧
      (plan.objectiveClassification ∈ adhocObjectiveKinds →
        (¬ plan.Planned "portfolio_read" → "adhoc_portfolio" ∉ plan.tasks.map PlannedTask.key ∧
          known.Declares (resolveScaffoldAgent registry "portfolio_read" "portfolio_manager_agent")
            "portfolio_read") ∧
        (¬ plan.Planned "adhoc_synthesis" → "adhoc_synthesis" ∉ plan.tasks.map PlannedTask.key ∧
          known.Declares (resolveScaffoldAgent registry "adhoc_synthesis" "ceo_agent")
            "adhoc_synthesis")) := by
  by_cases hkind : plan.objectiveClassification ∈ adhocObjectiveKinds
  · rw [ensureAdhocScaffold, if_neg (not_not.mpr hkind), forall_prop_of_true hkind,
      admissible_withSynthesis (grounded_withPortfolio h), admissible_withPortfolio h,
      planned_withPortfolio, mem_keys_withPortfolio (by decide), and_assoc]
  · rw [ensureAdhocScaffold, if_pos hkind, iff_self_and]
    exact fun _ h ↦ absurd h hkind

end Adhoc

variable (plan) in
/-- The keys and the capabilities of the tasks that the scaffolds add. -/
def additions : List (String × String) :=
  (if ∃ t ∈ plan.tasks, t.capability ∈ strategyCaps then
    plan.missing.map fun row ↦ (row.key, row.capability) else []) ++
  if plan.objectiveClassification ∈ adhocObjectiveKinds then
    (if plan.Planned "portfolio_read" ∨ ∃ t ∈ plan.tasks, t.capability ∈ strategyCaps then []
      else [("adhoc_portfolio", "portfolio_read")]) ++
    if plan.Planned "adhoc_synthesis" then [] else [("adhoc_synthesis", "adhoc_synthesis")]
  else []

/-- The scaffolds fit the plan: none of their keys is taken, for each capability that they add there
is an agent, and no task that they make a strategy wait for waits for a strategy. -/
structure Receptive (plan : GeneratedPlan) (registry : List AgentSnapshotRow) : Prop where
  fresh : ∀ p ∈ plan.additions, p.1 ∉ plan.tasks.map PlannedTask.key
  staffed : ∀ p ∈ plan.additions, ∃ row ∈ registry, row.enabled ∧ p.2 ∈ row.capabilities
  upstream : ∀ c ∈ plan.gathering, ∀ u, lastOf PlannedTask.capability plan.tasks c = some u →
    ∀ t ∈ plan.tasks, t.capability ∈ strategyCaps → ¬ TransGen plan.Leads u t

section Receptive

variable {registry : List AgentSnapshotRow}

theorem declares_knownOf (hnames : (registry.map AgentSnapshotRow.name).Nodup) {name c : String} :
    (knownOf registry).Declares name c ↔
      ∃ row ∈ registry, row.name = name ∧ row.enabled ∧ c ∈ row.capabilities := by
  have hfilter : ((registry.filter (·.enabled)).map AgentSnapshotRow.name).Nodup :=
    hnames.sublist (List.filter_sublist.map _)
  simp only [Known.Declares, knownOf, Option.map_eq_some_iff, lastOf_eq_some_iff_of_nodup hfilter,
    List.mem_filter]
  constructor
  · rintro ⟨_, ⟨row, ⟨⟨hrow, henabled⟩, hname⟩, rfl⟩, hc⟩
    exact ⟨row, hrow, hname, henabled, hc⟩
  · rintro ⟨row, hrow, hname, henabled, hc⟩
    exact ⟨_, ⟨row, ⟨⟨hrow, henabled⟩, hname⟩, rfl⟩, hc⟩

theorem declares_resolve (hnames : (registry.map AgentSnapshotRow.name).Nodup)
    (c fallback : String) :
    (knownOf registry).Declares (resolveScaffoldAgent registry c fallback) c ↔
      ∃ row ∈ registry, row.enabled ∧ c ∈ row.capabilities := by
  rw [declares_knownOf hnames]
  refine ⟨fun ⟨row, hrow, _, h⟩ ↦ ⟨row, hrow, h⟩, ?_⟩
  rintro ⟨row, hrow, henabled, hc⟩
  let candidates :=
    (registry.filter fun row ↦ c ∈ row.capabilities ∧ row.enabled).map AgentSnapshotRow.name
  have hmem : row.name ∈ candidates :=
    List.mem_map_of_mem (List.mem_filter.mpr ⟨hrow, decide_eq_true ⟨hc, henabled⟩⟩)
  have hresolve : resolveScaffoldAgent registry c fallback ∈ candidates := by
    rw [resolveScaffoldAgent]
    split
    · next hfallback => exact hfallback
    · rw [List.headD_eq_head?_getD, List.head?_eq_some_head (List.ne_nil_of_mem hmem)]
      exact List.head_mem _
  obtain ⟨row', hrow', hname⟩ := List.mem_map.mp hresolve
  obtain ⟨hrow', hboth⟩ := List.mem_filter.mp hrow'
  obtain ⟨hc', henabled'⟩ := of_decide_eq_true hboth
  exact ⟨row', hrow', hname, henabled', hc'⟩

theorem forall_mem_additions {p : String → String → Prop} :
    (∀ a ∈ plan.additions, p a.1 a.2) ↔
      ((∃ t ∈ plan.tasks, t.capability ∈ strategyCaps) → ∀ row ∈ plan.missing, p row.key row.capability) ∧
      (plan.objectiveClassification ∈ adhocObjectiveKinds →
        (¬ (plan.Planned "portfolio_read" ∨ ∃ t ∈ plan.tasks, t.capability ∈ strategyCaps) →
          p "adhoc_portfolio" "portfolio_read") ∧
        (¬ plan.Planned "adhoc_synthesis" → p "adhoc_synthesis" "adhoc_synthesis")) := by
  rw [additions, List.forall_mem_append]
  refine and_congr ?_ ?_
  · split
    · next h => rw [forall_prop_of_true h, List.forall_mem_map]
    · next h => exact iff_of_true (fun a ha ↦ absurd ha List.not_mem_nil) fun h' ↦ absurd h' h
  · split
    · next h =>
      rw [forall_prop_of_true h, List.forall_mem_append]
      refine and_congr ?_ ?_
      · split <;> simp_all
      · split <;> simp_all
    · next h => exact iff_of_true (fun a ha ↦ absurd ha List.not_mem_nil) fun h' ↦ absurd h' h

/-- A path of keys between planned tasks is one of tasks. -/
theorem path_leads (h : plan.Accepted) {u t : PlannedTask} (hu : u ∈ plan.tasks) (ht : t ∈ plan.tasks)
    (hne : u ≠ t) : ReflTransGen plan.KeyLeads u.key t.key ↔ TransGen plan.Leads u t := by
  constructor
  · intro hpath
    have hkey : u.key ≠ t.key := fun he ↦ hne (h.eq_of_key hu ht he)
    rcases reflTransGen_iff_eq_or_transGen.mp hpath with heq | hpath
    · exact absurd heq.symm hkey
    · obtain ⟨t', ht', hkey, hut⟩ := h.path hu hpath
      rwa [← h.eq_of_key ht' ht hkey]
  · intro hpath
    refine (TransGen.lift PlannedTask.key ?_ _ _ hpath).to_reflTransGen
    exact fun v w hvw ↦ ⟨v, hvw.1, rfl, hvw.2.2⟩

theorem upstream_iff (h : plan.Accepted) : (∀ k, plan.Strategic k → ¬ plan.Gathers k) ↔
    ∀ c ∈ plan.gathering, ∀ u, lastOf PlannedTask.capability plan.tasks c = some u →
      ∀ t ∈ plan.tasks, t.capability ∈ strategyCaps → ¬ TransGen plan.Leads u t := by
  have hgathering : ∀ c ∈ plan.gathering, c ∉ strategyCaps := by
    rw [gathering]
    split <;> decide
  have hpath {c : String} (hc : c ∈ plan.gathering) {u t : PlannedTask}
      (hu : lastOf PlannedTask.capability plan.tasks c = some u) (ht : t ∈ plan.tasks)
      (hcap : t.capability ∈ strategyCaps) :
      ReflTransGen plan.KeyLeads u.key t.key ↔ TransGen plan.Leads u t := by
    obtain ⟨hmem, rfl⟩ := of_lastOf_eq_some hu
    refine path_leads h hmem ht ?_
    rintro rfl
    exact hgathering _ hc hcap
  constructor
  · intro hall c hc u hu t ht hcap htrans
    exact hall t.key ⟨t, ht, rfl, hcap⟩ ⟨c, hc, u, hu, (hpath hc hu ht hcap).mpr htrans⟩
  · rintro hall _ ⟨t, ht, rfl, hcap⟩ ⟨c, hc, u, hu, hkeys⟩
    exact hall c hc u hu t ht hcap ((hpath hc hu ht hcap).mp hkeys)

theorem admissible_scaffolds (hnames : (registry.map AgentSnapshotRow.name).Nodup)
    (hplan : plan.Accepted) (h : plan.Grounded) (hadmissible : plan.Admissible (knownOf registry)) :
    ((plan.ensureResearchScaffold registry).ensureAdhocScaffold registry).Admissible
      (knownOf registry) ↔ plan.Receptive registry := by
  let ready (key capability : String) : Prop := key ∉ plan.tasks.map PlannedTask.key ∧
    ∃ row ∈ registry, row.enabled ∧ capability ∈ row.capabilities
  have hreceptive : plan.Receptive registry ↔ (∀ a ∈ plan.additions, ready a.1 a.2) ∧
      ∀ k, plan.Strategic k → ¬ plan.Gathers k := by
    rw [upstream_iff hplan]
    exact ⟨fun ⟨hfresh, hstaffed, hupstream⟩ ↦ ⟨fun a ha ↦ ⟨hfresh a ha, hstaffed a ha⟩, hupstream⟩,
      fun ⟨hready, hupstream⟩ ↦ ⟨fun a ha ↦ (hready a ha).1, fun a ha ↦ (hready a ha).2, hupstream⟩⟩
  rw [hreceptive, forall_mem_additions, admissible_adhoc (grounded_research h)]
  simp only [declares_resolve hnames]
  by_cases hstrategy : ∃ t ∈ plan.tasks, t.capability ∈ strategyCaps
  · rw [admissible_research hstrategy h, and_iff_right hadmissible,
      objectiveClassification_research hstrategy, planned_synthesis_research hstrategy,
      synthesis_key_research hstrategy, forall_prop_of_true hstrategy]
    simp only [declares_resolve hnames, not_not.mpr (planned_portfolio_research hstrategy),
      hstrategy, or_true, not_true, false_imp_iff, true_and]
    exact and_right_comm
  · have hplan : plan.ensureResearchScaffold registry = plan := if_pos hstrategy
    have hnone : ∀ k, plan.Strategic k → ¬ plan.Gathers k := fun k ⟨t, ht, _, hcap⟩ ↦
      absurd ⟨t, ht, hcap⟩ hstrategy
    rw [hplan, and_iff_right hadmissible]
    simp only [hstrategy, or_false, false_imp_iff, true_and]
    exact (and_iff_left hnone).symm

end Receptive

/-- With the scaffolds in, an accepted plan is accepted again exactly if they fit it. -/
theorem validate_scaffolds_iff {registry : List AgentSnapshotRow} {room' : ℕ}
    (hnames : (registry.map AgentSnapshotRow.name).Nodup)
    (h : plan.validate room (knownOf registry) = .ok ())
    (hroom : ((plan.ensureResearchScaffold registry).ensureAdhocScaffold registry).tasks.length < room') :
    ((plan.ensureResearchScaffold registry).ensureAdhocScaffold registry).validate room'
      (knownOf registry) = .ok () ↔ plan.Receptive registry := by
  obtain ⟨hgrounded, hadmissible⟩ := of_validate h
  rw [validate_eq_ok hroom, and_iff_right (grounded_adhoc (grounded_research hgrounded))]
  exact admissible_scaffolds hnames (accepted_of_validate h) hgrounded hadmissible

def deskRegistry : List AgentSnapshotRow :=
  [⟨"strategy_generator", ["strategy_generation"], true⟩, ⟨"news_agent", ["news_ingestion"], true⟩,
   ⟨"sentiment_agent", ["sentiment_analysis"], true⟩, ⟨"market_analyst", ["market_analysis"], true⟩,
   ⟨"portfolio_manager_agent", ["portfolio_read"], true⟩,
   ⟨"data_ingestion_agent", ["data_freshness"], true⟩, ⟨"ceo_agent", ["context_assembly"], true⟩]

def design (key : String) : PlannedTask where
  key := key
  objective := "Design a strategy."
  capability := "strategy_generation"
  assignedAgent := "strategy_generator"

theorem validate_design :
    GeneratedPlan.validate { tasks := [design "design"] } 10 (knownOf deskRegistry) = .ok () := by
  decide +kernel

theorem validate_scaffolds_iff_design :
    ((GeneratedPlan.ensureResearchScaffold { tasks := [design "design"] } deskRegistry).ensureAdhocScaffold
      deskRegistry).validate 10 (knownOf deskRegistry) = .ok () ↔
      Receptive { tasks := [design "design"] } deskRegistry :=
  validate_scaffolds_iff (by decide) validate_design (by decide)

/-- A strategy under the scaffold's own key. -/
def takenKey : GeneratedPlan where
  tasks := [design "ctx_news"]

/-- News that are to be gathered for a strategy once it is designed. -/
def newsAfterDesign : GeneratedPlan where
  tasks :=
    [design "design",
     { key := "news", objective := "Gather news.", capability := "news_ingestion",
       assignedAgent := "news_agent", dependsOn := ["design"] }]

/-- Accepted plans that the scaffolds give a key twice, or a cycle. -/
theorem not_validate_scaffolds :
    (takenKey.validate 10 (knownOf deskRegistry) = .ok () ∧
      ((takenKey.ensureResearchScaffold deskRegistry).ensureAdhocScaffold deskRegistry).validate 10
        (knownOf deskRegistry) = .error (.validation "duplicate task keys")) ∧
    newsAfterDesign.validate 10 (knownOf deskRegistry) = .ok () ∧
      ((newsAfterDesign.ensureResearchScaffold deskRegistry).ensureAdhocScaffold deskRegistry).validate 10
        (knownOf deskRegistry) =
          .error (.validation "dependency cycle through task 'design'") := by
  refine ⟨⟨?_, ?_⟩, ?_, ?_⟩ <;> decide +kernel

end GeneratedPlan

end TradingOS.Orchestration.Planner
