import TradingOS.Lib.Closure
import TradingOS.Lib.Fallible

namespace TradingOS.Orchestration.Planner

open Lib Lib.Closure Relation

structure PlannedTask where
  key : String
  objective : String
  capability : String
  assignedAgent : String
  priority : ℤ := 5
  expectedOutput : String := "CeoSynthesis"
  dependsOn : List String := []
  deriving DecidableEq

structure GeneratedPlan where
  objectiveClassification : String := "general"
  tasks : List PlannedTask := []
  deriving DecidableEq

inductive PlanError
  | validation (message : String)
  | recursion
  deriving DecidableEq

/-- The capabilities declared by each enabled agent. -/
abbrev Known := String → Option (List String)

namespace GeneratedPlan

variable (plan : GeneratedPlan)

/-- A row for each key, in the order of the first task that has it and with the value of the
last. -/
def byKey {ρ : Type} (value : PlannedTask → ρ) : Table String ρ :=
  plan.tasks.foldl (fun T t ↦ T.assign t.key (value t)) .empty

/-- The visits of `_assert_acyclic`, with the calls that the stack has room for: the nodes left
behind, the last first. A set is read in the order its members were written,
which decides no more than the node a cycle is reported through. -/
def visit (graph : Table String (List String)) :
    ℕ → List String → List String → String → Except PlanError (List String)
  | 0, _, _, _ => .error .recursion
  | room + 1, stack, visited, node =>
    if node ∈ stack then .error (.validation s!"dependency cycle through task '{node}'")
    else if node ∈ visited then .ok visited
    else do
      let visited ← ((graph.get? node).getD []).foldlM (visit graph room (node :: stack)) visited
      .ok (node :: visited)

def graph : Table String (List String) := plan.byKey (·.dependsOn.dedup)

def assertAcyclic (room : ℕ) : Except PlanError Unit := do
  let _ ← plan.graph.keys.foldlM (visit plan.graph room []) []

def safetyOrder : List String :=
  ["code_validation", "compliance_check", "backtesting", "strategy_evaluation", "risk_assessment"]

/-- The last task of a safety capability. -/
def byCap (capability : String) : Option PlannedTask :=
  if capability ∈ safetyOrder then lastOf PlannedTask.capability plan.tasks capability else none

def present : List (String × String) :=
  safetyOrder.filterMap fun capability ↦ (plan.byCap capability).map fun t ↦ (capability, t.key)

def reach : Graph String := Graph.closure (plan.byKey (·.dependsOn.toFinset))

def assertStage (earlier later : String × String) : Except PlanError Unit :=
  if earlier.2 ∈ plan.reach.next later.2 then .ok ()
  else .error (.validation
    s!"safety order violated: '{later.1}' must depend (transitively) on '{earlier.1}'")

def assertSafetyOrder : Except PlanError Unit :=
  if plan.present.length < 2 then .ok ()
  else (plan.present.zip plan.present.tail).forM fun p ↦ plan.assertStage p.1 p.2

def checkDependency (t : PlannedTask) (dep : String) : Except PlanError Unit :=
  if dep ∉ plan.tasks.map PlannedTask.key then
    .error (.validation s!"task {t.key}: dependency '{dep}' is not an in-plan task")
  else if dep = t.key then .error (.validation s!"task {t.key}: self-dependency")
  else .ok ()

def checkTask (known : Known) (t : PlannedTask) : Except PlanError Unit :=
  match known t.assignedAgent with
  | none => .error (.validation s!"task {t.key}: unknown agent '{t.assignedAgent}'")
  | some capabilities =>
    if t.capability ∉ capabilities then
      .error (.validation
        s!"task {t.key}: agent '{t.assignedAgent}' does not declare capability '{t.capability}'")
    else t.dependsOn.forM (plan.checkDependency t)

def validate (room : ℕ) (known : Known) : Except PlanError Unit :=
  if plan.tasks = [] then .error (.validation "plan has no tasks")
  else if ¬ (plan.tasks.map PlannedTask.key).Nodup then .error (.validation "duplicate task keys")
  else do
    plan.tasks.forM (plan.checkTask known)
    plan.assertAcyclic room
    plan.assertSafetyOrder

/-- One key waits for another. -/
def KeyLeads (x y : String) : Prop := ∃ t ∈ plan.tasks, t.key = x ∧ y ∈ t.dependsOn

/-- One task waits for another. -/
def Leads (t u : PlannedTask) : Prop := t ∈ plan.tasks ∧ u ∈ plan.tasks ∧ u.key ∈ t.dependsOn

/-- The task waits, at once or through others, for one of the capability. -/
def Awaits (t : PlannedTask) (capability : String) : Prop :=
  ∃ u ∈ plan.tasks, u.capability = capability ∧ TransGen plan.Leads t u

/-- The task waits, at once or through others, for the key. -/
def Needs (t : PlannedTask) (k : String) : Prop := ∃ d ∈ t.dependsOn, ReflTransGen plan.KeyLeads d k

variable {plan}

theorem path_iff {t u : PlannedTask} (ht : t ∈ plan.tasks) :
    TransGen plan.Leads t u ↔ u ∈ plan.tasks ∧ plan.Needs t u.key := by
  constructor
  · intro h
    induction h using TransGen.head_induction_on with
    | single h => exact ⟨h.2.1, u.key, h.2.2, .refl⟩
    | @head t v htv _ ih =>
      obtain ⟨hu, d, hd, hpath⟩ := ih htv.2.1
      exact ⟨hu, v.key, htv.2.2, .head ⟨v, htv.2.1, rfl, hd⟩ hpath⟩
  · rintro ⟨hu, d, hd, hpath⟩
    induction hpath using ReflTransGen.head_induction_on generalizing t with
    | refl => exact .single ⟨ht, hu, hd⟩
    | head hedge _ ih =>
      obtain ⟨v, hv, rfl, hdep⟩ := hedge
      exact .head ⟨ht, hv, hd⟩ (ih hv hdep)

theorem get?_byKey {ρ : Type} (value : PlannedTask → ρ) (k : String) :
    (plan.byKey value).get? k = (lastOf PlannedTask.key plan.tasks k).map value := by
  rw [byKey, Table.get?_foldl_assign]
  exact Option.or_none

theorem exists_mem_byKey {ρ : Type} (hkeys : (plan.tasks.map PlannedTask.key).Nodup)
    (value : PlannedTask → ρ) {k : String} {p : ρ → Prop} :
    (∃ v ∈ (plan.byKey value).get? k, p v) ↔ ∃ t ∈ plan.tasks, t.key = k ∧ p (value t) := by
  simp only [get?_byKey, Option.mem_def, Option.map_eq_some_iff,
    lastOf_eq_some_iff_of_nodup hkeys]
  constructor
  · rintro ⟨_, ⟨t, ⟨ht, hkey⟩, rfl⟩, hp⟩
    exact ⟨t, ht, hkey, hp⟩
  · rintro ⟨t, ht, hkey, hp⟩
    exact ⟨_, ⟨t, ⟨ht, hkey⟩, rfl⟩, hp⟩

theorem edge_byKey (hkeys : (plan.tasks.map PlannedTask.key).Nodup) {x y : String} :
    Graph.Edge (plan.byKey (·.dependsOn.toFinset)) x y ↔ plan.KeyLeads x y := by
  have hget (o : Option (Finset String)) : y ∈ o.getD ∅ ↔ ∃ v ∈ o, y ∈ v := by cases o <;> simp
  simp only [Graph.Edge, Graph.next, hget, exists_mem_byKey hkeys, KeyLeads, List.mem_toFinset]

theorem mem_graph (hkeys : (plan.tasks.map PlannedTask.key).Nodup) {x y : String} :
    y ∈ (plan.graph.get? x).getD [] ↔ plan.KeyLeads x y := by
  have hget (o : Option (List String)) : y ∈ o.getD [] ↔ ∃ v ∈ o, y ∈ v := by cases o <;> simp
  simp only [hget, graph, exists_mem_byKey hkeys, KeyLeads, List.mem_dedup]

/-- A node is left after the ones it waits for. -/
theorem of_visit {graph : Table String (List String)} {room : ℕ} {stack visited visited' : List String}
    {node : String} (hdown : LeadsDown (fun x y ↦ y ∈ (graph.get? x).getD []) visited)
    (h : visit graph room stack visited node = .ok visited') :
    LeadsDown (fun x y ↦ y ∈ (graph.get? x).getD []) visited' ∧ node ∈ visited' ∧
      ∀ x ∈ visited, x ∈ visited' := by
  induction room generalizing stack visited visited' node with
  | zero => cases h
  | succ room ih =>
    rw [visit, ite_error_eq_ok] at h
    obtain ⟨-, h⟩ := h
    split at h
    · next hvisited =>
      cases h
      exact ⟨hdown, hvisited, fun _ ↦ id⟩
    · obtain ⟨below, hbelow, h⟩ := bind_eq_ok.mp h
      cases h
      obtain ⟨hdown, hall, hmore⟩ := foldlM_ok ih hdown hbelow
      exact ⟨⟨hall, hdown⟩, List.mem_cons_self, fun x hx ↦ List.mem_cons_of_mem _ (hmore x hx)⟩

theorem acyclic_of_assertAcyclic {room : ℕ} (hkeys : (plan.tasks.map PlannedTask.key).Nodup)
    (h : plan.assertAcyclic room = .ok ()) (k : String) : ¬ TransGen plan.KeyLeads k k := by
  have hleads : plan.KeyLeads = fun x y ↦ y ∈ (plan.graph.get? x).getD [] :=
    funext₂ fun x y ↦ propext (mem_graph hkeys).symm
  obtain ⟨visited, hvisits, -⟩ := bind_eq_ok.mp h
  have hnil : LeadsDown (fun x y ↦ y ∈ (plan.graph.get? x).getD []) [] := trivial
  obtain ⟨hdown, hall, -⟩ := foldlM_ok of_visit hnil hvisits
  rw [hleads]
  intro hcycle
  obtain ⟨y, hky, -⟩ := TransGen.head'_iff.mp hcycle
  have hk : k ∈ plan.graph.keys := by
    by_contra hk
    rw [plan.graph.get?_eq_none.mpr hk] at hky
    exact absurd hky List.not_mem_nil
  exact hdown.acyclic (hall k hk) hcycle

/-- What an accepted plan has been found to be. -/
structure Accepted (plan : GeneratedPlan) : Prop where
  nonempty : plan.tasks ≠ []
  keys : (plan.tasks.map PlannedTask.key).Nodup
  inPlan : ∀ t ∈ plan.tasks, ∀ dep ∈ t.dependsOn, ∃ u ∈ plan.tasks, u.key = dep
  acyclic : ∀ k, ¬ TransGen plan.KeyLeads k k
  stages : ∀ p ∈ plan.present.zip plan.present.tail, plan.reach.Edge p.2.2 p.1.2

theorem checkDependency_eq_ok {t : PlannedTask} {dep : String} :
    plan.checkDependency t dep = .ok () ↔ (∃ u ∈ plan.tasks, u.key = dep) ∧ dep ≠ t.key := by
  rw [checkDependency, ite_error_eq_ok, ite_error_eq_ok, not_not, List.mem_map]
  simp

theorem mem_tasks_of_checkTask {known : Known} {t : PlannedTask}
    (h : plan.checkTask known t = .ok ()) {dep : String} (hdep : dep ∈ t.dependsOn) :
    ∃ u ∈ plan.tasks, u.key = dep := by
  rw [checkTask] at h
  split at h
  · cases h
  · rw [ite_error_eq_ok, forM_eq_ok] at h
    exact (checkDependency_eq_ok.mp (h.2 dep hdep)).1

theorem stages_of_assertSafetyOrder (h : plan.assertSafetyOrder = .ok ()) :
    ∀ p ∈ plan.present.zip plan.present.tail, plan.reach.Edge p.2.2 p.1.2 := by
  rw [assertSafetyOrder] at h
  split at h
  · next hlen =>
    intro p hp
    have hzip := List.length_pos_of_mem hp
    rw [List.length_zip, List.length_tail] at hzip
    omega
  · intro p hp
    have hstage := forM_eq_ok.mp h p hp
    rw [assertStage] at hstage
    split at hstage
    · next hmem => exact hmem
    · cases hstage

theorem accepted_of_validate {room : ℕ} {known : Known} (h : plan.validate room known = .ok ()) :
    plan.Accepted := by
  rw [validate, ite_error_eq_ok, ite_error_eq_ok, not_not] at h
  obtain ⟨hnonempty, hkeys, h⟩ := h
  obtain ⟨⟨⟩, htasks, h⟩ := bind_eq_ok.mp h
  obtain ⟨⟨⟩, hacyclic, h⟩ := bind_eq_ok.mp h
  exact
    { nonempty := hnonempty
      keys := hkeys
      inPlan := fun t ht _ hdep ↦ mem_tasks_of_checkTask (forM_eq_ok.mp htasks t ht) hdep
      acyclic := acyclic_of_assertAcyclic hkeys hacyclic
      stages := stages_of_assertSafetyOrder h }

end GeneratedPlan

end TradingOS.Orchestration.Planner
