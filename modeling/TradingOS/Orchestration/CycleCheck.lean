import TradingOS.Orchestration.Planner

namespace TradingOS.Orchestration.Planner.GeneratedPlan

open Lib Lib.Closure Relation

/-- Some task waits for itself. -/
def Cyclic (plan : GeneratedPlan) : Prop := ∃ k, TransGen plan.KeyLeads k k

section Visit

variable {graph : Table String (List String)} {room : ℕ} {stack visited : List String}
  {node message : String} {error : PlanError}

/-- What goes wrong in a visit goes wrong at a node of the stack, or in the visit of a node that it
leads to. -/
theorem visit_eq_error (h : visit graph (room + 1) stack visited node = .error error) :
    (node ∈ stack ∧ error = .validation s!"dependency cycle through task '{node}'") ∨
      node ∉ stack ∧ ∃ x ∈ (graph.get? node).getD [], ∃ visited',
        visit graph room (node :: stack) visited' x = .error error := by
  rw [visit] at h
  split at h
  · next hstack =>
    cases h
    exact .inl ⟨hstack, rfl⟩
  · next hstack =>
    split at h
    · cases h
    · refine .inr ⟨hstack, ?_⟩
      cases hrest : ((graph.get? node).getD []).foldlM (visit graph room (node :: stack)) visited with
      | ok below =>
        rw [hrest] at h
        cases h
      | error error' =>
        rw [hrest] at h
        cases h
        exact exists_of_foldlM_eq_error hrest

/-- All of the stack leads to the node, so a node that is on it leads to itself. -/
theorem cycle_of_visit
    (hstack : ∀ x ∈ stack, TransGen (fun x y ↦ y ∈ (graph.get? x).getD []) x node)
    (h : visit graph room stack visited node = .error (.validation message)) :
    ∃ k, TransGen (fun x y ↦ y ∈ (graph.get? x).getD []) k k := by
  induction room generalizing stack visited node with
  | zero => cases h
  | succ room ih =>
    rcases visit_eq_error h with ⟨hnode, -⟩ | ⟨-, x, hx, visited', h⟩
    · exact ⟨node, hstack node hnode⟩
    · exact ih (List.forall_mem_cons.mpr ⟨.single hx, fun y hy ↦ (hstack y hy).tail hx⟩) h

/-- The stack holds different keys, so that it runs out of keys before it runs out of room. -/
theorem visit_ne_recursion (hnodup : stack.Nodup) (hkeys : ∀ x ∈ stack, x ∈ graph.keys)
    (hroom : graph.keys.length < room + stack.length) :
    visit graph room stack visited node ≠ .error .recursion := by
  induction room generalizing stack visited node with
  | zero =>
    have hle := (hnodup.subperm hkeys).length_le
    omega
  | succ room ih =>
    intro h
    rcases visit_eq_error h with ⟨-, herror⟩ | ⟨hnode, x, hx, visited', h⟩
    · cases herror
    · have hkey : node ∈ graph.keys := by
        by_contra hout
        rw [graph.get?_eq_none.mpr hout] at hx
        exact absurd hx List.not_mem_nil
      apply ih (List.nodup_cons.mpr ⟨hnode, hnodup⟩) (List.forall_mem_cons.mpr ⟨hkey, hkeys⟩) _ h
      rw [List.length_cons]
      omega

end Visit

variable {plan : GeneratedPlan} {room : ℕ}

theorem exists_visit_of_assertAcyclic {error : PlanError}
    (h : plan.assertAcyclic room = .error error) :
    ∃ key ∈ plan.graph.keys, ∃ visited, visit plan.graph room [] visited key = .error error := by
  rw [assertAcyclic] at h
  cases hvisits : plan.graph.keys.foldlM (visit plan.graph room []) [] with
  | ok visited =>
    rw [hvisits] at h
    cases h
  | error error' =>
    rw [hvisits] at h
    cases h
    exact exists_of_foldlM_eq_error hvisits

theorem cyclic_of_assertAcyclic (hkeys : (plan.tasks.map PlannedTask.key).Nodup) {message : String}
    (h : plan.assertAcyclic room = .error (.validation message)) : plan.Cyclic := by
  have hleads : plan.KeyLeads = fun x y ↦ y ∈ (plan.graph.get? x).getD [] :=
    funext₂ fun x y ↦ propext (mem_graph hkeys).symm
  obtain ⟨key, -, visited, hvisit⟩ := exists_visit_of_assertAcyclic h
  rw [Cyclic, hleads]
  exact cycle_of_visit (fun x hx ↦ absurd hx List.not_mem_nil) hvisit

theorem mem_keys_byKey {ρ : Type} (value : PlannedTask → ρ) {k : String} :
    k ∈ (plan.byKey value).keys ↔ k ∈ plan.tasks.map PlannedTask.key := by
  rw [← not_iff_not, ← Table.get?_eq_none, get?_byKey, Option.map_eq_none_iff, lastOf_eq_none]
  simp

theorem length_keys_byKey_le {ρ : Type} (value : PlannedTask → ρ) :
    (plan.byKey value).keys.length ≤ plan.tasks.length := by
  rw [← List.length_map PlannedTask.key]
  exact ((plan.byKey value).nodup.subperm fun k hk ↦ (mem_keys_byKey value).mp hk).length_le

theorem assertAcyclic_ne_recursion (hroom : plan.tasks.length < room) :
    plan.assertAcyclic room ≠ .error .recursion := by
  intro h
  obtain ⟨key, -, visited, hvisit⟩ := exists_visit_of_assertAcyclic h
  apply visit_ne_recursion List.nodup_nil (fun x hx ↦ absurd hx List.not_mem_nil) _ hvisit
  exact (length_keys_byKey_le _).trans_lt hroom

/-- A plan passes on a stack that has a call for each of its tasks exactly if no task waits for
itself. -/
theorem assertAcyclic_eq_ok (hkeys : (plan.tasks.map PlannedTask.key).Nodup)
    (hroom : plan.tasks.length < room) : plan.assertAcyclic room = .ok () ↔ ¬ plan.Cyclic := by
  constructor
  · rintro h ⟨k, hcycle⟩
    exact acyclic_of_assertAcyclic hkeys h k hcycle
  · intro h
    cases hresult : plan.assertAcyclic room with
    | ok => rfl
    | error error =>
      cases error with
      | validation message => exact absurd (cyclic_of_assertAcyclic hkeys hresult) h
      | recursion => exact absurd hresult (assertAcyclic_ne_recursion hroom)

theorem reach_edge (hkeys : (plan.tasks.map PlannedTask.key).Nodup) {x y : String} :
    plan.reach.Edge x y ↔ TransGen plan.KeyLeads x y := by
  have hleads : Graph.Edge (plan.byKey (·.dependsOn.toFinset)) = plan.KeyLeads :=
    funext₂ fun x y ↦ propext (edge_byKey hkeys)
  rw [reach, Graph.edge_closure, hleads]

/-- Both searches are exact: the visits raise for a cycle and for nothing else, and the passes end,
with what each task transitively waits for. -/
theorem cycleCheck_exact (hkeys : (plan.tasks.map PlannedTask.key).Nodup) :
    (∀ room, plan.tasks.length < room →
      ((∃ error, plan.assertAcyclic room = .error error) ↔ plan.Cyclic)) ∧
    (∀ room message, plan.assertAcyclic room = .error (.validation message) → plan.Cyclic) ∧
    (∀ room, plan.Cyclic → ∃ error, plan.assertAcyclic room = .error error) ∧
    (∃ bound, ∀ fuel, bound ≤ fuel →
      Graph.loop fuel (plan.byKey (·.dependsOn.toFinset)) = some plan.reach) ∧
    ∀ x y, plan.reach.Edge x y ↔ TransGen plan.KeyLeads x y := by
  have hraises (room : ℕ) (hcyclic : plan.Cyclic) :
      ∃ error, plan.assertAcyclic room = .error error := by
    cases hresult : plan.assertAcyclic room with
    | error error => exact ⟨error, rfl⟩
    | ok =>
      obtain ⟨k, hcycle⟩ := hcyclic
      exact absurd hcycle (acyclic_of_assertAcyclic hkeys hresult k)
  refine ⟨fun room hroom ↦ ⟨?_, hraises room⟩, fun room message ↦ cyclic_of_assertAcyclic hkeys,
    hraises, Graph.loop_eq_closure _, fun x y ↦ reach_edge hkeys⟩
  rintro ⟨error, herror⟩
  by_contra hacyclic
  rw [(assertAcyclic_eq_ok hkeys hroom).mpr hacyclic] at herror
  cases herror

def ring : GeneratedPlan where
  tasks :=
    [{ key := "a", objective := "Wait for b.", capability := "backtesting",
       assignedAgent := "backtest_agent", dependsOn := ["b"] },
     { key := "b", objective := "Wait for a.", capability := "backtesting",
       assignedAgent := "backtest_agent", dependsOn := ["a"] }]

theorem cycleCheck_ring : (∃ error, ring.assertAcyclic 3 = .error error) ∧ ring.reach.Edge "a" "a" := by
  have hkeys : (ring.tasks.map PlannedTask.key).Nodup := by decide
  have hcycle : TransGen ring.KeyLeads "a" "a" :=
    .tail (.single ⟨_, List.mem_cons_self, rfl, List.mem_singleton_self "b"⟩)
      ⟨_, List.mem_cons_of_mem _ List.mem_cons_self, rfl, List.mem_singleton_self "a"⟩
  obtain ⟨hexact, -, -, -, hreach⟩ := cycleCheck_exact hkeys
  exact ⟨(hexact 3 (by decide)).mpr ⟨"a", hcycle⟩, (hreach "a" "a").mpr hcycle⟩

end TradingOS.Orchestration.Planner.GeneratedPlan
