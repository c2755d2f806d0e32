import TradingOS.Lib.Lists
import TradingOS.Orchestration.Planner

namespace TradingOS.Orchestration.Planner.GeneratedPlan

open Lib Lib.Closure Relation

def SafetyOrdered (plan : GeneratedPlan) : Prop :=
  ∀ earlier later, [earlier, later].Sublist safetyOrder →
    (∃ u ∈ plan.tasks, u.capability = earlier) →
      ∀ t ∈ plan.tasks, t.capability = later → plan.Awaits t earlier

/-- Of the safety capabilities in the plan, one comes right before the other. -/
def Precedes (plan : GeneratedPlan) (earlier later : String) : Prop :=
  ∃ k k', ((earlier, k), (later, k')) ∈ plan.present.zip plan.present.tail

variable {plan : GeneratedPlan} {t u v : PlannedTask} {earlier later capability k : String}

theorem Awaits.of_path (htu : TransGen plan.Leads t u) (h : plan.Awaits u capability) :
    plan.Awaits t capability := by
  obtain ⟨v, hv, hcap, huv⟩ := h
  exact ⟨v, hv, hcap, htu.trans huv⟩

theorem Accepted.eq_of_key (h : plan.Accepted) (ht : t ∈ plan.tasks) (hu : u ∈ plan.tasks)
    (hkey : t.key = u.key) : t = u :=
  List.inj_on_of_nodup_map h.keys ht hu hkey

/-- A path of keys is one of tasks. -/
theorem Accepted.path (h : plan.Accepted) (ht : t ∈ plan.tasks)
    (hpath : TransGen plan.KeyLeads t.key k) :
    ∃ u ∈ plan.tasks, u.key = k ∧ TransGen plan.Leads t u := by
  induction hpath with
  | single hedge =>
    obtain ⟨t', ht', hkey, hdep⟩ := hedge
    obtain rfl := h.eq_of_key ht' ht hkey
    obtain ⟨u, hu, rfl⟩ := h.inPlan t' ht' _ hdep
    exact ⟨u, hu, rfl, .single ⟨ht', hu, hdep⟩⟩
  | tail _ hedge ih =>
    obtain ⟨u, hu, rfl, htu⟩ := ih
    obtain ⟨u', hu', hkey, hdep⟩ := hedge
    obtain rfl := h.eq_of_key hu' hu hkey
    obtain ⟨v, hv, rfl⟩ := h.inPlan u' hu' _ hdep
    exact ⟨v, hv, rfl, htu.tail ⟨hu', hv, hdep⟩⟩

theorem mem_present :
    (capability, k) ∈ plan.present ↔ ∃ t, plan.byCap capability = some t ∧ t.key = k := by
  simp only [present, List.mem_filterMap, Option.map_eq_some_iff, Prod.mk.injEq]
  constructor
  · rintro ⟨_, -, t, hcap, rfl, hkey⟩
    exact ⟨t, hcap, hkey⟩
  · rintro ⟨t, hcap, hkey⟩
    refine ⟨capability, ?_, t, hcap, rfl, hkey⟩
    by_contra hout
    rw [byCap, if_neg hout] at hcap
    cases hcap

theorem sublist_of_precedes (h : plan.Precedes earlier later) :
    [earlier, later].Sublist safetyOrder := by
  obtain ⟨k, k', hpair⟩ := h
  have hstages : (plan.present.map Prod.fst).Sublist safetyOrder := by
    refine map_fst_filterMap_sublist (fun c p hp ↦ ?_) safetyOrder
    obtain ⟨t, -, rfl⟩ := Option.map_eq_some_iff.mp hp
    rfl
  exact ((sublist_of_mem_zip_tail hpair).map Prod.fst).trans hstages

theorem of_byCap (h : plan.byCap capability = some t) :
    t ∈ plan.tasks ∧ t.capability = capability := by
  rw [byCap] at h
  split at h
  · exact of_lastOf_eq_some h
  · cases h

/-- The last task of a safety capability is the one whose order the check has looked at. -/
theorem Accepted.awaits_of_last (h : plan.Accepted) (hprecedes : plan.Precedes earlier t.capability)
    (hlast : plan.byCap t.capability = some t) : plan.Awaits t earlier := by
  obtain ⟨k, k', hpair⟩ := hprecedes
  obtain ⟨hearlier, hlater⟩ := List.of_mem_zip hpair
  obtain ⟨u, hu, rfl⟩ := mem_present.mp hearlier
  obtain ⟨t', ht', rfl⟩ := mem_present.mp (List.mem_of_mem_tail hlater)
  obtain rfl : t = t' := Option.some.inj (hlast.symm.trans ht')
  have hreach := h.stages _ hpair
  rw [reach, Graph.edge_closure] at hreach
  have hpath := TransGen.mono (fun _ _ ↦ (edge_byKey h.keys).mp) _ _ hreach
  obtain ⟨u', hu', hkey, htu⟩ := h.path (of_byCap hlast).1 hpath
  obtain rfl := h.eq_of_key hu' (of_byCap hu).1 hkey
  exact ⟨u', hu', (of_byCap hu).2, htu⟩

/-- What holds from each stage to the next holds from each to all the later ones. -/
theorem safetyOrdered_of_precedes
    (h : ∀ earlier, ∀ t ∈ plan.tasks, plan.Precedes earlier t.capability → plan.Awaits t earlier) :
    plan.SafetyOrdered := by
  let waits (p q : String × String) : Prop :=
    ∀ t ∈ plan.tasks, t.capability = q.1 → plan.Awaits t p.1
  have htrans : Trans waits waits waits := ⟨fun {p q r} hpq hqr t ht hcap ↦ by
    obtain ⟨u, hu, hcap, htu⟩ := hqr t ht hcap
    exact (hpq u hu hcap).of_path htu⟩
  have hchain : plan.present.IsChain waits := forall_mem_zip_tail.mp fun p hp t ht hcap ↦
    h p.1.1 t ht ⟨p.1.2, p.2.2, hcap ▸ hp⟩
  intro earlier later hsub ⟨u, hu, hearlier⟩ t ht hlater
  have hcap (v : PlannedTask) (hv : v ∈ plan.tasks) (hin : v.capability ∈ safetyOrder) :
      ∃ w, plan.byCap v.capability = some w := by
    rw [byCap, if_pos hin]
    exact Option.ne_none_iff_exists'.mp fun hnone ↦ lastOf_eq_none.mp hnone v hv rfl
  subst hearlier hlater
  obtain ⟨u', hu'⟩ := hcap u hu (hsub.subset (by simp))
  obtain ⟨t', ht'⟩ := hcap t ht (hsub.subset (by simp))
  have hpair := hsub.filterMap fun c ↦ (plan.byCap c).map fun t ↦ (c, t.key)
  simp only [List.filterMap_cons, hu', ht', Option.map_some, List.filterMap_nil] at hpair
  have hwaits := (hchain.pairwise.sublist hpair : List.Pairwise waits _)
  exact (List.pairwise_pair.mp hwaits) t ht rfl

/-- An accepted plan keeps the safety order as far as the tasks do that the check passes over. -/
theorem safetyOrdered_iff {room : ℕ} {known : Known} (h : plan.validate room known = .ok ()) :
    plan.SafetyOrdered ↔ ∀ t ∈ plan.tasks, plan.byCap t.capability ≠ some t →
      ∀ earlier, plan.Precedes earlier t.capability → plan.Awaits t earlier := by
  have haccepted := accepted_of_validate h
  constructor
  · rintro hordered t ht - earlier ⟨k, k', hpair⟩
    obtain ⟨u, hu, -⟩ := mem_present.mp (List.of_mem_zip hpair).1
    exact hordered earlier _ (sublist_of_precedes ⟨k, k', hpair⟩) ⟨u, of_byCap hu⟩ t ht rfl
  · intro hshadowed
    refine safetyOrdered_of_precedes fun earlier t ht hprecedes ↦ ?_
    by_cases hlast : plan.byCap t.capability = some t
    · exact haccepted.awaits_of_last hprecedes hlast
    · exact hshadowed t ht hlast earlier hprecedes

def twoBacktests : GeneratedPlan where
  tasks :=
    [{ key := "validate", objective := "Validate the code.", capability := "code_validation",
       assignedAgent := "code_agent" },
     { key := "early", objective := "Backtest.", capability := "backtesting",
       assignedAgent := "backtest_agent" },
     { key := "late", objective := "Backtest.", capability := "backtesting",
       assignedAgent := "backtest_agent", dependsOn := ["validate"] }]

def twoAgents : Known := fun agent ↦
  if agent = "code_agent" then some ["code_validation"]
  else if agent = "backtest_agent" then some ["backtesting"]
  else none

theorem validate_twoBacktests : twoBacktests.validate 10 twoAgents = .ok () := by decide +kernel

theorem safetyOrdered_iff_twoBacktests :
    twoBacktests.validate 10 twoAgents = .ok () ∧
      (twoBacktests.SafetyOrdered ↔
        ∀ t ∈ twoBacktests.tasks, twoBacktests.byCap t.capability ≠ some t →
          ∀ earlier, twoBacktests.Precedes earlier t.capability → twoBacktests.Awaits t earlier) :=
  ⟨validate_twoBacktests, safetyOrdered_iff validate_twoBacktests⟩

/-- The first of two backtests may run beside the validation. -/
theorem not_safetyOrdered_twoBacktests :
    twoBacktests.validate 10 twoAgents = .ok () ∧ ¬ twoBacktests.SafetyOrdered := by
  refine ⟨validate_twoBacktests, fun hordered ↦ ?_⟩
  obtain ⟨u, -, -, hpath⟩ := hordered "code_validation" "backtesting" (by decide)
    ⟨_, List.mem_cons_self, rfl⟩ _ (List.mem_cons_of_mem _ List.mem_cons_self) rfl
  obtain ⟨v, ⟨-, -, hdep⟩, -⟩ := TransGen.head'_iff.mp hpath
  exact absurd hdep List.not_mem_nil

end TradingOS.Orchestration.Planner.GeneratedPlan
