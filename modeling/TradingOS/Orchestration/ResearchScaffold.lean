import TradingOS.Lib.Lists
import TradingOS.Orchestration.Planner

namespace TradingOS.Orchestration.Planner

open Lib Relation

structure AgentSnapshotRow where
  name : String
  capabilities : List String
  enabled : Bool
  deriving DecidableEq

def resolveScaffoldAgent (registry : List AgentSnapshotRow) (capability fallback : String) :
    String :=
  let candidates :=
    (registry.filter fun row ↦ capability ∈ row.capabilities ∧ row.enabled).map (·.name)
  if fallback ∈ candidates then fallback else candidates.headD fallback

def strategyCaps : List String := ["strategy_generation", "strategy_research", "code_generation"]

structure ScaffoldRow where
  key : String
  capability : String
  assignedAgent : String
  expectedOutput : String
  dependencies : List String := []

def contextScaffold : List ScaffoldRow :=
  [⟨"ctx_news", "news_ingestion", "news_agent", "NewsDigest", []⟩,
   ⟨"ctx_sentiment", "sentiment_analysis", "sentiment_agent", "SentimentReport", ["ctx_news"]⟩,
   ⟨"ctx_market", "market_analysis", "market_analyst", "MarketContext", []⟩,
   ⟨"ctx_portfolio", "portfolio_read", "portfolio_manager_agent", "PortfolioRiskReport", []⟩,
   ⟨"ctx_freshness", "data_freshness", "data_ingestion_agent", "AdHocAnalysis", []⟩,
   ⟨"ctx_assembly", "context_assembly", "ceo_agent", "ResearchContext",
    ["ctx_news", "ctx_sentiment", "ctx_market", "ctx_portfolio", "ctx_freshness"]⟩]

def capForScaffoldKey (key : String) : String :=
  ((contextScaffold.find? (·.key = key)).map (·.capability)).getD ""

def scaffoldKey (capability : String) : String :=
  ((contextScaffold.find? (·.capability = capability)).map (·.key)).getD ""

def adhocObjectiveKinds : List String :=
  ["portfolio_analysis", "risk_ranking", "drawdown_explanation", "strategy_failure_explanation",
   "rerun_decision"]

namespace GeneratedPlan

variable (plan : GeneratedPlan) (registry : List AgentSnapshotRow)

def Planned (capability : String) : Prop := ∃ t ∈ plan.tasks, t.capability = capability

instance (capability : String) : Decidable (plan.Planned capability) :=
  inferInstanceAs (Decidable (∃ t ∈ plan.tasks, t.capability = capability))

/-- The last task planned for a capability wins over the scaffold's own. -/
def keyForCap (capability : String) : String :=
  ((lastOf PlannedTask.capability plan.tasks capability).map (·.key)).getD (scaffoldKey capability)

def provide (row : ScaffoldRow) : PlannedTask :=
  let words := row.capability.map fun c ↦ if c = '_' then ' ' else c
  { key := plan.keyForCap row.capability
    objective := s!"Provide {words} for this research objective."
    capability := row.capability
    assignedAgent := resolveScaffoldAgent registry row.capability row.assignedAgent
    priority := 3
    expectedOutput := row.expectedOutput
    dependsOn := row.dependencies.map fun dk ↦ plan.keyForCap (capForScaffoldKey dk) }

def addMissing (tasks : List PlannedTask) (row : ScaffoldRow) : List PlannedTask :=
  if ∃ t ∈ tasks, t.capability = row.capability then tasks
  else tasks ++ [plan.provide registry row]

def assemblyKey : String := plan.keyForCap "context_assembly"

def wire (t : PlannedTask) : PlannedTask :=
  if t.capability ∈ strategyCaps ∧ plan.assemblyKey ∉ t.dependsOn then
    { t with dependsOn := t.dependsOn ++ [plan.assemblyKey] }
  else t

def ensureResearchScaffold : GeneratedPlan :=
  if ¬ ∃ t ∈ plan.tasks, t.capability ∈ strategyCaps then plan
  else
    { plan with
      tasks := (contextScaffold.foldl (plan.addMissing registry) plan.tasks).map plan.wire }

def adhocPortfolio : PlannedTask where
  key := "adhoc_portfolio"
  objective := "Read current portfolio state for this analysis."
  capability := "portfolio_read"
  assignedAgent := resolveScaffoldAgent registry "portfolio_read" "portfolio_manager_agent"
  priority := 3
  expectedOutput := "PortfolioRiskReport"

def withPortfolio : GeneratedPlan :=
  if plan.Planned "portfolio_read" then plan
  else { plan with tasks := plan.tasks ++ [adhocPortfolio registry] }

def adhocSynthesis : PlannedTask where
  key := "adhoc_synthesis"
  objective := (plan.tasks.head?.map (·.objective)).getD "Answer the objective."
  capability := "adhoc_synthesis"
  assignedAgent := resolveScaffoldAgent registry "adhoc_synthesis" "ceo_agent"
  priority := 1
  expectedOutput := "AdHocAnalysis"
  dependsOn := plan.tasks.map (·.key)

def withSynthesis : GeneratedPlan :=
  if plan.Planned "adhoc_synthesis" then plan
  else { plan with tasks := plan.tasks ++ [plan.adhocSynthesis registry] }

def ensureAdhocScaffold : GeneratedPlan :=
  if plan.objectiveClassification ∉ adhocObjectiveKinds then plan
  else (plan.withPortfolio registry).withSynthesis registry

def scaffoldInputs : List String :=
  ["market_analysis", "news_ingestion", "sentiment_analysis", "portfolio_read", "data_freshness"]

/-- Every strategy waits for an assembly that waits for all the inputs. -/
def ResearchComplete : Prop :=
  ∀ t ∈ plan.tasks, t.capability ∈ strategyCaps →
    ∃ u ∈ plan.tasks, u.capability = "context_assembly" ∧ TransGen plan.Leads t u ∧
      ∀ c ∈ scaffoldInputs, plan.Awaits u c

/-- Every synthesis waits for all the evidence. -/
def AdhocComplete : Prop :=
  ∀ s ∈ plan.tasks, s.capability = "adhoc_synthesis" →
    ∀ t ∈ plan.tasks, t.capability ≠ "adhoc_synthesis" → TransGen plan.Leads s t

variable {plan registry}

section Adhoc

/-- A task that waits for nothing adds no path. -/
theorem needs_append {t : PlannedTask} {k : String} (last : PlannedTask) (hlast : last.dependsOn = []) :
    Needs { plan with tasks := plan.tasks ++ [last] } t k ↔ plan.Needs t k := by
  have hleads : KeyLeads { plan with tasks := plan.tasks ++ [last] } = plan.KeyLeads := by
    funext x y
    simp [KeyLeads, hlast, or_and_right, exists_or]
  rw [Needs, Needs, hleads]

theorem planned_withPortfolio :
    (plan.withPortfolio registry).Planned "adhoc_synthesis" ↔ plan.Planned "adhoc_synthesis" := by
  rw [withPortfolio]
  split
  · rfl
  · simp [Planned, adhocPortfolio, or_and_right, exists_or]

/-- The synthesis that is added waits for all there is. -/
theorem adhocComplete_withSynthesis (h : ¬ plan.Planned "adhoc_synthesis") :
    (plan.withSynthesis registry).AdhocComplete := by
  rw [withSynthesis, if_neg h]
  intro s hs hsynthesis t ht hevidence
  have hlast {u : PlannedTask} (hu : u ∈ plan.tasks ++ [plan.adhocSynthesis registry]) :
      u ∈ plan.tasks ∨ u = plan.adhocSynthesis registry := by simpa using hu
  obtain rfl := (hlast hs).resolve_left fun hold ↦ h ⟨s, hold, hsynthesis⟩
  have hold := (hlast ht).resolve_right fun heq ↦ hevidence (heq ▸ rfl)
  exact .single ⟨hs, ht, List.mem_map_of_mem hold⟩

theorem adhocComplete_withPortfolio :
    (plan.withPortfolio registry).AdhocComplete ↔
      ∀ s ∈ plan.tasks, s.capability = "adhoc_synthesis" →
        (∀ t ∈ plan.tasks, t.capability ≠ "adhoc_synthesis" → TransGen plan.Leads s t) ∧
          (¬ plan.Planned "portfolio_read" → plan.Needs s "adhoc_portfolio") := by
  rw [withPortfolio]
  split
  · next h => simp only [AdhocComplete, h, not_true, false_imp_iff, and_true]
  · next h =>
    have hpath {s t : PlannedTask} (hs : s ∈ plan.tasks) (ht : t ∈ plan.tasks ++ [adhocPortfolio registry]) :
        TransGen (Leads { plan with tasks := plan.tasks ++ [adhocPortfolio registry] }) s t ↔
          plan.Needs s t.key := by
      rw [path_iff (List.mem_append_left _ hs), needs_append _ rfl]
      exact and_iff_right ht
    have hlast {u : PlannedTask} (hu : u ∈ plan.tasks ++ [adhocPortfolio registry]) :
        u ∈ plan.tasks ∨ u = adhocPortfolio registry := by simpa using hu
    have hportfolio : adhocPortfolio registry ∈ plan.tasks ++ [adhocPortfolio registry] := by simp
    constructor
    · intro hcomplete s hs hsynthesis
      have hwaits := hcomplete s (List.mem_append_left _ hs) hsynthesis
      refine ⟨fun t ht hevidence ↦ (path_iff hs).mpr ⟨ht, ?_⟩, fun _ ↦ ?_⟩
      · have ht' := List.mem_append_left [adhocPortfolio registry] ht
        exact (hpath hs ht').mp (hwaits t ht' hevidence)
      · exact (hpath hs hportfolio).mp (hwaits _ hportfolio (by simp [adhocPortfolio]))
    · intro hall s hs hsynthesis t ht hevidence
      have hs := (hlast hs).resolve_right fun heq ↦ by simp [heq, adhocPortfolio] at hsynthesis
      obtain ⟨hplanned, hadded⟩ := hall s hs hsynthesis
      refine (hpath hs ht).mpr ?_
      rcases hlast ht with ht | rfl
      · exact ((path_iff hs).mp (hplanned t ht hevidence)).2
      · exact hadded h

theorem adhocComplete_iff :
    (plan.ensureAdhocScaffold registry).AdhocComplete ↔
      ∀ s ∈ plan.tasks, s.capability = "adhoc_synthesis" →
        (∀ t ∈ plan.tasks, t.capability ≠ "adhoc_synthesis" → TransGen plan.Leads s t) ∧
          (plan.objectiveClassification ∈ adhocObjectiveKinds → ¬ plan.Planned "portfolio_read" →
            plan.Needs s "adhoc_portfolio") := by
  rw [ensureAdhocScaffold]
  split
  · next h => simp only [AdhocComplete, h, false_imp_iff, and_true]
  · next h =>
    simp only [not_not.mp h, true_imp_iff]
    by_cases hplanned : plan.Planned "adhoc_synthesis"
    · rw [withSynthesis, if_pos (planned_withPortfolio.mpr hplanned)]
      exact adhocComplete_withPortfolio
    · refine iff_of_true (adhocComplete_withSynthesis ?_) fun s hs hsynthesis ↦
        absurd ⟨s, hs, hsynthesis⟩ hplanned
      rwa [planned_withPortfolio]

end Adhoc

section Wiring

variable (plan)

/-- What a planned task waits for once the scaffold is in. -/
def WiredTo (t : PlannedTask) (k : String) : Prop :=
  k ∈ t.dependsOn ∨ t.capability ∈ strategyCaps ∧ k = plan.assemblyKey

/-- What a key waits for once the scaffold is in around a planned assembly: of the tasks that
are added only the one for sentiment waits, for the news. -/
def WiredKey (x y : String) : Prop :=
  (∃ t ∈ plan.tasks, t.key = x ∧ plan.WiredTo t y) ∨
    ¬ plan.Planned "sentiment_analysis" ∧ x = "ctx_sentiment" ∧ y = plan.keyForCap "news_ingestion"

def Wired (t : PlannedTask) (k : String) : Prop :=
  ∃ d, plan.WiredTo t d ∧ ReflTransGen plan.WiredKey d k

/-- The keys under which a capability is found once the scaffold is in. -/
def Provides (capability k : String) : Prop :=
  (∃ t ∈ plan.tasks, t.capability = capability ∧ t.key = k) ∨
    ¬ plan.Planned capability ∧ k = scaffoldKey capability

/-- Every planned strategy gets to a planned assembly that gets to all the inputs. -/
def Assembled : Prop :=
  ∀ t ∈ plan.tasks, t.capability ∈ strategyCaps →
    ∃ u ∈ plan.tasks, u.capability = "context_assembly" ∧ plan.Wired t u.key ∧
      ∀ c ∈ scaffoldInputs, ∃ k, plan.Provides c k ∧ plan.Wired u k

end Wiring

section Research

/-- The rows that no task provides are added behind the tasks. -/
theorem foldl_addMissing {rows : List ScaffoldRow} (hrows : (rows.map (·.capability)).Nodup)
    (tasks : List PlannedTask) : rows.foldl (plan.addMissing registry) tasks =
      tasks ++ (rows.filter fun row ↦ ∀ u ∈ tasks, u.capability ≠ row.capability).map
        (plan.provide registry) := by
  induction rows generalizing tasks with
  | nil => exact (List.append_nil tasks).symm
  | cons row rows ih =>
    obtain ⟨hnotin, hrows⟩ := List.nodup_cons.mp hrows
    rw [List.foldl_cons, addMissing]
    split
    · next h =>
      rw [ih hrows, List.filter_cons_of_neg]
      simpa using h
    · next h =>
      have hother : ∀ r ∈ rows,
          decide (∀ u ∈ tasks ++ [plan.provide registry row], u.capability ≠ r.capability) =
            decide (∀ u ∈ tasks, u.capability ≠ r.capability) := by
        intro r hr
        have hne : row.capability ≠ r.capability := fun he ↦
          hnotin (List.mem_map.mpr ⟨r, hr, he.symm⟩)
        simp [provide, or_imp, forall_and, hne]
      rw [ih hrows, List.filter_congr hother, List.append_assoc, List.filter_cons_of_pos]
      · rfl
      · simpa using h

theorem mem_foldl_addMissing {rows : List ScaffoldRow} (hrows : (rows.map (·.capability)).Nodup)
    {tasks : List PlannedTask} {t : PlannedTask} :
    t ∈ rows.foldl (plan.addMissing registry) tasks ↔
      t ∈ tasks ∨ ∃ row ∈ rows, (∀ u ∈ tasks, u.capability ≠ row.capability) ∧
        t = plan.provide registry row := by
  rw [foldl_addMissing hrows, List.mem_append, List.mem_map]
  simp only [List.mem_filter, decide_eq_true_eq, and_assoc, eq_comm (a := t)]

@[simp] theorem wire_key (t : PlannedTask) : (plan.wire t).key = t.key := by
  rw [wire]
  split <;> rfl

@[simp] theorem wire_capability (t : PlannedTask) : (plan.wire t).capability = t.capability := by
  rw [wire]
  split <;> rfl

theorem mem_wire_dependsOn {t : PlannedTask} {k : String} :
    k ∈ (plan.wire t).dependsOn ↔ plan.WiredTo t k := by
  rw [wire, WiredTo]
  split
  · next h => simp [h.1]
  · next h =>
    refine ⟨.inl, fun hk ↦ hk.elim id fun ⟨hcap, he⟩ ↦ ?_⟩
    by_contra hnotin
    exact h ⟨hcap, he ▸ hnotin⟩

theorem mem_ensureResearchScaffold (h : ∃ t ∈ plan.tasks, t.capability ∈ strategyCaps)
    {t : PlannedTask} : t ∈ (plan.ensureResearchScaffold registry).tasks ↔
      (∃ t' ∈ plan.tasks, t = plan.wire t') ∨
        ∃ row ∈ contextScaffold, ¬ plan.Planned row.capability ∧
          t = plan.wire (plan.provide registry row) := by
  have hrows : (contextScaffold.map (·.capability)).Nodup := by decide
  rw [ensureResearchScaffold, if_neg (not_not.mpr h)]
  simp only [List.mem_map, mem_foldl_addMissing hrows, or_and_right, exists_or, Planned, not_exists,
    not_and, eq_comm (a := t)]
  refine or_congr_right ⟨?_, ?_⟩
  · rintro ⟨_, ⟨row, hrow, hnone, rfl⟩, rfl⟩
    exact ⟨row, hrow, hnone, rfl⟩
  · rintro ⟨row, hrow, hnone, rfl⟩
    exact ⟨_, ⟨row, hrow, hnone, rfl⟩, rfl⟩

theorem lastOf_eq_none_of_not_planned {c : String} (h : ¬ plan.Planned c) :
    lastOf PlannedTask.capability plan.tasks c = none :=
  lastOf_eq_none.mpr fun t ht hcap ↦ h ⟨t, ht, hcap⟩

theorem scaffoldKey_capability : ∀ row ∈ contextScaffold, scaffoldKey row.capability = row.key := by
  decide

theorem provide_key (registry : List AgentSnapshotRow) {row : ScaffoldRow}
    (hrow : row ∈ contextScaffold) (h : ¬ plan.Planned row.capability) :
    (plan.provide registry row).key = row.key := by
  rw [provide, keyForCap, lastOf_eq_none_of_not_planned h]
  exact scaffoldKey_capability row hrow

theorem not_mem_strategyCaps : ∀ row ∈ contextScaffold, row.capability ∉ strategyCaps := by decide

variable (registry) in
/-- The tasks of a capability of the scaffold, once it is in. -/
theorem exists_provides (h : ∃ t ∈ plan.tasks, t.capability ∈ strategyCaps) {row : ScaffoldRow}
    (hrow : row ∈ contextScaffold) {p : String → Prop} :
    (∃ v ∈ (plan.ensureResearchScaffold registry).tasks, v.capability = row.capability ∧ p v.key) ↔
      ∃ k, plan.Provides row.capability k ∧ p k := by
  constructor
  · rintro ⟨v, hv, hcap, hp⟩
    rcases (mem_ensureResearchScaffold h).mp hv with ⟨t, ht, rfl⟩ | ⟨row', hrow', hnone, rfl⟩
    · rw [wire_capability] at hcap
      rw [wire_key] at hp
      exact ⟨t.key, .inl ⟨t, ht, hcap, rfl⟩, hp⟩
    · have hkeys : ∀ row ∈ contextScaffold, scaffoldKey row.capability = row.key := by decide
      obtain hcap : row'.capability = row.capability := (wire_capability _).symm.trans hcap
      rw [wire_key, provide_key registry hrow' hnone, ← scaffoldKey_capability row' hrow', hcap] at hp
      exact ⟨_, .inr ⟨hcap ▸ hnone, rfl⟩, hp⟩
  · rintro ⟨k, ⟨t, ht, hcap, rfl⟩ | ⟨hnone, rfl⟩, hp⟩
    · exact ⟨plan.wire t, (mem_ensureResearchScaffold h).mpr (.inl ⟨t, ht, rfl⟩),
        (wire_capability t).trans hcap, (wire_key t).symm ▸ hp⟩
    · refine ⟨_, (mem_ensureResearchScaffold h).mpr (.inr ⟨row, hrow, hnone, rfl⟩),
        wire_capability _, ?_⟩
      rw [wire_key, provide_key registry hrow hnone, ← scaffoldKey_capability row hrow]
      exact hp

/-- The key that a capability of the scaffold is wired by is one that it is found under. -/
theorem provides_keyForCap (c : String) : plan.Provides c (plan.keyForCap c) := by
  rw [keyForCap]
  cases hlast : lastOf PlannedTask.capability plan.tasks c with
  | none => exact .inr ⟨fun ⟨t, ht, hcap⟩ ↦ lastOf_eq_none.mp hlast t ht hcap, rfl⟩
  | some t =>
    obtain ⟨ht, hcap⟩ := of_lastOf_eq_some hlast
    exact .inl ⟨t, ht, hcap, rfl⟩

theorem mem_scaffoldInputs {c : String} (hc : c ∈ scaffoldInputs) :
    ∃ row ∈ contextScaffold, row.capability = c := by
  have hall : ∀ c ∈ scaffoldInputs, ∃ row ∈ contextScaffold, row.capability = c := by decide
  exact hall c hc

/-- An assembly that the scaffold adds has all it needs. -/
theorem researchComplete_of_not_planned (h : ∃ t ∈ plan.tasks, t.capability ∈ strategyCaps)
    (hnone : ¬ plan.Planned "context_assembly") :
    (plan.ensureResearchScaffold registry).ResearchComplete := by
  let out := plan.ensureResearchScaffold registry
  obtain ⟨row, hrow, hrowcap, hinputs⟩ : ∃ row ∈ contextScaffold,
      row.capability = "context_assembly" ∧
        ∀ c ∈ scaffoldInputs, c ∈ row.dependencies.map capForScaffoldKey := by decide
  let u := plan.wire (plan.provide registry row)
  have hu : u ∈ out.tasks :=
    (mem_ensureResearchScaffold h).mpr (.inr ⟨row, hrow, hrowcap ▸ hnone, rfl⟩)
  have hukey : u.key = plan.assemblyKey := by rw [wire_key, assemblyKey, ← hrowcap]; rfl
  intro t ht hstrategy
  refine ⟨u, hu, (wire_capability _).trans hrowcap, .single ⟨ht, hu, hukey ▸ ?_⟩, fun c hc ↦ ?_⟩
  · rcases (mem_ensureResearchScaffold h).mp ht with ⟨t', -, rfl⟩ | ⟨row', hrow', -, rfl⟩
    · exact mem_wire_dependsOn.mpr (.inr ⟨wire_capability t' ▸ hstrategy, rfl⟩)
    · rw [wire_capability] at hstrategy
      exact absurd hstrategy (not_mem_strategyCaps row' hrow')
  · obtain ⟨row', hrow', rfl⟩ := mem_scaffoldInputs hc
    obtain ⟨v, hv, hcap, hkey⟩ : ∃ v ∈ out.tasks, v.capability = row'.capability ∧
        plan.keyForCap row'.capability = v.key :=
      (exists_provides registry h hrow').mpr ⟨_, provides_keyForCap row'.capability, rfl⟩
    refine ⟨v, hv, hcap, .single ⟨hu, hv, mem_wire_dependsOn.mpr (.inl ?_)⟩⟩
    obtain ⟨dk, hdk, hdkcap⟩ := List.mem_map.mp (hinputs _ hc)
    exact hkey ▸ List.mem_map.mpr ⟨dk, hdk, by rw [hdkcap]⟩

theorem wiredTo_provide {row : ScaffoldRow} (hrow : row ∈ contextScaffold) {k : String} :
    plan.WiredTo (plan.provide registry row) k ↔
      k ∈ row.dependencies.map fun dk ↦ plan.keyForCap (capForScaffoldKey dk) :=
  or_iff_left fun h ↦ not_mem_strategyCaps row hrow h.1

variable (registry) in
/-- Around a planned assembly the scaffold has one key that waits, the sentiment's. -/
theorem exists_wiredTo_provide (h : plan.Planned "context_assembly") {x y : String} :
    (∃ row ∈ contextScaffold, ¬ plan.Planned row.capability ∧
      (plan.provide registry row).key = x ∧ plan.WiredTo (plan.provide registry row) y) ↔
      ¬ plan.Planned "sentiment_analysis" ∧ x = "ctx_sentiment" ∧
        y = plan.keyForCap "news_ingestion" := by
  have hnews : capForScaffoldKey "ctx_news" = "news_ingestion" := by decide
  constructor
  · rintro ⟨row, hrow, hnone, rfl, hy⟩
    have hwaits : ∀ row ∈ contextScaffold, row.capability ≠ "context_assembly" →
        row.dependencies ≠ [] → row.key = "ctx_sentiment" ∧
          row.capability = "sentiment_analysis" ∧ row.dependencies = ["ctx_news"] := by decide
    rw [wiredTo_provide hrow] at hy
    have hne : row.dependencies ≠ [] := by
      rintro he
      simp [he] at hy
    obtain ⟨hkey, hcap, hdeps⟩ := hwaits row hrow (fun he ↦ hnone (he ▸ h)) hne
    rw [hdeps, List.map_singleton, List.mem_singleton, hnews] at hy
    exact ⟨hcap ▸ hnone, (provide_key registry hrow hnone).trans hkey, hy⟩
  · rintro ⟨hnone, rfl, rfl⟩
    obtain ⟨row, hrow, hkey, hcap, hdeps⟩ : ∃ row ∈ contextScaffold, row.key = "ctx_sentiment" ∧
        row.capability = "sentiment_analysis" ∧ row.dependencies = ["ctx_news"] := by decide
    rw [← hcap] at hnone
    refine ⟨row, hrow, hnone, (provide_key registry hrow hnone).trans hkey, (wiredTo_provide hrow).mpr ?_⟩
    rw [hdeps, List.map_singleton, hnews]
    exact List.mem_singleton_self _

theorem keyLeads_ensureResearchScaffold (h : ∃ t ∈ plan.tasks, t.capability ∈ strategyCaps)
    (hassembly : plan.Planned "context_assembly") :
    (plan.ensureResearchScaffold registry).KeyLeads = plan.WiredKey := by
  funext x y
  refine propext ?_
  rw [WiredKey, ← exists_wiredTo_provide registry hassembly]
  constructor
  · rintro ⟨t, ht, hkey, hy⟩
    rcases (mem_ensureResearchScaffold h).mp ht with ⟨t', ht', rfl⟩ | ⟨row, hrow, hnone, rfl⟩
    · exact .inl ⟨t', ht', (wire_key t').symm.trans hkey, mem_wire_dependsOn.mp hy⟩
    · exact .inr ⟨row, hrow, hnone, (wire_key _).symm.trans hkey, mem_wire_dependsOn.mp hy⟩
  · rintro (⟨t, ht, hkey, hy⟩ | ⟨row, hrow, hnone, hkey, hy⟩)
    · exact ⟨plan.wire t, (mem_ensureResearchScaffold h).mpr (.inl ⟨t, ht, rfl⟩),
        (wire_key t).trans hkey, mem_wire_dependsOn.mpr hy⟩
    · exact ⟨_, (mem_ensureResearchScaffold h).mpr (.inr ⟨row, hrow, hnone, rfl⟩),
        (wire_key _).trans hkey, mem_wire_dependsOn.mpr hy⟩

/-- What a planned task waits for once the scaffold is in around a planned assembly. -/
theorem needs_wire (h : ∃ t ∈ plan.tasks, t.capability ∈ strategyCaps)
    (hassembly : plan.Planned "context_assembly") {t : PlannedTask} {k : String} :
    (plan.ensureResearchScaffold registry).Needs (plan.wire t) k ↔ plan.Wired t k := by
  simp only [Needs, Wired, keyLeads_ensureResearchScaffold h hassembly, mem_wire_dependsOn]

theorem awaits_wire (h : ∃ t ∈ plan.tasks, t.capability ∈ strategyCaps)
    (hassembly : plan.Planned "context_assembly") {u : PlannedTask} (hu : u ∈ plan.tasks)
    {c : String} (hc : c ∈ scaffoldInputs) :
    (plan.ensureResearchScaffold registry).Awaits (plan.wire u) c ↔
      ∃ k, plan.Provides c k ∧ plan.Wired u k := by
  obtain ⟨row, hrow, rfl⟩ := mem_scaffoldInputs hc
  rw [← exists_provides registry h hrow]
  have hwire : plan.wire u ∈ (plan.ensureResearchScaffold registry).tasks :=
    (mem_ensureResearchScaffold h).mpr (.inl ⟨u, hu, rfl⟩)
  refine exists_congr fun v ↦ and_congr_right fun hv ↦ and_congr_right fun _ ↦ ?_
  rw [path_iff hwire, and_iff_right hv, needs_wire h hassembly]

theorem eq_wire_of_planned (h : ∃ t ∈ plan.tasks, t.capability ∈ strategyCaps) {c : String}
    (hplanned : plan.Planned c) {u : PlannedTask}
    (hu : u ∈ (plan.ensureResearchScaffold registry).tasks) (hcap : u.capability = c) :
    ∃ t ∈ plan.tasks, u = plan.wire t := by
  rcases (mem_ensureResearchScaffold h).mp hu with htask | ⟨row, -, hnone, rfl⟩
  · exact htask
  · obtain rfl : row.capability = c := (wire_capability _).symm.trans hcap
    exact absurd hplanned hnone

/-- The plan that comes back is complete unless the one planned brought an assembly of its own
that is not. -/
theorem researchComplete_iff :
    (plan.ensureResearchScaffold registry).ResearchComplete ↔
      ¬ plan.Planned "context_assembly" ∨ plan.Assembled := by
  by_cases h : ∃ t ∈ plan.tasks, t.capability ∈ strategyCaps
  · by_cases hassembly : plan.Planned "context_assembly"
    · rw [or_iff_right (not_not.mpr hassembly)]
      have hmem {t : PlannedTask} (ht : t ∈ plan.tasks) :
          plan.wire t ∈ (plan.ensureResearchScaffold registry).tasks :=
        (mem_ensureResearchScaffold h).mpr (.inl ⟨t, ht, rfl⟩)
      constructor
      · intro hcomplete t ht hcap
        obtain ⟨u, hu, hucap, htu, hinputs⟩ :=
          hcomplete _ (hmem ht) ((wire_capability t).symm ▸ hcap)
        obtain ⟨u', hu', rfl⟩ := eq_wire_of_planned h hassembly hu hucap
        rw [wire_capability] at hucap
        have hneeds := ((path_iff (hmem ht)).mp htu).2
        rw [wire_key, needs_wire h hassembly] at hneeds
        exact ⟨u', hu', hucap, hneeds, fun c hc ↦
          (awaits_wire h hassembly hu' hc).mp (hinputs c hc)⟩
      · intro hassembled t ht hcap
        rcases (mem_ensureResearchScaffold h).mp ht with ⟨t', ht', rfl⟩ | ⟨row, hrow, -, rfl⟩
        · rw [wire_capability] at hcap
          obtain ⟨u, hu, hucap, htu, hinputs⟩ := hassembled t' ht' hcap
          refine ⟨_, hmem hu, (wire_capability u).trans hucap, (path_iff ht).mpr ⟨hmem hu, ?_⟩,
            fun c hc ↦ (awaits_wire h hassembly hu hc).mpr (hinputs c hc)⟩
          rwa [wire_key, needs_wire h hassembly]
        · rw [wire_capability] at hcap
          exact absurd hcap (not_mem_strategyCaps row hrow)
    · exact iff_of_true (researchComplete_of_not_planned h hassembly) (.inl hassembly)
  · have hout : plan.ensureResearchScaffold registry = plan := if_pos h
    refine iff_of_true ?_ (.inr fun t ht hcap ↦ absurd ⟨t, ht, hcap⟩ h)
    rw [hout]
    exact fun t ht hcap ↦ absurd ⟨t, ht, hcap⟩ h

end Research

/-- Both scaffolds leave a plan complete unless the one planned brought the task that gathers. -/
theorem scaffolds_complete_iff (plan : GeneratedPlan) (registry : List AgentSnapshotRow) :
    ((plan.ensureResearchScaffold registry).ResearchComplete ↔
      ¬ plan.Planned "context_assembly" ∨ plan.Assembled) ∧
    ((plan.ensureAdhocScaffold registry).AdhocComplete ↔
      ∀ s ∈ plan.tasks, s.capability = "adhoc_synthesis" →
        (∀ t ∈ plan.tasks, t.capability ≠ "adhoc_synthesis" → TransGen plan.Leads s t) ∧
          (plan.objectiveClassification ∈ adhocObjectiveKinds → ¬ plan.Planned "portfolio_read" →
            plan.Needs s "adhoc_portfolio")) :=
  ⟨researchComplete_iff, adhocComplete_iff⟩

def ownAssembly : GeneratedPlan where
  tasks :=
    [{ key := "assemble", objective := "Assemble the context.", capability := "context_assembly",
       assignedAgent := "ceo_agent" },
     { key := "design", objective := "Design a strategy.", capability := "strategy_generation",
       assignedAgent := "strategy_agent", dependsOn := ["assemble"] }]

def ownSynthesis : GeneratedPlan where
  objectiveClassification := "risk_ranking"
  tasks :=
    [{ key := "answer", objective := "Rank the risks.", capability := "adhoc_synthesis",
       assignedAgent := "ceo_agent" }]

/-- An assembly or a synthesis that was planned to wait for nothing still waits for nothing. -/
theorem not_complete_ownAssembly :
    ¬ (ownAssembly.ensureResearchScaffold []).ResearchComplete ∧
      ¬ (ownSynthesis.ensureAdhocScaffold []).AdhocComplete := by
  constructor
  · intro hcomplete
    obtain ⟨u, hu, hcap, -, hinputs⟩ := hcomplete
      (ownAssembly.wire (ownAssembly.tasks.get ⟨1, by decide⟩)) (by decide) (by decide)
    obtain ⟨v, -, -, hpath⟩ := hinputs "market_analysis" (by decide)
    obtain ⟨w, ⟨-, -, hdep⟩, -⟩ := TransGen.head'_iff.mp hpath
    have hnone : ∀ u ∈ (ownAssembly.ensureResearchScaffold []).tasks,
        u.capability = "context_assembly" → u.dependsOn = [] := by decide
    exact absurd (hnone u hu hcap ▸ hdep) List.not_mem_nil
  · intro hcomplete
    have hpath := hcomplete (ownSynthesis.tasks.get ⟨0, by decide⟩) (by decide) (by decide)
      (adhocPortfolio []) (by decide) (by decide)
    obtain ⟨w, ⟨-, -, hdep⟩, -⟩ := TransGen.head'_iff.mp hpath
    exact absurd hdep List.not_mem_nil

end GeneratedPlan

end TradingOS.Orchestration.Planner
