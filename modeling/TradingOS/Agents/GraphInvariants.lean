import Mathlib.Data.List.Induction
import TradingOS.Agents.Graph

namespace TradingOS.Agents

open Api Lib Lib.Runs

inductive StateField
  | strategyLogic | pythonCode | complianceVerdict | validationResult | backtestMetrics
  | evaluationVerdict | optimizationResult | riskAssessment
  deriving DecidableEq

def Update.writes : Update → StateField → Bool
  | .strategyGenerator _, .strategyLogic => true
  | .optionsStrategyAgent update, .strategyLogic => update.strategyLogic.isSome
  | .pythonCodeGenerator _, .pythonCode => true
  | .compliance _, .complianceVerdict => true
  | .pythonValidator _, .validationResult => true
  | .backtesting _, .backtestMetrics => true
  | .evaluator _, .evaluationVerdict => true
  | .optimization _, .optimizationResult => true
  | .riskManager _, .riskAssessment => true
  | _, _ => false

/-- The place in the run of the last update that writes the field. -/
def lastWrite (f : StateField) (ls : List Update) : Option ℕ :=
  (ls.zipIdx.filter fun x ↦ x.1.writes f).getLast?.map Prod.snd

theorem lastWrite_snoc (f : StateField) (ls : List Update) (u : Update) :
    lastWrite f (ls ++ [u]) = if u.writes f then some ls.length else lastWrite f ls := by
  simp only [lastWrite, List.zipIdx_append, List.filter_append, List.zipIdx_cons, List.zipIdx_nil]
  split_ifs with h <;> simp [h]

theorem lastWrite_append (f : StateField) (ls ls' : List Update) :
    lastWrite f (ls ++ ls') =
      ((lastWrite f ls').map (ls.length + ·)).or (lastWrite f ls) := by
  induction ls' using List.reverseRecOn with
  | nil => simp [lastWrite]
  | append_singleton ls' u ih =>
    rw [← List.append_assoc, lastWrite_snoc, lastWrite_snoc, List.length_append]
    split_ifs
    · rfl
    · exact ih

theorem lastWrite_lt {f : StateField} {ls : List Update} {i : ℕ} (h : lastWrite f ls = some i) :
    i < ls.length := by
  obtain ⟨x, hx, rfl⟩ := Option.map_eq_some_iff.mp h
  have hmem := List.mem_of_getLast? hx
  exact (List.mem_zipIdx' (List.mem_filter.mp hmem).1).1

namespace TradingOSGraphState

variable {s t : TradingOSGraphState} {u : Update} {ls : List Update} {threadId : String} {n : Node}

def SameField (s t : TradingOSGraphState) : StateField → Prop
  | .strategyLogic => t.strategyLogic = s.strategyLogic
  | .pythonCode => t.pythonCode = s.pythonCode
  | .complianceVerdict => t.complianceVerdict = s.complianceVerdict
  | .validationResult => t.validationResult = s.validationResult
  | .backtestMetrics => t.backtestMetrics = s.backtestMetrics
  | .evaluationVerdict => t.evaluationVerdict = s.evaluationVerdict
  | .optimizationResult => t.optimizationResult = s.optimizationResult
  | .riskAssessment => t.riskAssessment = s.riskAssessment

/-- What an update does not write stays. -/
theorem sameField_of_not_writes {f : StateField} (h : u.writes f = false) :
    SameField s (s.advance u) f := by
  cases u with
  | optionsStrategyAgent update =>
    cases f with
    | strategyLogic =>
      have hnone : update.strategyLogic = none := by simpa [Update.writes] using h
      simp [SameField, advance, hnone]
    | _ => rfl
  | _ => cases f <;> first | rfl | cases h

/-- A run that is about to enter any node but the first has a last update, whose edge leads there. -/
theorem exists_last (h : Run step (init threadId) ls s) (hnext : s.next = some n)
    (hn : n ≠ .ceoAgent) : ∃ ls' u t, ls = ls' ++ [u] ∧ Run step (init threadId) ls' t ∧
      t.next = some u.node ∧ s = t.advance u := by
  rcases h.eq_nil_or_snoc with ⟨-, rfl⟩ | ⟨ls', u, t, hls, hrun, hstep⟩
  · exact absurd (Option.some.inj hnext).symm hn
  · obtain ⟨⟨hnode, -⟩, rfl⟩ := step_eq_some.mp hstep
    exact ⟨ls', u, t, hls, hrun, hnode, rfl⟩

section Edges

theorem routeAfterMemoryIngest_eq (s : TradingOSGraphState) :
    s.routeAfterMemoryIngest = .ceoAgent ∨ s.routeAfterMemoryIngest = .strategyGenerator := by
  simp only [routeAfterMemoryIngest]
  split_ifs
  · exact .inl rfl
  · exact .inr rfl

/-- The one edge into each of the nodes from the compliance check to the deployment. -/
def EntersBy : Node → Update → Prop
  | .compliance, u => ∃ code, u = .pythonCodeGenerator code
  | .pythonValidator, u => ∃ v, u = .compliance v ∧ v.verdict = .pass
  | .backtesting, u => ∃ r, u = .pythonValidator r ∧ r.passed
  | .evaluator, u => ∃ m, u = .backtesting m
  | .optimization, u => ∃ v, u = .evaluator v ∧ v.passed
  | .riskManager, u => ∃ r, u = .optimization r
  | .deployment, u => ∃ r, u = .riskManager r
  | _, _ => True

theorem entersBy_of_next (h : (t.advance u).next = some n) : EntersBy n u := by
  cases u with
  | compliance v =>
    obtain ⟨hv, rfl⟩ := routeAfterCompliance_eq h
    exact ⟨v, rfl, hv⟩
  | pythonValidator r =>
    rcases routeAfterValidation_eq h with ⟨hr, rfl⟩ | ⟨-, rfl⟩
    · exact ⟨r, rfl, hr⟩
    · trivial
  | evaluator v =>
    obtain rfl := Option.some.inj h
    rcases routeAfterEvaluation_eq v with ⟨hv, he⟩ | ⟨-, he⟩
    · rw [he]
      exact ⟨v, rfl, hv⟩
    · rw [he]
      trivial
  | memoryIngest =>
    obtain rfl := Option.some.inj h
    rcases routeAfterMemoryIngest_eq t with he | he <;> rw [he] <;> trivial
  | pythonCodeGenerator code =>
    obtain rfl := Option.some.inj h
    exact ⟨code, rfl⟩
  | backtesting m =>
    obtain rfl := Option.some.inj h
    exact ⟨m, rfl⟩
  | optimization r =>
    obtain rfl := Option.some.inj h
    exact ⟨r, rfl⟩
  | riskManager r =>
    obtain rfl := Option.some.inj h
    exact ⟨r, rfl⟩
  | deployment _ => cases h
  | _ =>
    obtain rfl := Option.some.inj h
    trivial

end Edges

section Pipeline

variable (code : String) (c : Risk.ComplianceVerdict) (v : ValidationResult) (m : BacktestMetrics)
  (e : EvaluationVerdict) (o : Optimization) (r : RiskAssessment)

/-- The way from the code generator to the deployment. -/
def pipeline : List Update :=
  [.pythonCodeGenerator code, .compliance c, .pythonValidator v, .backtesting m, .evaluator e,
    .optimization o, .riskManager r]

def verdictFields : List StateField :=
  [.complianceVerdict, .validationResult, .backtestMetrics, .evaluationVerdict,
    .optimizationResult, .riskAssessment]

theorem lastWrite_pipeline_verdict {f : StateField} (hf : f ∈ verdictFields) :
    ∃ j, 0 < j ∧ lastWrite f (pipeline code c v m e o r) = some j := by
  simp only [verdictFields, List.mem_cons, List.not_mem_nil, or_false] at hf
  rcases hf with rfl | rfl | rfl | rfl | rfl | rfl
  · exact ⟨1, by decide, rfl⟩
  · exact ⟨2, by decide, rfl⟩
  · exact ⟨3, by decide, rfl⟩
  · exact ⟨4, by decide, rfl⟩
  · exact ⟨5, by decide, rfl⟩
  · exact ⟨6, by decide, rfl⟩

/-- A run that reaches the deployment has just come straight from the code generator, through a
check, a validation and an evaluation that have all passed. -/
theorem exists_pipeline (h : Run step (init threadId) ls s) (hnext : s.next = some .deployment) :
    ∃ pre t code c v m e o r, c.verdict = .pass ∧ v.passed ∧ e.passed ∧
      ls = pre ++ pipeline code c v m e o r ∧
      s = (pipeline code c v m e o r).foldl advance t := by
  obtain ⟨ls₇, u₇, t₇, rfl, h₇, hn₇, rfl⟩ := exists_last h hnext (by decide)
  obtain ⟨r, rfl⟩ : ∃ r, u₇ = .riskManager r := entersBy_of_next hnext
  obtain ⟨ls₆, u₆, t₆, rfl, h₆, hn₆, rfl⟩ := exists_last h₇ hn₇ (by simp [Update.node])
  obtain ⟨o, rfl⟩ : ∃ o, u₆ = .optimization o := entersBy_of_next hn₇
  obtain ⟨ls₅, u₅, t₅, rfl, h₅, hn₅, rfl⟩ := exists_last h₆ hn₆ (by simp [Update.node])
  obtain ⟨e, rfl, he⟩ : ∃ e, u₅ = .evaluator e ∧ e.passed := entersBy_of_next hn₆
  obtain ⟨ls₄, u₄, t₄, rfl, h₄, hn₄, rfl⟩ := exists_last h₅ hn₅ (by simp [Update.node])
  obtain ⟨m, rfl⟩ : ∃ m, u₄ = .backtesting m := entersBy_of_next hn₅
  obtain ⟨ls₃, u₃, t₃, rfl, h₃, hn₃, rfl⟩ := exists_last h₄ hn₄ (by simp [Update.node])
  obtain ⟨v, rfl, hv⟩ : ∃ v, u₃ = .pythonValidator v ∧ v.passed := entersBy_of_next hn₄
  obtain ⟨ls₂, u₂, t₂, rfl, h₂, hn₂, rfl⟩ := exists_last h₃ hn₃ (by simp [Update.node])
  obtain ⟨c, rfl, hc⟩ : ∃ c, u₂ = .compliance c ∧ c.verdict = .pass := entersBy_of_next hn₃
  obtain ⟨pre, u₁, t, rfl, -, -, rfl⟩ := exists_last h₂ hn₂ (by simp [Update.node])
  obtain ⟨code, rfl⟩ : ∃ code, u₁ = .pythonCodeGenerator code := entersBy_of_next hn₂
  exact ⟨pre, t, code, c, v, m, e, o, r, hc, hv, he, by simp [pipeline], rfl⟩

end Pipeline

/-- Whenever the deployment is entered, the check, the validation and the evaluation in the state
have passed, and every result in it is later than the code and the strategy. -/
theorem no_stale_verdict (h : Run step (init threadId) ls s) (hnext : s.next = some .deployment) :
    s.complianceVerdict.any (fun c ↦ c.verdict = .pass) ∧
      s.validationResult.any (fun v ↦ v.passed) ∧ s.backtestMetrics.isSome ∧
      s.evaluationVerdict.any (fun e ↦ e.passed) ∧ s.optimizationResult.isSome ∧
      s.riskAssessment.isSome ∧
      ∀ f ∈ verdictFields, ∀ g ∈ [StateField.strategyLogic, .pythonCode], ∀ i,
        lastWrite g ls = some i → ∃ j, lastWrite f ls = some j ∧ i < j := by
  obtain ⟨pre, t, code, c, v, m, e, o, r, hc, hv, he, rfl, rfl⟩ := exists_pipeline h hnext
  refine ⟨?_, ?_, rfl, ?_, rfl, rfl, fun f hf g hg i hi ↦ ?_⟩
  · simpa [pipeline, advance] using hc
  · simpa [pipeline, advance] using hv
  · simpa [pipeline, advance] using he
  · obtain ⟨j, hpos, hj⟩ := lastWrite_pipeline_verdict code c v m e o r hf
    have hle : i ≤ pre.length := by
      rw [lastWrite_append] at hi
      simp only [List.mem_cons, List.not_mem_nil, or_false] at hg
      rcases hg with rfl | rfl
      · have hnone : lastWrite .strategyLogic (pipeline code c v m e o r) = none := rfl
        rw [hnone, Option.map_none, Option.none_or] at hi
        exact (lastWrite_lt hi).le
      · have hfirst : lastWrite .pythonCode (pipeline code c v m e o r) = some 0 := rfl
        rw [hfirst, Option.map_some, Option.some_or, Option.some.injEq] at hi
        exact hi.symm.le
    refine ⟨pre.length + j, ?_, by omega⟩
    rw [lastWrite_append, hj]
    rfl

section Deployed

def infy : StrategyLogic := ⟨.equity, ["INFY"], none⟩

def metrics : BacktestMetrics :=
  ⟨1, none, none, 1 / 10, none, none, none, none, none, none, none⟩

/-- The steps from a new strategy to the evaluation of its code. -/
def attempt (code : String) (passed : Bool) : List Update :=
  [.strategyGenerator infy, .optionsStrategyAgent ⟨none, none, none⟩, .pythonCodeGenerator code,
    .compliance ⟨.pass, [], false, false, false⟩, .pythonValidator ⟨true, none⟩,
    .backtesting metrics, .evaluator ⟨passed, []⟩]

def evaluatedTwice : List Update :=
  .ceoAgent "" :: .marketAnalyst "" :: attempt "v1" false ++ .memoryIngest :: attempt "v2" true

def beforeDeployment : List Update :=
  evaluatedTwice ++ [.optimization ⟨⟨[], none, []⟩, true⟩, .riskManager ⟨.approve, ""⟩]

def deploymentEntered : TradingOSGraphState :=
  (exec step (init "t1") beforeDeployment).get (by decide +kernel)

/-- The second strategy of the run is deployed with the results of its own code. -/
theorem deploymentEntered_fresh : deploymentEntered.pythonCode = some ⟨"v2", 2⟩ ∧
    deploymentEntered.complianceVerdict.any (fun c ↦ c.verdict = .pass) ∧
      deploymentEntered.backtestMetrics.isSome := by
  have hrun : Run step (init "t1") beforeDeployment deploymentEntered :=
    exec_eq_some.mp (Option.some_get (by decide +kernel)).symm
  have h := no_stale_verdict hrun (by decide +kernel)
  exact ⟨by decide +kernel, h.1, h.2.2.1⟩

end Deployed

section Guards

def afterStrategy : Node → Bool
  | .ceoAgent | .marketAnalyst | .strategyGenerator => false
  | _ => true

def afterCode : Node → Bool
  | .ceoAgent | .marketAnalyst | .strategyGenerator | .optionsStrategyAgent
  | .pythonCodeGenerator => false
  | _ => true

/-- There is a strategy after the strategy generator and code after the code generator. -/
structure Grounded (s : TradingOSGraphState) : Prop where
  strategy : ∀ n, s.next = some n → afterStrategy n → s.strategyLogic.isSome
  code : ∀ n, s.next = some n → afterCode n → s.pythonCode.isSome

theorem grounded_init (threadId : String) : Grounded (init threadId) where
  strategy n hn h := by
    obtain rfl := Option.some.inj hn
    cases h
  code n hn h := by
    obtain rfl := Option.some.inj hn
    cases h

theorem strategyLogic_advance (hs : Grounded s) (hnode : s.next = some u.node)
    (hn : (s.advance u).next = some n) (h : afterStrategy n) :
    (s.advance u).strategyLogic.isSome := by
  cases u with
  | ceoAgent _ | marketAnalyst _ =>
    obtain rfl := Option.some.inj hn
    cases h
  | strategyGenerator _ => rfl
  | optionsStrategyAgent update =>
    have hsome := hs.strategy _ hnode rfl
    cases hu : update.strategyLogic <;> simp [advance, hu, hsome]
  | memoryIngest =>
    obtain rfl := Option.some.inj hn
    rcases routeAfterMemoryIngest_eq s with he | he <;> rw [he] at h <;> cases h
  | _ => exact hs.strategy _ hnode rfl

theorem pythonCode_advance (hs : Grounded s) (hnode : s.next = some u.node)
    (hn : (s.advance u).next = some n) (h : afterCode n) : (s.advance u).pythonCode.isSome := by
  cases u with
  | ceoAgent _ | marketAnalyst _ | strategyGenerator _ | optionsStrategyAgent _ =>
    obtain rfl := Option.some.inj hn
    cases h
  | pythonCodeGenerator _ => rfl
  | memoryIngest =>
    obtain rfl := Option.some.inj hn
    rcases routeAfterMemoryIngest_eq s with he | he <;> rw [he] at h <;> cases h
  | _ => exact hs.code _ hnode rfl

theorem grounded_step (hs : Grounded s) (h : s.step u = some t) : Grounded t := by
  obtain ⟨⟨hnode, -⟩, rfl⟩ := step_eq_some.mp h
  exact ⟨fun n hn ↦ strategyLogic_advance hs hnode hn, fun n hn ↦ pythonCode_advance hs hnode hn⟩

/-- The node that is entered next does not raise. -/
def GuardHolds (s : TradingOSGraphState) : Prop := ∀ n, s.next = some n → s.guard n = none

/-- An optimisation is robust, and code passes the validation only for a strategy with a universe. -/
def Sustains (s : TradingOSGraphState) : Update → Prop
  | .optimization result => result.passed
  | .pythonValidator result => result.passed → s.strategyLogic.all fun l ↦ !l.symbols.isEmpty
  | _ => True

theorem guardHolds_iff (hnext : s.next = some n) : GuardHolds s ↔ s.guard n = none := by
  constructor
  · intro h
    exact h n hnext
  · intro h m hm
    obtain rfl := Option.some.inj (hnext.symm.trans hm)
    exact h

theorem guardHolds_of_eq (hnext : s.next = some n) (h : s.guard n = none) : GuardHolds s :=
  (guardHolds_iff hnext).mpr h

theorem guardHolds_iff_sustains (hs : Grounded s) (h : s.step u = some t) :
    GuardHolds t ↔ Sustains s u := by
  have ht := grounded_step hs h
  obtain ⟨⟨hnode, hguard⟩, rfl⟩ := step_eq_some.mp h
  cases u with
  | ceoAgent _ | marketAnalyst _ | strategyGenerator _ | pythonCodeGenerator _ | backtesting _
  | riskManager _ => exact iff_of_true (guardHolds_of_eq rfl rfl) trivial
  | deployment _ => exact iff_of_true (fun n hn ↦ by cases hn) trivial
  | optionsStrategyAgent update =>
    refine iff_of_true (guardHolds_of_eq rfl ?_) trivial
    have hsome := ht.strategy _ rfl rfl
    simp only [guard, Option.isSome_iff_ne_none, Option.isNone_iff_eq_none] at hsome ⊢
    rw [if_neg hsome]
  | compliance verdict =>
    refine iff_of_true (fun n hn ↦ ?_) trivial
    obtain ⟨-, rfl⟩ := routeAfterCompliance_eq hn
    have hsome := ht.code _ hn rfl
    simp only [guard, Option.isSome_iff_ne_none, Option.isNone_iff_eq_none] at hsome ⊢
    rw [if_neg hsome]
  | pythonValidator result =>
    obtain ⟨logic, hlogic⟩ := Option.isSome_iff_exists.mp (hs.strategy _ hnode rfl)
    obtain ⟨code, hcode⟩ := Option.isSome_iff_exists.mp (hs.code _ hnode rfl)
    cases hpassed : result.passed with
    | true =>
      have hnext : (s.advance (.pythonValidator result)).next = some .backtesting := by
        simp [advance, routeAfterValidation, hpassed]
      rw [guardHolds_iff hnext]
      simp [guard, Sustains, advance, hlogic, hcode, hpassed]
    | false =>
      refine iff_of_true (fun n hn ↦ ?_) (fun h ↦ by simp [hpassed] at h)
      rcases routeAfterValidation_eq hn with ⟨h, -⟩ | ⟨-, rfl⟩
      · simp [hpassed] at h
      · simp [guard, advance, hlogic]
  | evaluator verdict =>
    refine iff_of_true ?_ trivial
    have hmetrics : s.backtestMetrics ≠ none := by simpa [guard, Update.node] using hguard
    rcases routeAfterEvaluation_eq verdict with ⟨hpassed, hroute⟩ | ⟨hfailed, hroute⟩
    · refine guardHolds_of_eq (congrArg some hroute) ?_
      simp [guard, advance, hpassed]
    · have hnext : (s.advance (.evaluator verdict)).next = some .memoryIngest :=
        congrArg some hroute
      have hlogic := ht.strategy _ hnext rfl
      have hcode := ht.code _ hnext rfl
      refine guardHolds_of_eq hnext ?_
      simp only [advance, Option.isSome_iff_ne_none] at hlogic hcode
      simp [guard, advance, hlogic, hcode, hmetrics, evaluationFailed, hfailed]
  | memoryIngest =>
    refine iff_of_true ?_ trivial
    rcases routeAfterMemoryIngest_eq s with hroute | hroute <;>
      exact guardHolds_of_eq (congrArg some hroute) rfl
  | optimization result =>
    rw [guardHolds_iff (n := .riskManager) rfl]
    simp [guard, Sustains, advance]

/-- No node of a run raises exactly when every optimisation of it is robust and no code passes
the validation for a strategy without a universe. -/
theorem guards_hold_iff (threadId : String) (ls : List Update) :
    Along step (fun _ _ t ↦ GuardHolds t) (init threadId) ls ↔
      Along step (fun s u _ ↦ Sustains s u) (init threadId) ls :=
  along_iff_of_invariant (fun _ _ _ hs h ↦ grounded_step hs h)
    (fun _ _ _ hs h ↦ guardHolds_iff_sustains hs h) (grounded_init threadId)

/-- An optimisation that is not robust leads to the risk manager all the same, which then raises. -/
theorem riskManager_entered_and_raises : ∃ s, Run step (init "t1")
    (evaluatedTwice ++ [.optimization ⟨⟨[], none, []⟩, false⟩]) s ∧ s.next = some .riskManager ∧
      s.guard .riskManager =
        some "risk_manager_node requires a passed state.optimization_result" := by
  refine ⟨_, exec_eq_some.mp (Option.some_get (by decide +kernel)).symm, ?_, ?_⟩
  · decide +kernel
  · decide +kernel

end Guards

end TradingOSGraphState

end TradingOS.Agents
