import TradingOS.Api.ResearchRun
import TradingOS.Lib.Runs

namespace TradingOS.Agents

open Api Lib Lib.Runs

structure Optimization extends OptimizationResult where
  passed : Bool
  deriving DecidableEq

/-- What a node returns; numbers and counts that it takes from the state are left to `advance`. -/
inductive Update
  | ceoAgent (researchDirective : String)
  | marketAnalyst (marketContext : String)
  | strategyGenerator (strategyLogic : StrategyLogic)
  | optionsStrategyAgent (update : OptionsUpdate)
  | pythonCodeGenerator (code : String)
  | compliance (complianceVerdict : Risk.ComplianceVerdict)
  | pythonValidator (validationResult : ValidationResult)
  | backtesting (backtestMetrics : BacktestMetrics)
  | evaluator (evaluationVerdict : EvaluationVerdict)
  | memoryIngest
  | optimization (optimizationResult : Optimization)
  | riskManager (riskAssessment : RiskAssessment)
  | deployment (rationale : String)
  deriving DecidableEq

def Update.node : Update → Node
  | .ceoAgent _ => .ceoAgent
  | .marketAnalyst _ => .marketAnalyst
  | .strategyGenerator _ => .strategyGenerator
  | .optionsStrategyAgent _ => .optionsStrategyAgent
  | .pythonCodeGenerator _ => .pythonCodeGenerator
  | .compliance _ => .compliance
  | .pythonValidator _ => .pythonValidator
  | .backtesting _ => .backtesting
  | .evaluator _ => .evaluator
  | .memoryIngest => .memoryIngest
  | .optimization _ => .optimization
  | .riskManager _ => .riskManager
  | .deployment _ => .deployment

/-- The state the nodes share, and the node that is entered next (`none`: `END`). -/
structure TradingOSGraphState where
  threadId : String
  researchDirective : Option String
  marketContext : Option String
  strategyLogic : Option StrategyLogic
  optionExpiry : Option Date
  pythonCode : Option PythonCode
  strategyVersionId : Option String
  complianceVerdict : Option Risk.ComplianceVerdict
  validationResult : Option ValidationResult
  backtestMetrics : Option BacktestMetrics
  evaluationVerdict : Option EvaluationVerdict
  optimizationResult : Option Optimization
  riskAssessment : Option RiskAssessment
  deploymentRecommendation : Option DeploymentRecommendation
  codeValidationRetryCount : ℕ
  strategyRejectionCount : ℕ
  next : Option Node
  deriving DecidableEq

namespace TradingOSGraphState

def init (threadId : String) : TradingOSGraphState :=
  ⟨threadId, none, none, none, none, none, none, none, none, none, none, none, none, none, 0, 0,
    some .ceoAgent⟩

variable (s : TradingOSGraphState)

def evaluationFailed : Bool := s.evaluationVerdict.any fun v ↦ !v.passed

def nextVersionNo : ℕ :=
  match s.pythonCode with
  | none => 1
  | some code => code.versionNo + 1

def routeAfterCompliance (verdict : Risk.ComplianceVerdict) : Option Node :=
  match verdict.verdict with
  | .block => none
  | .pass => some .pythonValidator

def routeAfterValidation (result : ValidationResult) (retryCount : ℕ) : Option Node :=
  if result.passed then some .backtesting
  else if GraphState.maxCodeValidationRetries ≤ retryCount then none
  else some .pythonCodeGenerator

def routeAfterEvaluation (verdict : EvaluationVerdict) : Node :=
  if verdict.passed then .optimization else .memoryIngest

def routeAfterMemoryIngest : Node :=
  if GraphState.maxRejectionsBeforeEscalation ≤ s.strategyRejectionCount then .ceoAgent
  else .strategyGenerator

/-- What a node leaves in the state, and the edge out of it. A route reads what its node has just
written, so it never finds it missing. -/
def advance : Update → TradingOSGraphState
  | .ceoAgent directive =>
    { s with
      researchDirective := some directive
      strategyRejectionCount := 0
      next := some .marketAnalyst }
  | .marketAnalyst context =>
    { s with marketContext := some context, next := some .strategyGenerator }
  | .strategyGenerator logic =>
    { s with
      strategyLogic := some logic
      strategyRejectionCount := s.strategyRejectionCount + if s.evaluationFailed then 1 else 0
      next := some .optionsStrategyAgent }
  | .optionsStrategyAgent update =>
    { s with
      strategyLogic := update.strategyLogic.or s.strategyLogic
      optionExpiry := update.optionExpiry.or s.optionExpiry
      next := some .pythonCodeGenerator }
  | .pythonCodeGenerator code =>
    { s with
      pythonCode := some ⟨code, s.nextVersionNo⟩
      strategyVersionId := some s!"{s.threadId}-v{s.nextVersionNo}"
      next := some .compliance }
  | .compliance verdict =>
    { s with complianceVerdict := some verdict, next := routeAfterCompliance verdict }
  | .pythonValidator result =>
    let retryCount := s.codeValidationRetryCount + if result.passed then 0 else 1
    { s with
      validationResult := some result
      codeValidationRetryCount := retryCount
      next := routeAfterValidation result retryCount }
  | .backtesting metrics => { s with backtestMetrics := some metrics, next := some .evaluator }
  | .evaluator verdict =>
    { s with evaluationVerdict := some verdict, next := some (routeAfterEvaluation verdict) }
  | .memoryIngest => { s with next := some s.routeAfterMemoryIngest }
  | .optimization result => { s with optimizationResult := some result, next := some .riskManager }
  | .riskManager assessment =>
    { s with riskAssessment := some assessment, next := some .deployment }
  | .deployment rationale =>
    let status : RecommendedStatus :=
      if s.riskAssessment.any fun r ↦ r.decision = .reject then .reject else .paperTrading
    { s with deploymentRecommendation := some ⟨status, rationale⟩, next := none }

/-- The `ValueError` with which a node starts, in this order of its checks. -/
def guard : Node → Option String
  | .ceoAgent | .marketAnalyst | .strategyGenerator => none
  | .optionsStrategyAgent =>
    if s.strategyLogic.isNone then
      some "options_strategy_node requires a populated state.strategy_logic"
    else none
  | .pythonCodeGenerator =>
    if s.strategyLogic.isNone then
      some "python_code_generator_node requires state.strategy_logic"
    else none
  | .compliance =>
    if s.pythonCode.isNone then some "compliance_node requires state.python_code" else none
  | .pythonValidator =>
    if s.pythonCode.isNone then some "python_validator_node requires state.python_code" else none
  | .backtesting =>
    if s.pythonCode.isNone then some "backtesting_node requires state.python_code"
    else if s.strategyLogic.all fun l ↦ l.symbols.isEmpty then
      some "backtesting_node requires state.strategy_logic.universe"
    else none
  | .evaluator =>
    if s.backtestMetrics.isNone then some "evaluator_node requires state.backtest_metrics" else none
  | .memoryIngest =>
    if s.strategyLogic.isNone then some "memory_ingest_node requires state.strategy_logic"
    else if s.pythonCode.isNone then some "memory_ingest_node requires state.python_code"
    else if s.backtestMetrics.isNone then some "memory_ingest_node requires state.backtest_metrics"
    else if ¬ s.evaluationFailed then
      some "memory_ingest_node requires a FAIL state.evaluation_verdict"
    else none
  | .optimization =>
    if s.evaluationVerdict.all fun v ↦ !v.passed then
      some "optimization_node requires a PASS state.evaluation_verdict"
    else none
  | .riskManager =>
    if s.optimizationResult.all fun r ↦ !r.passed then
      some "risk_manager_node requires a passed state.optimization_result"
    else none
  | .deployment =>
    if s.riskAssessment.isNone then some "deployment_node requires state.risk_assessment" else none

/-- A node whose guard raises returns nothing, and the run is over. -/
def step (u : Update) : Option TradingOSGraphState :=
  if s.next = some u.node ∧ s.guard u.node = none then some (s.advance u) else none

variable {s} {t : TradingOSGraphState} {u : Update} {ls : List Update} {threadId : String}

theorem step_eq_some :
    s.step u = some t ↔ (s.next = some u.node ∧ s.guard u.node = none) ∧ t = s.advance u := by
  simp only [step]
  split_ifs with h
  · simp [h, eq_comm]
  · simp [h]

theorem routeAfterCompliance_eq {n : Node} {v : Risk.ComplianceVerdict} (h : routeAfterCompliance v = some n) :
    v.verdict = .pass ∧ n = .pythonValidator := by
  simp only [routeAfterCompliance] at h
  split at h
  · cases h
  · next hv => exact ⟨hv, (Option.some.inj h).symm⟩

theorem routeAfterValidation_eq {n : Node} {r : ValidationResult} {k : ℕ}
    (h : routeAfterValidation r k = some n) :
    r.passed ∧ n = .backtesting ∨ r.passed = false ∧ n = .pythonCodeGenerator := by
  simp only [routeAfterValidation] at h
  split_ifs at h with hpassed
  · exact .inl ⟨hpassed, (Option.some.inj h).symm⟩
  · exact .inr ⟨by simpa using hpassed, (Option.some.inj h).symm⟩

theorem routeAfterEvaluation_eq (v : EvaluationVerdict) :
    v.passed ∧ routeAfterEvaluation v = .optimization ∨
      v.passed = false ∧ routeAfterEvaluation v = .memoryIngest := by
  cases h : v.passed <;> simp [routeAfterEvaluation, h]

/-- The nodes that the edges and the routes of `build_graph` lead to. -/
def successors : Node → List Node
  | .ceoAgent => [.marketAnalyst]
  | .marketAnalyst => [.strategyGenerator]
  | .strategyGenerator => [.optionsStrategyAgent]
  | .optionsStrategyAgent => [.pythonCodeGenerator]
  | .pythonCodeGenerator => [.compliance]
  | .compliance => [.pythonValidator]
  | .pythonValidator => [.backtesting, .pythonCodeGenerator]
  | .backtesting => [.evaluator]
  | .evaluator => [.optimization, .memoryIngest]
  | .memoryIngest => [.ceoAgent, .strategyGenerator]
  | .optimization => [.riskManager]
  | .riskManager => [.deployment]
  | .deployment => []

theorem mem_successors {n : Node} (h : (s.advance u).next = some n) : n ∈ successors u.node := by
  cases u with
  | compliance verdict =>
    obtain ⟨-, rfl⟩ := routeAfterCompliance_eq h
    exact List.mem_singleton_self _
  | pythonValidator result =>
    rcases routeAfterValidation_eq h with ⟨-, rfl⟩ | ⟨-, rfl⟩ <;> simp [Update.node, successors]
  | evaluator verdict =>
    obtain rfl := Option.some.inj h
    simp only [routeAfterEvaluation]
    split_ifs <;> simp [Update.node, successors]
  | memoryIngest =>
    obtain rfl := Option.some.inj h
    simp only [routeAfterMemoryIngest]
    split_ifs <;> simp [Update.node, successors]
  | deployment _ => cases h
  | _ => exact List.mem_singleton.mpr (Option.some.inj h).symm

/-- The part that the routes and the options node read. -/
def routes (s : TradingOSGraphState) : GraphState where
  strategyLogic := s.strategyLogic
  evaluationFailed := s.evaluationFailed
  codeValidationRetryCount := s.codeValidationRetryCount
  strategyRejectionCount := s.strategyRejectionCount
  next := s.next

/-- The update as it is streamed to the driver of the run. -/
def output (s : TradingOSGraphState) : Update → NodeOutput
  | .ceoAgent directive => .ceoAgent directive
  | .marketAnalyst context => .marketAnalyst context
  | .strategyGenerator logic => .strategyGenerator logic
  | .optionsStrategyAgent update => .optionsStrategyAgent update
  | .pythonCodeGenerator code => .pythonCodeGenerator ⟨code, s.nextVersionNo⟩
  | .compliance verdict => .compliance (verdict.verdict = .block)
  | .pythonValidator result => .pythonValidator result
  | .backtesting metrics => .backtesting metrics
  | .evaluator verdict => .evaluator verdict
  | .memoryIngest => .memoryIngest
  | .optimization result => .optimization result.toOptimizationResult
  | .riskManager assessment => .riskManager assessment
  | .deployment rationale =>
    .deployment
      ⟨if s.riskAssessment.any fun r ↦ r.decision = .reject then .reject else .paperTrading, rationale⟩

theorem node_output (s : TradingOSGraphState) (u : Update) : (s.output u).node = u.node := by
  cases u <;> rfl

/-- The driver's part of the state moves as the whole does. -/
theorem routes_advance (s : TradingOSGraphState) (u : Update) :
    (s.advance u).routes = s.routes.advance (s.output u) := by
  cases u with
  | compliance verdict =>
    simp only [advance, routes, output, GraphState.advance, routeAfterCompliance, evaluationFailed]
    cases verdict.verdict <;> rfl
  | pythonValidator result =>
    simp only [advance, routes, output, GraphState.advance, routeAfterValidation, evaluationFailed]
    cases result.passed with
    | true => rfl
    | false => rfl
  | _ => rfl

end TradingOSGraphState

end TradingOS.Agents
