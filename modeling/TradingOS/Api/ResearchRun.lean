import TradingOS.Agents.OptionsStrategyAgent

namespace TradingOS.Api

open Agents

structure PythonCode where
  code : String
  versionNo : ℕ
  deriving DecidableEq

structure ValidationResult where
  passed : Bool
  feedback : Option String
  deriving DecidableEq

structure BacktestMetrics where
  sharpeRatio : ℚ
  sortinoRatio : Option ℚ
  calmarRatio : Option ℚ
  maxDrawdown : ℚ
  cagr : Option ℚ
  winRate : Option ℚ
  profitFactor : Option ℚ
  expectancy : Option ℚ
  totalTrades : Option ℤ
  dataAdjusted : Option Bool
  providerUsed : Option String
  deriving DecidableEq

structure EvaluationVerdict where
  passed : Bool
  failureReasons : List String
  deriving DecidableEq

structure OptimizationResult where
  bestParams : List (String × ℚ)
  robustnessScore : Option ℚ
  walkForwardResults : List String
  deriving DecidableEq

inductive RiskDecision
  | approve | approveWithRestrictions | reject
  deriving DecidableEq

structure RiskAssessment where
  decision : RiskDecision
  narrative : String
  deriving DecidableEq

inductive RecommendedStatus
  | paperTrading | reject
  deriving DecidableEq

structure DeploymentRecommendation where
  recommendedStatus : RecommendedStatus
  rationale : String
  deriving DecidableEq

inductive Node
  | ceoAgent | marketAnalyst | strategyGenerator | optionsStrategyAgent | pythonCodeGenerator
  | compliance | pythonValidator | backtesting | evaluator | memoryIngest | optimization
  | riskManager | deployment
  deriving DecidableEq

inductive NodeOutput
  | ceoAgent (researchDirective : String)
  | marketAnalyst (marketContext : String)
  | strategyGenerator (strategyLogic : StrategyLogic)
  | optionsStrategyAgent (update : OptionsUpdate)
  | pythonCodeGenerator (pythonCode : PythonCode)
  | compliance (blocked : Bool)
  | pythonValidator (validationResult : ValidationResult)
  | backtesting (backtestMetrics : BacktestMetrics)
  | evaluator (evaluationVerdict : EvaluationVerdict)
  | memoryIngest
  | optimization (optimizationResult : OptimizationResult)
  | riskManager (riskAssessment : RiskAssessment)
  | deployment (deploymentRecommendation : DeploymentRecommendation)
  deriving DecidableEq

def NodeOutput.node : NodeOutput → Node
  | .ceoAgent _ => .ceoAgent
  | .marketAnalyst _ => .marketAnalyst
  | .strategyGenerator _ => .strategyGenerator
  | .optionsStrategyAgent _ => .optionsStrategyAgent
  | .pythonCodeGenerator _ => .pythonCodeGenerator
  | .compliance _ => .compliance
  | .pythonValidator _ => .pythonValidator
  | .backtesting _ => .backtesting
  | .evaluator _ => .evaluator
  | .memoryIngest => .memoryIngest
  | .optimization _ => .optimization
  | .riskManager _ => .riskManager
  | .deployment _ => .deployment

/-- The part of the graph's state that its routes and the options node read. -/
structure GraphState where
  strategyLogic : Option StrategyLogic
  evaluationFailed : Bool
  codeValidationRetryCount : ℕ
  strategyRejectionCount : ℕ
  next : Option Node
  deriving DecidableEq

namespace GraphState

def maxCodeValidationRetries : ℕ := 3

def maxRejectionsBeforeEscalation : ℕ := 5

def init : GraphState := ⟨none, false, 0, 0, some .ceoAgent⟩

/-- The edges and the conditional routes of `build_graph`. -/
def advance (g : GraphState) : NodeOutput → GraphState
  | .ceoAgent _ => { g with strategyRejectionCount := 0, next := some .marketAnalyst }
  | .marketAnalyst _ => { g with next := some .strategyGenerator }
  | .strategyGenerator logic =>
    { g with
      strategyLogic := some logic
      strategyRejectionCount := g.strategyRejectionCount + if g.evaluationFailed then 1 else 0
      next := some .optionsStrategyAgent }
  | .optionsStrategyAgent update =>
    { g with
      strategyLogic := update.strategyLogic.or g.strategyLogic
      next := some .pythonCodeGenerator }
  | .pythonCodeGenerator _ => { g with next := some .compliance }
  | .compliance blocked => { g with next := if blocked then none else some .pythonValidator }
  | .pythonValidator result =>
    if result.passed then { g with next := some .backtesting }
    else
      let count := g.codeValidationRetryCount + 1
      { g with
        codeValidationRetryCount := count
        next := if maxCodeValidationRetries ≤ count then none else some .pythonCodeGenerator }
  | .backtesting _ => { g with next := some .evaluator }
  | .evaluator verdict =>
    { g with
      evaluationFailed := !verdict.passed
      next := some (if verdict.passed then .optimization else .memoryIngest) }
  | .memoryIngest =>
    { g with
      next := some (if maxRejectionsBeforeEscalation ≤ g.strategyRejectionCount then .ceoAgent
        else .strategyGenerator) }
  | .optimization _ => { g with next := some .riskManager }
  | .riskManager _ => { g with next := some .deployment }
  | .deployment _ => { g with next := none }

theorem node_of_next_advance (g : GraphState) {output : NodeOutput}
    (h : (g.advance output).next = some .compliance ∨
      (g.advance output).next = some .pythonValidator ∨
      (g.advance output).next = some .backtesting) :
    output.node = .pythonCodeGenerator ∨ output.node = .compliance ∨
      output.node = .pythonValidator := by
  cases output with
  | pythonCodeGenerator _ => exact .inl rfl
  | compliance _ => exact .inr (.inl rfl)
  | pythonValidator _ => exact .inr (.inr rfl)
  | evaluator _ | memoryIngest =>
    unfold advance at h
    dsimp only at h
    split at h <;> rcases h with h | h | h <;> cases h
  | _ => rcases h with h | h | h <;> cases h

end GraphState

inductive StrategyStatus
  | ideation | coding | backtesting | optimizing | riskReview | pendingPaperApproval | deprecated
  deriving DecidableEq

abbrev AccountId := ℕ

abbrev RowId := ℕ

structure Strategy where
  accountId : AccountId
  assetClass : AssetClass
  symbols : List String
  researchContext : Option String
  marketContext : Option String
  currentVersionId : Option RowId
  status : StrategyStatus
  deriving DecidableEq

structure OptionFields where
  legs : Option (List StrategyOptionLeg)
  expiry : Option Date
  rationale : Option String
  deriving DecidableEq

namespace OptionFields

def empty : OptionFields := ⟨none, none, none⟩

/-- An empty list of legs is stored as no legs. -/
def stored (f : OptionFields) : OptionFields :=
  { f with legs := if f.legs = some [] then none else f.legs }

end OptionFields

inductive ValidationStatus
  | pending | passed | failed
  deriving DecidableEq

structure Validation where
  status : ValidationStatus
  feedback : Option String
  deriving DecidableEq

structure StrategyVersion where
  strategyId : RowId
  agentRunId : RowId
  versionNo : ℕ
  pythonCode : String
  validation : Validation
  options : OptionFields
  deriving DecidableEq

structure Verdicts where
  evaluationVerdict : Option Bool
  evaluationFailureReasons : List String
  optimizationBestParams : List (String × ℚ)
  optimizationRobustnessScore : Option ℚ
  walkForwardResults : List String
  riskAssessmentPassed : Option Bool
  riskAssessmentNotes : Option String
  deploymentRecommendation : Option RecommendedStatus
  deploymentRationale : Option String
  deriving DecidableEq

def Verdicts.empty : Verdicts := ⟨none, [], [], none, [], none, none, none, none⟩

structure BacktestResult where
  strategyVersionId : RowId
  agentRunId : RowId
  symbol : String
  dateTo : Date
  metrics : BacktestMetrics
  verdicts : Verdicts
  deriving DecidableEq

structure ApprovalRequest where
  strategyId : RowId
  strategyVersionId : Option RowId
  rationale : String
  deriving DecidableEq

/-- What the persistence finds: the Paper account, the lake's last date for a symbol, and the
status the factory pipeline writes. -/
structure World where
  paperAccount : Option AccountId
  latestDate : Option Date
  factory : Validation
  deriving DecidableEq

structure AgentRun where
  output : NodeOutput
  world : World
  deriving DecidableEq

/-- The tables a run writes; a row's id is its place. -/
structure Database where
  agentRuns : List AgentRun
  strategies : List Strategy
  versions : List StrategyVersion
  results : List BacktestResult
  approvals : List ApprovalRequest
  deriving DecidableEq

structure StrategyTracking where
  strategyId : Option RowId
  accountId : Option AccountId
  accountLookupDone : Bool
  backtestResultId : Option RowId
  pendingOptions : OptionFields
  pendingResearchContext : Option String
  pendingMarketContext : Option String
  deriving DecidableEq

def StrategyTracking.init : StrategyTracking := ⟨none, none, false, none, .empty, none, none⟩

/-- The key `strategy_logic` tells whether the node has put out any options. -/
def optionFields? (update : OptionsUpdate) : Option OptionFields :=
  update.strategyLogic.map fun logic ↦
    ⟨logic.optionLegs, update.optionExpiry, update.optionRationale⟩

def Validation.record (v : Validation) (run : AgentRun) : Validation :=
  match run.output with
  | .pythonValidator result => if result.passed then run.world.factory else ⟨.failed, result.feedback⟩
  | _ => v

def Verdicts.record (v : Verdicts) (run : AgentRun) : Verdicts :=
  match run.output with
  | .evaluator verdict =>
    { v with
      evaluationVerdict := some verdict.passed
      evaluationFailureReasons := verdict.failureReasons }
  | .optimization result =>
    { v with
      optimizationBestParams := result.bestParams
      optimizationRobustnessScore := result.robustnessScore
      walkForwardResults := result.walkForwardResults }
  | .riskManager assessment =>
    { v with
      riskAssessmentPassed := some (assessment.decision ≠ .reject)
      riskAssessmentNotes := some assessment.narrative }
  | .deployment recommendation =>
    { v with
      deploymentRecommendation := some recommendation.recommendedStatus
      deploymentRationale := some recommendation.rationale }
  | _ => v

def AgentRun.isCode (run : AgentRun) : Bool :=
  match run.output with
  | .pythonCodeGenerator _ => true
  | _ => false

def AgentRun.isBacktest (run : AgentRun) : Bool :=
  match run.output with
  | .backtesting _ => true
  | _ => false

theorem node_ne_of_isBacktest {output : NodeOutput} {world : World}
    (h : AgentRun.isBacktest ⟨output, world⟩ = false) : output.node ≠ .backtesting := by
  intro hnode
  cases output with
  | backtesting _ => cases h
  | _ => cases hnode

end TradingOS.Api
