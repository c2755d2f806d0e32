import TradingOS.Lib.Runs
import TradingOS.Lib.Table
import TradingOS.Lib.Lists
import TradingOS.Lib.Segments
import TradingOS.Orchestration.Tasks
import TradingOS.Orchestration.DependencyResolver
import TradingOS.Orchestration.TaskEngine
import TradingOS.Orchestration.TaskLifecycle
import TradingOS.Orchestration.TaskRace
import TradingOS.Orchestration.SchedulerLoop
import TradingOS.Orchestration.PlanFate
import TradingOS.Orchestration.LoopInvariant
import TradingOS.Orchestration.AttemptSoundness
import TradingOS.Orchestration.PlanTermination
import TradingOS.Orchestration.RunLifecycle
import TradingOS.PaperTrading.PositionAccounting
import TradingOS.PaperTrading.RoundedLedger
import TradingOS.PaperTrading.AccountEquity
import TradingOS.Lib.Hinge
import TradingOS.Risk.NakedOptionsScanner
import TradingOS.Risk.ComplianceChecker
import TradingOS.Agents.OptionsStrategyAgent
import TradingOS.Brokers.CircuitBreaker
import TradingOS.Brokers.OpenCircuit
import TradingOS.Live.ExecutionAgent
import TradingOS.Live.OrderStatus
import TradingOS.Live.OrderPlacement
import TradingOS.Live.KillSwitchBarrier
import TradingOS.Live.AcceptedOrders
import TradingOS.Live.TickListener
import TradingOS.Live.BreakerPerRequest
import TradingOS.Sandbox.Worker
import TradingOS.Sandbox.Pool
import TradingOS.PaperTrading.SlippageModel
import TradingOS.PaperTrading.PaperExecutionPipeline
import TradingOS.PaperTrading.IntradayRiskRules
import TradingOS.Api.ResearchRun
import TradingOS.Api.StrategyProgress
import TradingOS.Api.Lineage
import TradingOS.Api.PauseResume
import TradingOS.Sandbox.Isolation
import TradingOS.Orchestration.RunOutcome
import TradingOS.Governance.Approvals
import TradingOS.Governance.TradingGate
import TradingOS.Governance.ApprovedVersion
import TradingOS.Governance.DecisionRace
import TradingOS.Lib.Sha256
import TradingOS.Lib.Json
import TradingOS.Lib.JsonText
import TradingOS.Lib.HashChain
import TradingOS.Core.CanonicalPayload
import TradingOS.Core.Audit
import TradingOS.Core.AuditStorage
import TradingOS.Core.AuditWriters
import TradingOS.Core.AuditChainMonitor
import TradingOS.Core.AuditDeletion
import TradingOS.Orchestration.ArtefactStore
import TradingOS.Orchestration.DependencyOrder
import TradingOS.Orchestration.ArtefactIntegrity
import TradingOS.Orchestration.ReadyPass
import TradingOS.Orchestration.DispatchOnce
import TradingOS.PaperTrading.PaperBook
import TradingOS.PaperTrading.PositionRange
import TradingOS.Risk.KillSwitch
import TradingOS.Risk.PositionSizing
import TradingOS.PaperTrading.DailyCapital
import TradingOS.PaperTrading.PaperHalt
import TradingOS.Lib.Locks
import TradingOS.Orchestration.Events
import TradingOS.Orchestration.LockOrder
import TradingOS.Orchestration.RunQueue
import TradingOS.Agents.Graph
import TradingOS.Agents.GraphInvariants
import TradingOS.Agents.GraphBudgets
import TradingOS.Lib.KeyedRows
import TradingOS.Data.Bhavcopy
import TradingOS.Data.Calendar
import TradingOS.Data.MarketData
import TradingOS.Data.MarketDataManager
import TradingOS.Data.ParquetLake
import TradingOS.Data.Providers
import TradingOS.Data.ScheduledSync
import TradingOS.Lib.Closure
import TradingOS.Lib.Fallible
import TradingOS.Orchestration.Planner
import TradingOS.Orchestration.SafetyOrder
import TradingOS.Orchestration.ResearchScaffold
import TradingOS.Agents.ScheduledJobs
import TradingOS.Brokers.OrderPayloads
import TradingOS.Lib.Calls
import TradingOS.Governance.GoLiveGate
import TradingOS.Governance.RiskLimits
import TradingOS.Api.RefreshTokens
import TradingOS.Lib.Quota
import TradingOS.Core.ApiRateLimit
import TradingOS.Core.VaultTransit
import TradingOS.Core.AccessTokens
import TradingOS.Core.TokenValidity
import TradingOS.Api.Webhooks
import TradingOS.Api.Mfa
import TradingOS.Orchestration.CycleCheck
import TradingOS.Orchestration.ScaffoldExtension
import TradingOS.Orchestration.ScaffoldValidity
import TradingOS.Orchestration.PlanPersistence
import TradingOS.Orchestration.LoopTermination
import TradingOS.Orchestration.Conflicts
import TradingOS.Brokers.BreakerAccounting
import TradingOS.Risk.KillSwitchService
import TradingOS.Risk.DrawdownLatch
import TradingOS.Lib.SortedSums
import TradingOS.PaperTrading.BookFill
import TradingOS.PaperTrading.FnoCycle
import TradingOS.PaperTrading.PipelineSync
import TradingOS.PaperTrading.EquitySnapshot
import TradingOS.Lib.TreeWalk
import TradingOS.Agents.StaticSafetyCheck
import TradingOS.Sandbox.PoolConservation
import TradingOS.Data.DateOffset
import TradingOS.Lib.Intervals
import TradingOS.Optimization.WalkForward
import TradingOS.Backtest.CorporateActionsAdjust
import TradingOS.Lib.Accumulate
import TradingOS.Optimization.MonteCarlo
import TradingOS.Data.InstrumentSync
import TradingOS.Data.ProviderFailover
import TradingOS.Risk.SizingBudget
import TradingOS.Orchestration.DatasetFreshness
import TradingOS.Lib.Document
import TradingOS.Data.ProviderAnswers
import TradingOS.Data.IncrementalIngestion
import TradingOS.Data.IngestionTotality
import TradingOS.Data.IngestionRerun
import TradingOS.Lib.Words
import TradingOS.Data.FoContracts
import TradingOS.Agents.OptionsGrounding
import TradingOS.Api.BackupCodes
import TradingOS.Api.SuggestionReview
import TradingOS.Lib.Base64
import TradingOS.Lib.PyText
import TradingOS.Lib.JsonLoads
import TradingOS.Lib.JsonRoundTrip
import TradingOS.Lib.PyInt
import TradingOS.Lib.LoadedValue
import TradingOS.Data.CandleValidation
import TradingOS.Brokers.OrderBook
import TradingOS.Live.OrderTracking
import TradingOS.Lib.Pages
import TradingOS.Data.InstrumentSearch
import TradingOS.Governance.LimitInForce
import TradingOS.Agents.PromptRegistry
import TradingOS.Governance.ShadowStreak
import TradingOS.Governance.GateEvidence
import TradingOS.Orchestration.AdhocReply
import TradingOS.Lib.DeferredCharge
import TradingOS.Agents.LlmRouter
import TradingOS.Agents.TokenBudget
import TradingOS.Agents.FallbackChain
import TradingOS.PaperTrading.AccountSummary
import TradingOS.Lib.Percentile
import TradingOS.Optimization.MonteCarloWorkflow
import TradingOS.Lib.SortedRows
import TradingOS.Agents.Analytics
import TradingOS.Agents.Control
import TradingOS.Lib.Causal
import TradingOS.Data.Indicators
import TradingOS.Backtest.Friction
import TradingOS.Live.ExecutionPipeline
import TradingOS.Lib.Acyclic
import TradingOS.Orchestration.GeneratePlan
import TradingOS.Orchestration.PlanLedger
import TradingOS.Orchestration.PlanHistory
import TradingOS.Orchestration.PlanHandOver
import TradingOS.Agents.JobRuns
import TradingOS.Agents.JobRunHistory
import TradingOS.Core.AuditArchive
