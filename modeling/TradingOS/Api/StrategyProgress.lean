import TradingOS.Api.ResearchRun
import TradingOS.Lib.Segments

namespace TradingOS.Api

open Agents Lib.Segments

namespace Database

variable (db : Database) (strategyId agentRunId : RowId)

def setStatus (status : StrategyStatus) : Database :=
  { db with strategies := db.strategies.modify strategyId fun s ↦ { s with status := status } }

def versionRow (code : PythonCode) (pendingOptions : OptionFields) : StrategyVersion :=
  { strategyId := strategyId
    agentRunId := agentRunId
    versionNo := code.versionNo
    pythonCode := code.code
    validation := ⟨.pending, none⟩
    options := pendingOptions.stored }

def persistVersion (code : PythonCode) (pendingOptions : OptionFields) : Database :=
  { db with
    versions := db.versions ++ [versionRow strategyId agentRunId code pendingOptions]
    strategies := db.strategies.modify strategyId fun s ↦
      { s with currentVersionId := some db.versions.length, status := .coding } }

def currentVersionId? : Option RowId :=
  ((db.strategies[strategyId]?).bind (·.currentVersionId)).filter (· < db.versions.length)

def persistValidation (result : ValidationResult) (run : AgentRun) : Database :=
  match db.currentVersionId? strategyId with
  | none => db
  | some versionId =>
    let db : Database :=
      { db with
        versions := db.versions.modify versionId fun v ↦
          { v with validation := v.validation.record run } }
    if result.passed then db.setStatus strategyId .backtesting else db

def backtestRow (metrics : BacktestMetrics) (world : World) : Option BacktestResult :=
  match db.strategies[strategyId]? with
  | none => none
  | some strategy =>
    match strategy.currentVersionId, strategy.symbols.head?, world.latestDate with
    | some versionId, some symbol, some dateTo =>
      some ⟨versionId, agentRunId, symbol, dateTo, metrics, .empty⟩
    | _, _, _ => none

/-- `_open_paper_approval_request`: at most one pending request for a strategy. -/
def openPaperApprovalRequest (resultId : RowId) (rationale : String) : Database :=
  if db.approvals.any (·.strategyId = strategyId) then db
  else
    let versionId := (db.results[resultId]?).map (·.strategyVersionId)
    { db with approvals := db.approvals ++ [⟨strategyId, versionId, rationale⟩] }

def persistVerdict (resultId : RowId) (run : AgentRun) : Database :=
  let db : Database :=
    { db with
      results := db.results.modify resultId fun r ↦ { r with verdicts := r.verdicts.record run } }
  match run.output with
  | .evaluator verdict => if verdict.passed then db.setStatus strategyId .optimizing else db
  | .optimization _ => db.setStatus strategyId .riskReview
  | .deployment recommendation =>
    match recommendation.recommendedStatus with
    | .paperTrading =>
      (db.setStatus strategyId .pendingPaperApproval).openPaperApprovalRequest strategyId resultId
        recommendation.rationale
    | .reject => db.setStatus strategyId .deprecated
  | _ => db

variable {db strategyId}

theorem versions_persistValidation (result : ValidationResult) (run : AgentRun) :
    (db.persistValidation strategyId result run).versions =
      modifyCurrent (db.currentVersionId? strategyId)
        (fun v ↦ { v with validation := v.validation.record run }) db.versions := by
  simp only [persistValidation]
  cases db.currentVersionId? strategyId with
  | none => rfl
  | some versionId =>
    dsimp only
    split <;> rfl

theorem results_persistValidation (result : ValidationResult) (run : AgentRun) :
    (db.persistValidation strategyId result run).results = db.results := by
  simp only [persistValidation]
  cases db.currentVersionId? strategyId with
  | none => rfl
  | some versionId =>
    dsimp only
    split <;> rfl

theorem currentVersionId?_setStatus (id : RowId) (status : StrategyStatus) :
    (db.setStatus strategyId status).currentVersionId? id = db.currentVersionId? id := by
  simp only [currentVersionId?, setStatus]
  rw [List.getElem?_modify]
  cases db.strategies[id]? with
  | none => rfl
  | some strategy =>
    dsimp only [Option.map_eq_map, Option.map_some, Option.bind_some]
    split <;> rfl

theorem currentVersionId?_persistVersion {agentRunId : RowId} {code : PythonCode}
    {pendingOptions : OptionFields} (h : strategyId < db.strategies.length) :
    (db.persistVersion strategyId agentRunId code pendingOptions).currentVersionId? strategyId =
      some db.versions.length := by
  simp only [currentVersionId?, persistVersion]
  rw [List.getElem?_modify_eq, List.getElem?_eq_getElem h]
  simp

theorem currentVersionId?_persistValidation (result : ValidationResult) (run : AgentRun)
    (id : RowId) :
    (db.persistValidation strategyId result run).currentVersionId? id =
      db.currentVersionId? id := by
  have hmodify (versionId : RowId) (update : StrategyVersion → StrategyVersion) :
      currentVersionId? { db with versions := db.versions.modify versionId update } id =
        db.currentVersionId? id := by
    simp only [currentVersionId?]
    rw [List.length_modify]
  unfold persistValidation
  split
  · rfl
  · dsimp only
    split
    · exact (currentVersionId?_setStatus id _).trans (hmodify _ _)
    · exact hmodify _ _

theorem backtestRow_cases (agentRunId : RowId) (metrics : BacktestMetrics) (world : World)
    {versionId : RowId} (h : db.currentVersionId? strategyId = some versionId) :
    (∃ symbol dateTo, db.backtestRow strategyId agentRunId metrics world =
        some ⟨versionId, agentRunId, symbol, dateTo, metrics, .empty⟩) ∨
      db.backtestRow strategyId agentRunId metrics world = none ∧
        ∃ strategy ∈ db.strategies[strategyId]?,
          strategy.symbols = [] ∨ world.latestDate = none := by
  obtain ⟨hversion, -⟩ := Option.filter_eq_some_iff.mp h
  obtain ⟨strategy, hstrategy, hversion⟩ := Option.bind_eq_some_iff.mp hversion
  simp only [backtestRow]
  rw [hstrategy]
  dsimp only
  rw [hversion]
  cases hsymbol : strategy.symbols.head? with
  | none => exact .inr ⟨rfl, strategy, rfl, .inl (List.head?_eq_none_iff.mp hsymbol)⟩
  | some symbol =>
    cases hdate : world.latestDate with
    | none => exact .inr ⟨rfl, strategy, rfl, .inr rfl⟩
    | some dateTo => exact .inl ⟨symbol, dateTo, rfl⟩

theorem openPaperApprovalRequest_tables (strategyId resultId : RowId) (rationale : String) :
    (db.openPaperApprovalRequest strategyId resultId rationale).versions = db.versions ∧
      (db.openPaperApprovalRequest strategyId resultId rationale).results = db.results ∧
      (db.openPaperApprovalRequest strategyId resultId rationale).strategies = db.strategies := by
  simp only [openPaperApprovalRequest]
  split <;> exact ⟨rfl, rfl, rfl⟩

theorem tables_persistVerdict (resultId : RowId) (run : AgentRun) :
    (db.persistVerdict strategyId resultId run).versions = db.versions ∧
      (db.persistVerdict strategyId resultId run).results =
        (db.results.modify resultId fun r ↦ { r with verdicts := r.verdicts.record run }) ∧
      (db.persistVerdict strategyId resultId run).strategies.length = db.strategies.length := by
  have hlength (status : StrategyStatus) :
      (db.setStatus strategyId status).strategies.length = db.strategies.length :=
    List.length_modify _ _ _
  simp only [persistVerdict]
  split
  · split
    · exact ⟨rfl, rfl, hlength _⟩
    · exact ⟨rfl, rfl, rfl⟩
  · exact ⟨rfl, rfl, hlength _⟩
  · split
    · obtain ⟨hversions, hresults, hstrategies⟩ :=
        openPaperApprovalRequest_tables strategyId resultId _
      exact ⟨hversions, hresults, (congrArg List.length hstrategies).trans (hlength _)⟩
    · exact ⟨rfl, rfl, hlength _⟩
  · exact ⟨rfl, rfl, rfl⟩

theorem length_strategies_persistValidation (result : ValidationResult) (run : AgentRun) :
    (db.persistValidation strategyId result run).strategies.length = db.strategies.length := by
  unfold persistValidation
  split
  · rfl
  · dsimp only
    split
    · exact List.length_modify _ _ _
    · rfl

end Database

section Persist

variable (db : Database) (tracking : StrategyTracking) (agentRunId : RowId) (world : World)

def persistStrategy (logic : StrategyLogic) : Database × StrategyTracking :=
  let accountId := if tracking.accountLookupDone then tracking.accountId else world.paperAccount
  let tracking := { tracking with accountId := accountId, accountLookupDone := true }
  match accountId with
  | none => (db, tracking)
  | some accountId =>
    let strategy : Strategy :=
      { accountId := accountId
        assetClass := logic.assetClass
        symbols := logic.symbols
        researchContext := tracking.pendingResearchContext
        marketContext := tracking.pendingMarketContext
        currentVersionId := none
        status := .ideation }
    ({ db with strategies := db.strategies ++ [strategy] },
      { tracking with strategyId := some db.strategies.length })

/-- `_persist_strategy_progress` once there is a strategy row. -/
def persistOnStrategy (strategyId : RowId) : NodeOutput → Database × StrategyTracking
  | .optionsStrategyAgent update =>
    match optionFields? update with
    | none => (db, tracking)
    | some fields => (db, { tracking with pendingOptions := fields })
  | .pythonCodeGenerator code =>
    (db.persistVersion strategyId agentRunId code tracking.pendingOptions, tracking)
  | .pythonValidator result =>
    (db.persistValidation strategyId result ⟨.pythonValidator result, world⟩, tracking)
  | .backtesting metrics =>
    match db.backtestRow strategyId agentRunId metrics world with
    | none => (db, tracking)
    | some row =>
      ({ db with results := db.results ++ [row] },
        { tracking with backtestResultId := some db.results.length })
  | output =>
    match tracking.backtestResultId with
    | none => (db, tracking)
    | some resultId => (db.persistVerdict strategyId resultId ⟨output, world⟩, tracking)

def persistStrategyProgress : NodeOutput → Database × StrategyTracking
  | .ceoAgent directive => (db, { tracking with pendingResearchContext := some directive })
  | .marketAnalyst context => (db, { tracking with pendingMarketContext := some context })
  | .strategyGenerator logic => persistStrategy db tracking world logic
  | output =>
    match tracking.strategyId with
    | none => (db, tracking)
    | some strategyId => persistOnStrategy db tracking agentRunId world strategyId output

variable {db tracking agentRunId world} {output : NodeOutput} {strategyId : RowId}

theorem results_persistOnStrategy (h : AgentRun.isBacktest ⟨output, world⟩ = false) :
    (persistOnStrategy db tracking agentRunId world strategyId output).1.results =
      modifyCurrent tracking.backtestResultId
        (fun r ↦ { r with verdicts := r.verdicts.record ⟨output, world⟩ }) db.results := by
  have hself (hrecord : ∀ v : Verdicts, v.record ⟨output, world⟩ = v) :
      modifyCurrent tracking.backtestResultId
        (fun r : BacktestResult ↦ { r with verdicts := r.verdicts.record ⟨output, world⟩ })
        db.results = db.results :=
    modifyCurrent_eq_self (fun r ↦ by rw [hrecord]) _ _
  simp only [persistOnStrategy]
  cases output with
  | backtesting metrics => cases h
  | optionsStrategyAgent update =>
    rw [hself fun _ ↦ rfl]
    dsimp only
    split <;> rfl
  | pythonCodeGenerator code => exact (hself fun _ ↦ rfl).symm
  | pythonValidator result =>
    exact (Database.results_persistValidation result _).trans (hself fun _ ↦ rfl).symm
  | _ =>
    dsimp only
    cases tracking.backtestResultId with
    | none => rfl
    | some resultId => exact (Database.tables_persistVerdict resultId _).2.1

theorem results_persist (hnil : tracking.strategyId = none → db.results = [])
    (h : AgentRun.isBacktest ⟨output, world⟩ = false) :
    (persistStrategyProgress db tracking agentRunId world output).1.results =
      modifyCurrent tracking.backtestResultId
        (fun r ↦ { r with verdicts := r.verdicts.record ⟨output, world⟩ }) db.results := by
  simp only [persistStrategyProgress]
  cases output with
  | ceoAgent _ | marketAnalyst _ => exact (modifyCurrent_eq_self (fun _ ↦ rfl) _ _).symm
  | strategyGenerator logic =>
    simp only [persistStrategy]
    split <;> exact (modifyCurrent_eq_self (fun _ ↦ rfl) _ _).symm
  | _ =>
    cases hid : tracking.strategyId with
    | none => rw [hnil hid, modifyCurrent_nil]
    | some strategyId => exact results_persistOnStrategy h

theorem versions_persist (hcode : AgentRun.isCode ⟨output, world⟩ = false)
    (hvalidator : output.node ≠ .pythonValidator) :
    (persistStrategyProgress db tracking agentRunId world output).1.versions = db.versions := by
  simp only [persistStrategyProgress]
  cases output with
  | ceoAgent _ | marketAnalyst _ => rfl
  | strategyGenerator logic =>
    simp only [persistStrategy]
    split <;> rfl
  | pythonCodeGenerator code => cases hcode
  | pythonValidator result => exact absurd rfl hvalidator
  | optionsStrategyAgent update =>
    dsimp only
    split
    · rfl
    · simp only [persistOnStrategy]
      split <;> rfl
  | backtesting metrics =>
    dsimp only
    split
    · rfl
    · simp only [persistOnStrategy]
      split <;> rfl
  | _ =>
    dsimp only
    split
    · rfl
    · simp only [persistOnStrategy]
      split
      · rfl
      · exact (Database.tables_persistVerdict _ _).1

theorem persistStrategy_cases (db : Database) (tracking : StrategyTracking) (world : World)
    (logic : StrategyLogic) :
    (persistStrategy db tracking world logic).1 = db ∧
        (persistStrategy db tracking world logic).2.strategyId = tracking.strategyId ∨
      ∃ strategy, (persistStrategy db tracking world logic).1.strategies =
          db.strategies ++ [strategy] ∧
        (persistStrategy db tracking world logic).2.strategyId = some db.strategies.length := by
  simp only [persistStrategy]
  split
  · exact .inl ⟨rfl, rfl⟩
  · exact .inr ⟨_, rfl, rfl⟩

theorem length_strategies_persist : db.strategies.length ≤
    (persistStrategyProgress db tracking agentRunId world output).1.strategies.length := by
  simp only [persistStrategyProgress]
  cases output with
  | ceoAgent _ | marketAnalyst _ => exact le_rfl
  | strategyGenerator logic =>
    simp only [persistStrategy]
    split
    · exact le_rfl
    · rw [List.length_append]
      exact Nat.le_add_right _ _
  | pythonCodeGenerator code =>
    dsimp only
    split
    · exact le_rfl
    · exact (List.length_modify _ _ _).ge
  | pythonValidator result =>
    dsimp only
    split
    · exact le_rfl
    · exact (Database.length_strategies_persistValidation _ _).ge
  | optionsStrategyAgent _ | backtesting _ =>
    simp only [persistOnStrategy]
    split
    · exact le_rfl
    · split <;> exact le_rfl
  | _ =>
    simp only [persistOnStrategy]
    split
    · exact le_rfl
    · split
      · exact le_rfl
      · exact (Database.tables_persistVerdict _ _).2.2.ge

theorem tracking_persist :
    (output.node ≠ .strategyGenerator →
      (persistStrategyProgress db tracking agentRunId world output).2.strategyId =
        tracking.strategyId) ∧
    (output.node ≠ .backtesting →
      (persistStrategyProgress db tracking agentRunId world output).2.backtestResultId =
        tracking.backtestResultId) ∧
    (output.node ≠ .optionsStrategyAgent →
      (persistStrategyProgress db tracking agentRunId world output).2.pendingOptions =
        tracking.pendingOptions) := by
  simp only [persistStrategyProgress]
  cases output with
  | ceoAgent _ | marketAnalyst _ => exact ⟨fun _ ↦ rfl, fun _ ↦ rfl, fun _ ↦ rfl⟩
  | strategyGenerator logic =>
    simp only [persistStrategy]
    split <;> exact ⟨fun h ↦ absurd rfl h, fun _ ↦ rfl, fun _ ↦ rfl⟩
  | optionsStrategyAgent update =>
    simp only [persistOnStrategy]
    split
    · exact ⟨fun _ ↦ rfl, fun _ ↦ rfl, fun _ ↦ rfl⟩
    · split <;> exact ⟨fun _ ↦ rfl, fun _ ↦ rfl, fun h ↦ absurd rfl h⟩
  | backtesting metrics =>
    simp only [persistOnStrategy]
    split
    · exact ⟨fun _ ↦ rfl, fun _ ↦ rfl, fun _ ↦ rfl⟩
    · split <;> exact ⟨fun _ ↦ rfl, fun h ↦ absurd rfl h, fun _ ↦ rfl⟩
  | pythonCodeGenerator _ | pythonValidator _ =>
    dsimp only
    split <;> exact ⟨fun _ ↦ rfl, fun _ ↦ rfl, fun _ ↦ rfl⟩
  | _ =>
    simp only [persistOnStrategy]
    split
    · exact ⟨fun _ ↦ rfl, fun _ ↦ rfl, fun _ ↦ rfl⟩
    · split <;> exact ⟨fun _ ↦ rfl, fun _ ↦ rfl, fun _ ↦ rfl⟩

end Persist

/-- A node at work: the options node on what it finds, any other one by what it returns. -/
inductive NodeCall
  | optionsStrategyAgent (chain : Option OptionChain) (replies : List LlmReply)
  | returns (output : NodeOutput)
  deriving DecidableEq

/-- `none`: the node raises, and the run ends. -/
def NodeCall.output (g : GraphState) : NodeCall → Option NodeOutput
  | .optionsStrategyAgent chain replies =>
    g.strategyLogic.bind fun strategy ↦
      (optionsStrategyNode strategy chain replies).map .optionsStrategyAgent
  | .returns (.optionsStrategyAgent _) => none
  | .returns output => some output

structure RunEvent where
  call : NodeCall
  world : World
  deriving DecidableEq

structure ResearchRun where
  graph : GraphState
  db : Database
  tracking : StrategyTracking
  deriving DecidableEq

namespace ResearchRun

def init : ResearchRun := ⟨.init, ⟨[], [], [], [], []⟩, .init⟩

variable (s : ResearchRun)

/-- One round of the loop of `_execute_graph_run`. -/
def after (output : NodeOutput) (world : World) : ResearchRun :=
  let runs := s.db.agentRuns
  let progress := persistStrategyProgress s.db s.tracking runs.length world output
  { graph := s.graph.advance output
    db := { progress.1 with agentRuns := runs ++ [⟨output, world⟩] }
    tracking := progress.2 }

def step (event : RunEvent) : Option ResearchRun :=
  match event.call.output s.graph with
  | none => none
  | some output =>
    if s.graph.next = some output.node then some (s.after output event.world) else none

theorem step_eq_some {s s' : ResearchRun} {event : RunEvent} (h : s.step event = some s') :
    ∃ output, event.call.output s.graph = some output ∧ s.graph.next = some output.node ∧
      s' = s.after output event.world := by
  simp only [step] at h
  split at h
  · cases h
  · next output houtput =>
    split at h
    · next hnext => exact ⟨output, houtput, hnext, (Option.some.inj h).symm⟩
    · cases h

end ResearchRun

end TradingOS.Api
