import TradingOS.Api.StrategyProgress
import TradingOS.Lib.Runs
import TradingOS.Lib.Segments

namespace TradingOS.Api

open Agents Lib.Runs Lib.Segments

/-- The options the current attempt has put out: a new strategy begins with none. -/
def attemptOptions (runs : List AgentRun) : OptionFields :=
  runs.foldl (fun fields run ↦
    match run.output with
    | .strategyGenerator _ => .empty
    | .optionsStrategyAgent update => (optionFields? update).getD .empty
    | _ => fields) .empty

/-- A version is of the code a run of the generator put out, with the options of that run's
attempt. -/
def StrategyVersion.FromRun (v : StrategyVersion) (runs : List AgentRun) : Prop :=
  (∃ run, runs[v.agentRunId]? = some run ∧
    run.output = .pythonCodeGenerator ⟨v.pythonCode, v.versionNo⟩) ∧
  v.options = (attemptOptions (runs.take v.agentRunId)).stored

/-- A backtest has the metrics of a backtesting run, and the version whose code came last before
it. -/
def BacktestResult.FromRun (r : BacktestResult) (runs : List AgentRun)
    (versions : List StrategyVersion) : Prop :=
  (∃ run, runs[r.agentRunId]? = some run ∧ run.output = .backtesting r.metrics) ∧
  ∃ v, versions[r.strategyVersionId]? = some v ∧ v.agentRunId < r.agentRunId ∧
    ((runs.take r.agentRunId).drop (v.agentRunId + 1)).any AgentRun.isCode = false

structure StrategyVersion.Own (v : StrategyVersion) (db : Database) : Prop where
  fromRun : v.FromRun db.agentRuns
  validation : v.validation = recorded AgentRun.isCode Validation.record ⟨.pending, none⟩
    (db.agentRuns.drop (v.agentRunId + 1))

/-- The verdicts of a backtest are those of the nodes that ran on it, up to the next one. -/
structure BacktestResult.Own (r : BacktestResult) (db : Database) : Prop where
  fromRun : r.FromRun db.agentRuns db.versions
  verdicts : r.verdicts = recorded AgentRun.isBacktest Verdicts.record .empty
    (db.agentRuns.drop (r.agentRunId + 1))

/-- No row mixes fields of two attempts. -/
structure Database.Unmixed (db : Database) : Prop where
  versions : ∀ v ∈ db.versions, v.Own db
  results : ∀ r ∈ db.results, r.Own db

def ResearchRun.BacktestStored (s : ResearchRun) (world : World) : Prop :=
  ∀ strategyId ∈ s.tracking.strategyId, ∀ strategy ∈ s.db.strategies[strategyId]?,
    strategy.symbols = [] ∨ world.latestDate = none → s.tracking.backtestResultId = none

/-- No stale field is left for the nodes to come. A strategy without options comes only while
no options are pending. -/
def LeavesNothingStale (s : ResearchRun) (event : RunEvent) (_ : ResearchRun) : Prop :=
  match event.call with
  | .optionsStrategyAgent _ _ =>
    ∀ logic ∈ s.graph.strategyLogic, logic.assetClass ≠ .fno → s.tracking.pendingOptions = .empty
  | .returns (.backtesting _) => s.BacktestStored event.world
  | .returns _ => True

def VersionsSegmented (db : Database) : Prop :=
  Segmented AgentRun.isCode Validation.record ⟨.pending, none⟩ StrategyVersion.agentRunId
    StrategyVersion.validation db.agentRuns db.versions (some (db.versions.length - 1))

def ResultsSegmented (db : Database) (current : Option RowId) : Prop :=
  Segmented AgentRun.isBacktest Verdicts.record .empty BacktestResult.agentRunId
    BacktestResult.verdicts db.agentRuns db.results current

/-- The tracker's pointers are those of the current attempt, and every row is its own. -/
structure ResearchRun.Sound (s : ResearchRun) : Prop where
  strategy_lt : ∀ strategyId ∈ s.tracking.strategyId, strategyId < s.db.strategies.length
  versions_nil : s.tracking.strategyId = none → s.db.versions = []
  results_nil : s.tracking.strategyId = none ∨ s.tracking.backtestResultId = none →
    s.db.results = []
  pending : s.tracking.strategyId ≠ none → s.graph.next ≠ some .optionsStrategyAgent →
    s.tracking.pendingOptions = attemptOptions s.db.agentRuns
  current : ∀ strategyId ∈ s.tracking.strategyId, s.graph.next = some .compliance ∨
      s.graph.next = some .pythonValidator ∨ s.graph.next = some .backtesting →
    s.db.currentVersionId? strategyId = some (s.db.versions.length - 1)
  versions : VersionsSegmented s.db
  results : ResultsSegmented s.db s.tracking.backtestResultId
  version : ∀ v ∈ s.db.versions, v.FromRun s.db.agentRuns
  result : ∀ r ∈ s.db.results, r.FromRun s.db.agentRuns s.db.versions

namespace ResearchRun

variable {s : ResearchRun} {output : NodeOutput} {world : World}

theorem Sound.unmixed (h : s.Sound) : s.db.Unmixed where
  versions v hv := by
    obtain ⟨i, hi⟩ := List.mem_iff_getElem?.mp hv
    exact ⟨h.version v hv, h.versions.value_eq i v hi⟩
  results r hr := by
    obtain ⟨i, hi⟩ := List.mem_iff_getElem?.mp hr
    exact ⟨h.result r hr, h.results.value_eq i r hi⟩

theorem sound_init : init.Sound where
  strategy_lt := fun _ h ↦ by cases h
  versions_nil := fun _ ↦ rfl
  results_nil := fun _ ↦ rfl
  pending := fun h _ ↦ absurd rfl h
  current := fun _ h ↦ by cases h
  versions := Segmented.nil [] (some 0)
  results := Segmented.nil [] none
  version := fun _ h ↦ by cases h
  result := fun _ h ↦ by cases h

namespace Sound

theorem versions_after (h : s.Sound) (hnext : s.graph.next = some output.node)
    (hcode : AgentRun.isCode ⟨output, world⟩ = false) :
    (s.after output world).db.versions = modifyCurrent (some (s.db.versions.length - 1))
      (fun v ↦ { v with validation := v.validation.record ⟨output, world⟩ }) s.db.versions := by
  by_cases hvalidator : output.node = .pythonValidator
  · cases output with
    | pythonValidator result =>
      cases hid : s.tracking.strategyId with
      | none =>
        rw [h.versions_nil hid, modifyCurrent_nil]
        simp only [after, persistStrategyProgress, hid, h.versions_nil hid]
      | some strategyId =>
        rw [← h.current strategyId hid (.inr (.inl hnext)), ← Database.versions_persistValidation result]
        simp only [after, persistStrategyProgress, hid, persistOnStrategy]
    | _ => cases hvalidator
  · refine (versions_persist hcode hvalidator).trans (modifyCurrent_eq_self (fun v ↦ ?_) _ _).symm
    cases output with
    | pythonValidator result => exact absurd rfl hvalidator
    | _ => rfl

theorem versions_after_code (h : s.Sound) (code : PythonCode) (world : World) :
    s.tracking.strategyId = none ∧ (s.after (.pythonCodeGenerator code) world).db.versions = [] ∨
      ∃ strategyId, s.tracking.strategyId = some strategyId ∧
        (s.after (.pythonCodeGenerator code) world).db.versions = s.db.versions ++
          [Database.versionRow strategyId s.db.agentRuns.length code s.tracking.pendingOptions] := by
  cases hid : s.tracking.strategyId with
  | none =>
    refine .inl ⟨rfl, ?_⟩
    simp only [after, persistStrategyProgress, hid, h.versions_nil hid]
  | some strategyId =>
    refine .inr ⟨strategyId, rfl, ?_⟩
    simp only [after, persistStrategyProgress, hid, persistOnStrategy, Database.persistVersion]

theorem versionsSegmented_after (h : s.Sound) (hnext : s.graph.next = some output.node) :
    VersionsSegmented (s.after output world).db := by
  cases hcode : AgentRun.isCode ⟨output, world⟩ with
  | true =>
    cases output with
    | pythonCodeGenerator code =>
      simp only [VersionsSegmented]
      rcases h.versions_after_code code world with ⟨-, hnil⟩ | ⟨strategyId, -, hversions⟩
      · rw [hnil]
        exact .nil _ _
      · rw [hversions, List.length_append, List.length_singleton, Nat.add_sub_cancel]
        exact h.versions.mark hcode rfl rfl
    | _ => cases hcode
  | false =>
    have hlength : (s.after output world).db.versions.length = s.db.versions.length := by
      rw [h.versions_after hnext hcode, modifyCurrent, Option.elim_some, List.length_modify]
    simp only [VersionsSegmented]
    rw [hlength, h.versions_after hnext hcode]
    exact h.versions.extend hcode (fun _ ↦ rfl) fun _ ↦ rfl

theorem results_after_backtest (h : s.Sound) {metrics : BacktestMetrics}
    (hnext : s.graph.next = some .backtesting)
    (hstale : s.BacktestStored world) :
    (s.after (.backtesting metrics) world).db.results = [] ∨
      ∃ symbol dateTo, s.tracking.strategyId ≠ none ∧ (s.after (.backtesting metrics) world).db.results = s.db.results ++
          [⟨s.db.versions.length - 1, s.db.agentRuns.length, symbol, dateTo, metrics, .empty⟩] ∧
        (s.after (.backtesting metrics) world).tracking.backtestResultId =
          some s.db.results.length := by
  cases hid : s.tracking.strategyId with
  | none =>
    refine .inl ?_
    simp only [after, persistStrategyProgress, hid, h.results_nil (.inl hid)]
  | some strategyId =>
    have hcurrent := h.current strategyId hid (.inr (.inr hnext))
    rcases Database.backtestRow_cases s.db.agentRuns.length metrics world hcurrent with
      ⟨symbol, dateTo, hrow⟩ | ⟨hrow, strategy, hstrategy, hmissing⟩
    · refine .inr ⟨symbol, dateTo, ?_⟩
      simp [after, persistStrategyProgress, hid, persistOnStrategy, hrow]
    · have hnil := h.results_nil (.inr (hstale strategyId hid strategy hstrategy hmissing))
      refine .inl ?_
      simp only [after, persistStrategyProgress, hid, persistOnStrategy, hrow, hnil]

theorem results_after (h : s.Sound) (hbacktest : AgentRun.isBacktest ⟨output, world⟩ = false) :
    (s.after output world).db.results = modifyCurrent s.tracking.backtestResultId
      (fun r ↦ { r with verdicts := r.verdicts.record ⟨output, world⟩ }) s.db.results :=
  results_persist (fun hid ↦ h.results_nil (.inl hid)) hbacktest

theorem resultsSegmented_after (h : s.Sound) (hnext : s.graph.next = some output.node)
    (hstale : output.node = .backtesting → s.BacktestStored world) :
    ResultsSegmented (s.after output world).db (s.after output world).tracking.backtestResultId := by
  simp only [ResultsSegmented]
  cases hbacktest : AgentRun.isBacktest ⟨output, world⟩ with
  | true =>
    cases output with
    | backtesting metrics =>
      rcases h.results_after_backtest hnext (hstale rfl) with hnil | ⟨_, _, -, hresults, hcurrent⟩
      · rw [hnil]
        exact .nil _ _
      · rw [hresults, hcurrent]
        exact h.results.mark hbacktest rfl rfl
    | _ => cases hbacktest
  | false =>
    have hcurrent : (s.after output world).tracking.backtestResultId =
        s.tracking.backtestResultId := tracking_persist.2.1 (node_ne_of_isBacktest hbacktest)
    have hresults := h.results_after hbacktest
    rw [hcurrent, hresults]
    exact h.results.extend hbacktest (fun _ ↦ rfl) fun _ ↦ rfl

theorem attemptOptions_append (runs : List AgentRun) (run : AgentRun) :
    attemptOptions (runs ++ [run]) =
      match run.output with
      | .strategyGenerator _ => .empty
      | .optionsStrategyAgent update => (optionFields? update).getD .empty
      | _ => attemptOptions runs := by
  rw [attemptOptions, List.foldl_append]
  rfl

theorem strategyId_after (houtput : output.node ≠ .strategyGenerator) :
    (s.after output world).tracking.strategyId = s.tracking.strategyId :=
  tracking_persist.1 houtput

theorem tracked_after (h : (s.after output world).tracking.strategyId = none) :
    s.tracking.strategyId = none := by
  by_cases houtput : output.node = .strategyGenerator
  · cases output with
    | strategyGenerator logic =>
      rcases persistStrategy_cases s.db s.tracking world logic with ⟨-, hid⟩ | ⟨_, -, hid⟩
      · exact hid.symm.trans h
      · cases hid.symm.trans h
    | _ => cases houtput
  · exact (strategyId_after houtput).symm.trans h

theorem strategy_lt_after (h : s.Sound) :
    ∀ strategyId ∈ (s.after output world).tracking.strategyId,
      strategyId < (s.after output world).db.strategies.length := by
  intro strategyId hid
  by_cases houtput : output.node = .strategyGenerator
  · cases output with
    | strategyGenerator logic =>
      rcases persistStrategy_cases s.db s.tracking world logic with ⟨-, hsame⟩ | ⟨_, hstrategies, hnew⟩
      · exact (h.strategy_lt strategyId (hsame.symm.trans hid)).trans_le length_strategies_persist
      · obtain rfl := Option.some.inj (hnew.symm.trans hid)
        have hlength := congrArg List.length hstrategies
        rw [List.length_append, List.length_singleton] at hlength
        exact (Nat.lt_succ_self _).trans_eq hlength.symm
    | _ => cases houtput
  · rw [strategyId_after houtput] at hid
    exact (h.strategy_lt strategyId hid).trans_le length_strategies_persist

theorem pending_after (h : s.Sound) (hnext : s.graph.next = some output.node)
    (hfresh : ∀ update, output = .optionsStrategyAgent update → optionFields? update = none →
      s.tracking.pendingOptions = .empty)
    (htracked : (s.after output world).tracking.strategyId ≠ none)
    (hoptions : (s.after output world).graph.next ≠ some .optionsStrategyAgent) :
    (s.after output world).tracking.pendingOptions =
      attemptOptions (s.after output world).db.agentRuns := by
  have hruns : (s.after output world).db.agentRuns = s.db.agentRuns ++ [⟨output, world⟩] := rfl
  rw [hruns, attemptOptions_append]
  by_cases hgenerator : output.node = .strategyGenerator
  · cases output with
    | strategyGenerator logic => exact absurd rfl hoptions
    | _ => cases hgenerator
  · rw [strategyId_after hgenerator] at htracked
    by_cases hnode : output.node = .optionsStrategyAgent
    · cases output with
      | optionsStrategyAgent update =>
        obtain ⟨strategyId, hid⟩ := Option.ne_none_iff_exists'.mp htracked
        simp only [after, persistStrategyProgress, hid, persistOnStrategy]
        cases hfields : optionFields? update with
        | none => exact hfresh update rfl hfields
        | some fields => rfl
      | _ => cases hnode
    · have hpending : (s.after output world).tracking.pendingOptions = s.tracking.pendingOptions :=
        tracking_persist.2.2 hnode
      have hold := h.pending htracked (by rw [hnext]; exact fun heq ↦ hnode (Option.some.inj heq))
      rw [hpending, hold]
      cases output with
      | strategyGenerator logic => exact absurd rfl hgenerator
      | optionsStrategyAgent update => exact absurd rfl hnode
      | _ => rfl

theorem current_after (h : s.Sound) (hnext : s.graph.next = some output.node) :
    ∀ strategyId ∈ (s.after output world).tracking.strategyId,
      (s.after output world).graph.next = some .compliance ∨
        (s.after output world).graph.next = some .pythonValidator ∨
        (s.after output world).graph.next = some .backtesting →
      (s.after output world).db.currentVersionId? strategyId =
        some ((s.after output world).db.versions.length - 1) := by
  intro strategyId hid hposition
  have hnode := s.graph.node_of_next_advance hposition
  have hgenerator : output.node ≠ .strategyGenerator := by
    intro h
    rw [h] at hnode
    rcases hnode with h | h | h <;> cases h
  rw [strategyId_after hgenerator] at hid
  have hlt := h.strategy_lt strategyId hid
  have hid' : s.tracking.strategyId = some strategyId := hid
  cases output with
  | pythonCodeGenerator code =>
    simp only [after, persistStrategyProgress, hid', persistOnStrategy]
    refine (Database.currentVersionId?_persistVersion hlt).trans ?_
    simp only [Database.persistVersion, List.length_append, List.length_singleton,
      Nat.add_sub_cancel]
  | compliance blocked =>
    have hold := h.current strategyId hid (.inl hnext)
    simp only [after, persistStrategyProgress, hid', persistOnStrategy]
    cases s.tracking.backtestResultId with
    | none => exact hold
    | some resultId => exact hold
  | pythonValidator result =>
    have hold := h.current strategyId hid (.inr (.inl hnext))
    simp only [after, persistStrategyProgress, hid', persistOnStrategy]
    refine (Database.currentVersionId?_persistValidation result _ strategyId).trans
      (hold.trans ?_)
    rw [Database.versions_persistValidation, hold, modifyCurrent, Option.elim_some,
      List.length_modify]
  | _ => rcases hnode with h | h | h <;> cases h

theorem versions_nil_after (h : s.Sound) (hnext : s.graph.next = some output.node)
    (hid : (s.after output world).tracking.strategyId = none) :
    (s.after output world).db.versions = [] := by
  have hold := tracked_after hid
  cases hcode : AgentRun.isCode ⟨output, world⟩ with
  | true =>
    cases output with
    | pythonCodeGenerator code =>
      rcases h.versions_after_code code world with ⟨-, hnil⟩ | ⟨strategyId, hsome, -⟩
      · exact hnil
      · cases hold.symm.trans hsome
    | _ => cases hcode
  | false => rw [h.versions_after hnext hcode, h.versions_nil hold, modifyCurrent_nil]

theorem results_nil_after (h : s.Sound) (hnext : s.graph.next = some output.node)
    (hstale : output.node = .backtesting → s.BacktestStored world)
    (hid : (s.after output world).tracking.strategyId = none ∨
      (s.after output world).tracking.backtestResultId = none) :
    (s.after output world).db.results = [] := by
  cases hbacktest : AgentRun.isBacktest ⟨output, world⟩ with
  | true =>
    cases output with
    | backtesting metrics =>
      rcases h.results_after_backtest hnext (hstale rfl) with hnil | ⟨_, _, hsome, -, hcurrent⟩
      · exact hnil
      · rcases hid with hid | hid
        · exact absurd (tracked_after hid) hsome
        · cases hid.symm.trans hcurrent
    | _ => cases hbacktest
  | false =>
    have hold : s.tracking.strategyId = none ∨ s.tracking.backtestResultId = none :=
      hid.imp tracked_after fun hid ↦
        (tracking_persist.2.1 (node_ne_of_isBacktest hbacktest)).symm.trans hid
    have hresults := h.results_after hbacktest
    exact hresults.trans (by rw [h.results_nil hold, modifyCurrent_nil])

theorem version_append {v : StrategyVersion} {runs : List AgentRun} (h : v.FromRun runs)
    (run : AgentRun) : v.FromRun (runs ++ [run]) := by
  obtain ⟨⟨r, hr, houtput⟩, hoptions⟩ := h
  have hlt := (List.getElem?_eq_some_iff.mp hr).1
  refine ⟨⟨r, ?_, houtput⟩, ?_⟩
  · rwa [List.getElem?_append_left hlt]
  · rwa [List.take_append_of_le_length hlt.le]

theorem result_append {r : BacktestResult} {runs : List AgentRun}
    {versions versions' : List StrategyVersion} (h : r.FromRun runs versions)
    (hversions : ∀ (i : ℕ) v, versions[i]? = some v →
      ∃ v', versions'[i]? = some v' ∧ v'.agentRunId = v.agentRunId) (run : AgentRun) :
    r.FromRun (runs ++ [run]) versions' := by
  obtain ⟨⟨r', hr, houtput⟩, v, hv, hbefore, hlast⟩ := h
  have hlt := (List.getElem?_eq_some_iff.mp hr).1
  obtain ⟨v', hv', hsame⟩ := hversions _ v hv
  refine ⟨⟨r', ?_, houtput⟩, v', hv', hsame.trans_lt hbefore, ?_⟩
  · rwa [List.getElem?_append_left hlt]
  · rwa [List.take_append_of_le_length hlt.le, hsame]

theorem versions_kept (h : s.Sound) (hnext : s.graph.next = some output.node) (i : ℕ)
    (v : StrategyVersion) (hv : s.db.versions[i]? = some v) :
    ∃ v', (s.after output world).db.versions[i]? = some v' ∧ v'.agentRunId = v.agentRunId := by
  cases hcode : AgentRun.isCode ⟨output, world⟩ with
  | true =>
    cases output with
    | pythonCodeGenerator code =>
      rcases h.versions_after_code code world with ⟨hid, -⟩ | ⟨strategyId, -, hversions⟩
      · rw [h.versions_nil hid] at hv
        cases hv
      · refine ⟨v, ?_, rfl⟩
        rw [hversions, List.getElem?_append_left (List.getElem?_eq_some_iff.mp hv).1, hv]
    | _ => cases hcode
  | false =>
    rw [h.versions_after hnext hcode]
    simp only [getElem?_modifyCurrent, hv, Option.map_some]
    refine ⟨_, rfl, ?_⟩
    split <;> rfl

theorem version_after (h : s.Sound) (hnext : s.graph.next = some output.node) :
    ∀ v ∈ (s.after output world).db.versions,
      v.FromRun (s.after output world).db.agentRuns := by
  intro v hv
  have hruns : (s.after output world).db.agentRuns = s.db.agentRuns ++ [⟨output, world⟩] := rfl
  rw [hruns]
  cases hcode : AgentRun.isCode ⟨output, world⟩ with
  | true =>
    cases output with
    | pythonCodeGenerator code =>
      rcases h.versions_after_code code world with ⟨-, hnil⟩ | ⟨strategyId, hid, hversions⟩
      · rw [hnil] at hv
        cases hv
      · rw [hversions] at hv
        rcases List.mem_append.mp hv with hv | hv
        · exact version_append (h.version v hv) _
        · obtain rfl := List.mem_singleton.mp hv
          have hpending := h.pending (by rw [hid]; nofun) (by rw [hnext]; nofun)
          refine ⟨⟨_, List.getElem?_concat_length, rfl⟩, ?_⟩
          exact (congrArg OptionFields.stored hpending).trans (by rw [Database.versionRow, List.take_left])
    | _ => cases hcode
  | false =>
    rw [h.versions_after hnext hcode] at hv
    obtain ⟨i, hi⟩ := List.mem_iff_getElem?.mp hv
    rw [getElem?_modifyCurrent] at hi
    obtain ⟨v', hv', rfl⟩ := Option.map_eq_some_iff.mp hi
    have hold := version_append (h.version v' (List.mem_of_getElem? hv')) ⟨output, world⟩
    split <;> exact hold

theorem last_version (h : s.Sound) {strategyId : RowId}
    (hcurrent : s.db.currentVersionId? strategyId = some (s.db.versions.length - 1)) :
    ∃ v, s.db.versions[s.db.versions.length - 1]? = some v ∧
      v.agentRunId < s.db.agentRuns.length ∧
      (s.db.agentRuns.drop (v.agentRunId + 1)).any AgentRun.isCode = false := by
  have hlt : s.db.versions.length - 1 < s.db.versions.length :=
    of_decide_eq_true (Option.filter_eq_some_iff.mp hcurrent).2
  have hv := List.getElem?_eq_getElem hlt
  exact ⟨_, hv, h.versions.entry_lt _ _ hv, (h.versions.current_iff _ _ hv).mp rfl⟩

theorem result_after (h : s.Sound) (hnext : s.graph.next = some output.node)
    (hstale : output.node = .backtesting → s.BacktestStored world) :
    ∀ r ∈ (s.after output world).db.results,
      r.FromRun (s.after output world).db.agentRuns (s.after output world).db.versions := by
  intro r hr
  have hruns : (s.after output world).db.agentRuns = s.db.agentRuns ++ [⟨output, world⟩] := rfl
  rw [hruns]
  cases hbacktest : AgentRun.isBacktest ⟨output, world⟩ with
  | true =>
    cases output with
    | backtesting metrics =>
      rcases h.results_after_backtest hnext (hstale rfl) with hnil | ⟨_, _, hid, hresults, -⟩
      · rw [hnil] at hr
        cases hr
      · rw [hresults] at hr
        rcases List.mem_append.mp hr with hr | hr
        · exact result_append (h.result r hr) (h.versions_kept hnext) _
        · obtain rfl := List.mem_singleton.mp hr
          obtain ⟨strategyId, hid⟩ := Option.ne_none_iff_exists'.mp hid
          have hcurrent := h.current strategyId hid (.inr (.inr hnext))
          obtain ⟨v, hv, hlt, hlast⟩ := h.last_version hcurrent
          obtain ⟨v', hv', hsame⟩ := h.versions_kept hnext _ v hv
          refine ⟨⟨_, List.getElem?_concat_length, rfl⟩, v', hv', hsame.trans_lt hlt, ?_⟩
          rwa [List.take_left, hsame]
    | _ => cases hbacktest
  | false =>
    have hresults := h.results_after hbacktest
    rw [hresults] at hr
    obtain ⟨i, hi⟩ := List.mem_iff_getElem?.mp hr
    rw [getElem?_modifyCurrent] at hi
    obtain ⟨r', hr', rfl⟩ := Option.map_eq_some_iff.mp hi
    have hold : r'.FromRun (s.db.agentRuns ++ [⟨output, world⟩]) (s.after output world).db.versions :=
      result_append (h.result r' (List.mem_of_getElem? hr')) (h.versions_kept hnext) _
    split <;> exact hold

theorem after (h : s.Sound) (hnext : s.graph.next = some output.node)
    (hfresh : ∀ update, output = .optionsStrategyAgent update → optionFields? update = none →
      s.tracking.pendingOptions = .empty)
    (hstale : output.node = .backtesting → s.BacktestStored world) :
    (s.after output world).Sound where
  strategy_lt := h.strategy_lt_after
  versions_nil := h.versions_nil_after hnext
  results_nil := h.results_nil_after hnext hstale
  pending := h.pending_after hnext hfresh
  current := h.current_after hnext
  versions := h.versionsSegmented_after hnext
  results := h.resultsSegmented_after hnext hstale
  version := h.version_after hnext
  result := h.result_after hnext hstale

end Sound

theorem step_sound {s' : ResearchRun} {event : RunEvent} (h : s.Sound)
    (hfresh : LeavesNothingStale s event s') (hstep : s.step event = some s') : s'.Sound := by
  obtain ⟨output, houtput, hnext, rfl⟩ := step_eq_some hstep
  obtain ⟨call, world⟩ := event
  cases call with
  | optionsStrategyAgent chain replies =>
    obtain ⟨strategy, hstrategy, houtput⟩ := Option.bind_eq_some_iff.mp houtput
    obtain ⟨update, hupdate, rfl⟩ := Option.map_eq_some_iff.mp houtput
    refine h.after hnext (fun update' heq hfields ↦ ?_) nofun
    obtain rfl := NodeOutput.optionsStrategyAgent.inj heq
    have hnone : update.strategyLogic = none := Option.map_eq_none_iff.mp hfields
    exact hfresh strategy hstrategy fun hfno ↦ strategyLogic_ne_none hfno hupdate hnone
  | returns returned =>
    cases returned with
    | optionsStrategyAgent update => cases houtput
    | backtesting metrics =>
      obtain rfl := Option.some.inj houtput
      exact h.after hnext nofun fun _ ↦ hfresh
    | _ =>
      obtain rfl := Option.some.inj houtput
      exact h.after hnext nofun nofun

end ResearchRun

/-- In every research run that leaves nothing stale behind, through all its retries and
strategies, no version and no backtest mixes two attempts. -/
theorem rows_never_mixed (events : List RunEvent)
    (hfresh : Along ResearchRun.step LeavesNothingStale .init events) :
    Along ResearchRun.step (fun _ _ s ↦ s.db.Unmixed) .init events := by
  refine along_of_invariant (fun s event s' h hfresh hstep ↦ ?_) ResearchRun.sound_init hfresh
  have h' := ResearchRun.step_sound h hfresh hstep
  exact ⟨h', h'.unmixed⟩

def openWorld : World := ⟨some 0, some 20240124, ⟨.passed, none⟩⟩

def runEvents (calls : List NodeCall) : List RunEvent := calls.map fun call ↦ ⟨call, openWorld⟩

def infyEquity : StrategyLogic := ⟨.equity, ["INFY"], none⟩

def thinMetrics : BacktestMetrics :=
  ⟨1, none, none, 5, none, none, none, none, none, none, none⟩

def longCall : LlmReply :=
  .parsed (some [⟨some 100, some .ce, some .buy, some 50⟩]) "momentum"

theorem rows_never_mixed_equity : Along ResearchRun.step (fun _ _ s ↦ s.db.Unmixed) .init
    (runEvents [.returns (.ceoAgent "bull"), .returns (.marketAnalyst "calm"),
      .returns (.strategyGenerator infyEquity), .optionsStrategyAgent none [],
      .returns (.pythonCodeGenerator ⟨"buy()", 1⟩), .returns (.compliance false),
      .returns (.pythonValidator ⟨true, none⟩), .returns (.backtesting thinMetrics),
      .returns (.evaluator ⟨true, []⟩)]) := by
  apply rows_never_mixed
  refine ⟨trivial, trivial, trivial, fun _ _ _ ↦ rfl, trivial, trivial, trivial, ?_, trivial, trivial⟩
  rintro strategyId hid strategy hstrategy hmissing
  rfl

def rejectedOptions : List RunEvent :=
  runEvents [.returns (.ceoAgent "bull"), .returns (.marketAnalyst "calm"),
    .returns (.strategyGenerator niftyStrategy), .optionsStrategyAgent (some niftyChain) [longCall],
    .returns (.pythonCodeGenerator ⟨"buy_call()", 1⟩), .returns (.compliance false),
    .returns (.pythonValidator ⟨true, none⟩), .returns (.backtesting thinMetrics),
    .returns (.evaluator ⟨false, ["Sharpe below threshold"]⟩), .returns .memoryIngest,
    .returns (.strategyGenerator infyEquity), .optionsStrategyAgent none []]

def infyCode : RunEvent := ⟨.returns (.pythonCodeGenerator ⟨"buy()", 2⟩), openWorld⟩

def staleRun : ResearchRun :=
  (exec ResearchRun.step .init (rejectedOptions ++ [infyCode])).get (by decide +kernel)

/-- The code of the stock strategy is stored with the options of the rejected one. -/
theorem stale_option_legs : ¬ Along ResearchRun.step (fun _ _ s ↦ s.db.Unmixed) .init
    (rejectedOptions ++ [infyCode]) := by
  intro h
  obtain ⟨-, hmixed⟩ := h.last (exec_eq_some.mp (Option.some_get (by decide +kernel)).symm)
  have hown : ∀ v ∈ staleRun.db.versions,
      v.options = (attemptOptions (staleRun.db.agentRuns.take v.agentRunId)).stored :=
    fun v hv ↦ (hmixed.versions v hv).fromRun.2
  revert hown
  decide +kernel

end TradingOS.Api
