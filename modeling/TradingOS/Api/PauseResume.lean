import TradingOS.Api.StrategyProgress
import TradingOS.Lib.Runs

namespace TradingOS.Api

open Agents Lib Lib.Runs

abbrev OrgRunId := ℕ

structure TrackingSnapshot where
  strategyId : Option RowId
  accountId : Option AccountId
  accountLookupDone : Bool
  backtestResultId : Option RowId
  pendingOptionLegs : Option (List StrategyOptionLeg)
  pendingOptionExpiry : Option Date
  pendingResearchContext : Option String
  pendingMarketContext : Option String
  pendingOptionRationale : Option String
  deriving DecidableEq

/-- `legs if legs else None`. -/
def orNone : Option (List StrategyOptionLeg) → Option (List StrategyOptionLeg)
  | some [] => none
  | legs => legs

theorem orNone_orNone (legs : Option (List StrategyOptionLeg)) :
    orNone (orNone legs) = orNone legs := by
  match legs with
  | none | some [] | some (_ :: _) => rfl

theorem orNone_eq_self {legs : Option (List StrategyOptionLeg)} :
    orNone legs = legs ↔ legs ≠ some [] := by
  match legs with
  | none | some [] | some (_ :: _) => simp [orNone]

theorem OptionFields.legs_stored (f : OptionFields) : f.stored.legs = orNone f.legs := by
  rcases f with ⟨_ | _ | ⟨leg, legs⟩, expiry, rationale⟩ <;> simp [stored, orNone]

@[simp] theorem OptionFields.stored_stored (f : OptionFields) : f.stored.stored = f.stored := by
  rcases f with ⟨_ | _ | ⟨leg, legs⟩, expiry, rationale⟩ <;> simp [stored]

namespace StrategyTracking

/-- `_tracking_to_snapshot`. -/
def toSnapshot (tracking : StrategyTracking) : TrackingSnapshot where
  strategyId := tracking.strategyId
  accountId := tracking.accountId
  accountLookupDone := tracking.accountLookupDone
  backtestResultId := tracking.backtestResultId
  pendingOptionLegs := orNone tracking.pendingOptions.legs
  pendingOptionExpiry := tracking.pendingOptions.expiry
  pendingResearchContext := tracking.pendingResearchContext
  pendingMarketContext := tracking.pendingMarketContext
  pendingOptionRationale := tracking.pendingOptions.rationale

/-- `_tracking_from_snapshot`. -/
def fromSnapshot (data : TrackingSnapshot) : StrategyTracking where
  strategyId := data.strategyId
  accountId := data.accountId
  accountLookupDone := data.accountLookupDone
  backtestResultId := data.backtestResultId
  pendingOptions :=
    ⟨orNone data.pendingOptionLegs, data.pendingOptionExpiry, data.pendingOptionRationale⟩
  pendingResearchContext := data.pendingResearchContext
  pendingMarketContext := data.pendingMarketContext

/-- The options as a version row would hold them. -/
def stored (tracking : StrategyTracking) : StrategyTracking :=
  { tracking with pendingOptions := tracking.pendingOptions.stored }

variable {tracking tracking' : StrategyTracking}

theorem fromSnapshot_toSnapshot (tracking : StrategyTracking) :
    fromSnapshot tracking.toSnapshot = tracking.stored := by
  simp only [fromSnapshot, toSnapshot, orNone_orNone]
  rw [← OptionFields.legs_stored]
  rfl

theorem stored_stored (tracking : StrategyTracking) : tracking.stored.stored = tracking.stored := by
  simp only [stored, OptionFields.stored_stored]

theorem stored_eq_self : tracking.stored = tracking ↔ tracking.pendingOptions.legs ≠ some [] := by
  rw [← orNone_eq_self, ← OptionFields.legs_stored]
  constructor
  · intro h
    exact congrArg (fun t ↦ t.pendingOptions.legs) h
  · intro h
    simp only [stored, OptionFields.stored] at h ⊢
    rw [h]

end StrategyTracking

section Persist

theorem persist_stored (db : Database) (tracking : StrategyTracking) (agentRunId : RowId)
    (world : World) (output : NodeOutput) :
    (persistStrategyProgress db tracking.stored agentRunId world output).1 =
        (persistStrategyProgress db tracking agentRunId world output).1 ∧
      (persistStrategyProgress db tracking.stored agentRunId world output).2.stored =
        (persistStrategyProgress db tracking agentRunId world output).2.stored := by
  rcases tracking with ⟨strategyId, accountId, accountLookupDone, resultId, options, research, market⟩
  cases output with
  | ceoAgent _ | marketAnalyst _ => simp [persistStrategyProgress, StrategyTracking.stored]
  | strategyGenerator logic =>
    cases accountLookupDone with
    | true =>
      cases accountId <;> simp [persistStrategyProgress, persistStrategy, StrategyTracking.stored]
    | false =>
      rcases world with ⟨_ | account, latestDate, factory⟩ <;>
        simp [persistStrategyProgress, persistStrategy, StrategyTracking.stored]
  | optionsStrategyAgent update =>
    simp only [persistStrategyProgress, persistOnStrategy, StrategyTracking.stored]
    cases strategyId <;> cases optionFields? update <;> simp
  | pythonCodeGenerator code =>
    cases strategyId <;>
      simp [persistStrategyProgress, persistOnStrategy, StrategyTracking.stored,
        Database.persistVersion, Database.versionRow]
  | pythonValidator result =>
    cases strategyId <;>
      simp [persistStrategyProgress, persistOnStrategy, StrategyTracking.stored]
  | backtesting metrics =>
    cases strategyId with
    | none => simp [persistStrategyProgress, StrategyTracking.stored]
    | some strategyId =>
      simp only [persistStrategyProgress, persistOnStrategy, StrategyTracking.stored]
      cases db.backtestRow strategyId agentRunId metrics world <;> simp
  | _ =>
    cases strategyId <;> cases resultId <;>
      simp [persistStrategyProgress, persistOnStrategy, StrategyTracking.stored]

variable {db : Database} {tracking tracking' : StrategyTracking} {agentRunId : RowId}
  {world : World} {output : NodeOutput}

theorem persist_congr (h : tracking.stored = tracking'.stored) :
    (persistStrategyProgress db tracking agentRunId world output).1 =
        (persistStrategyProgress db tracking' agentRunId world output).1 ∧
      (persistStrategyProgress db tracking agentRunId world output).2.stored =
        (persistStrategyProgress db tracking' agentRunId world output).2.stored := by
  obtain ⟨hdb, htracking⟩ := persist_stored db tracking agentRunId world output
  obtain ⟨hdb', htracking'⟩ := persist_stored db tracking' agentRunId world output
  rw [← hdb, ← htracking, ← hdb', ← htracking', h]
  exact ⟨rfl, rfl⟩

/-- The deployment recommends Paper Trading for a strategy that has a result and no request yet. -/
def opensRequest (db : Database) (tracking : StrategyTracking) : NodeOutput → Bool
  | .deployment recommendation =>
    match tracking.strategyId, tracking.backtestResultId with
    | some strategyId, some _ =>
      decide (recommendation.recommendedStatus = .paperTrading) &&
        !db.approvals.any (·.strategyId = strategyId)
    | _, _ => false
  | _ => false

theorem opensRequest_stored (db : Database) (tracking : StrategyTracking) (output : NodeOutput) :
    opensRequest db tracking.stored output = opensRequest db tracking output := by
  cases output <;> rfl

theorem approvals_openPaperApprovalRequest (db : Database) (strategyId resultId : RowId) (rationale : String) :
    ∃ rows, rows.length = (if db.approvals.any (·.strategyId = strategyId) then 0 else 1) ∧
      (db.openPaperApprovalRequest strategyId resultId rationale).approvals =
        db.approvals ++ rows := by
  simp only [Database.openPaperApprovalRequest]
  split
  · exact ⟨[], rfl, (List.append_nil _).symm⟩
  · exact ⟨[_], rfl, rfl⟩

theorem approvals_persistValidation (strategyId : RowId) (result : ValidationResult)
    (run : AgentRun) : (db.persistValidation strategyId result run).approvals = db.approvals := by
  simp only [Database.persistValidation]
  split
  · rfl
  · split <;> rfl

theorem approvals_persist (db : Database) (tracking : StrategyTracking) (agentRunId : RowId)
    (world : World) (output : NodeOutput) :
    ∃ rows, rows.length = (if opensRequest db tracking output then 1 else 0) ∧
      (persistStrategyProgress db tracking agentRunId world output).1.approvals =
        db.approvals ++ rows := by
  have hsame (db' : Database) (h : db'.approvals = db.approvals) :
      ∃ rows, rows.length = 0 ∧ db'.approvals = db.approvals ++ rows := ⟨[], rfl, by simp [h]⟩
  rcases tracking with ⟨strategyId, accountId, accountLookupDone, resultId, options, research, market⟩
  cases output with
  | ceoAgent _ | marketAnalyst _ => exact hsame _ rfl
  | strategyGenerator logic =>
    refine hsame _ ?_
    simp only [persistStrategyProgress, persistStrategy]
    split <;> rfl
  | optionsStrategyAgent update =>
    refine hsame _ ?_
    cases strategyId with
    | none => rfl
    | some strategyId =>
      simp only [persistStrategyProgress, persistOnStrategy]
      split <;> rfl
  | pythonCodeGenerator code =>
    refine hsame _ ?_
    cases strategyId <;> rfl
  | pythonValidator result =>
    refine hsame _ ?_
    cases strategyId with
    | none => rfl
    | some strategyId => exact approvals_persistValidation strategyId result _
  | backtesting metrics =>
    refine hsame _ ?_
    cases strategyId with
    | none => rfl
    | some strategyId =>
      simp only [persistStrategyProgress, persistOnStrategy]
      split <;> rfl
  | deployment recommendation =>
    rcases recommendation with ⟨status, rationale⟩
    cases strategyId with
    | none => exact hsame _ rfl
    | some strategyId =>
      cases resultId with
      | none => exact hsame _ rfl
      | some resultId =>
        cases status with
        | reject => exact hsame _ rfl
        | paperTrading =>
          obtain ⟨rows, hrows, happrovals⟩ := approvals_openPaperApprovalRequest
            (Database.setStatus _ strategyId _) strategyId resultId rationale
          refine ⟨rows, hrows.trans ?_, happrovals⟩
          cases h : db.approvals.any (·.strategyId = strategyId) <;>
            simp [opensRequest, Database.setStatus, h]
  | evaluator verdict =>
    refine hsame _ ?_
    cases strategyId with
    | none => rfl
    | some strategyId =>
      cases resultId with
      | none => rfl
      | some resultId =>
        simp only [persistStrategyProgress, persistOnStrategy, Database.persistVerdict]
        split <;> rfl
  | _ =>
    refine hsame _ ?_
    cases strategyId <;> cases resultId <;> rfl

end Persist

inductive RootStatus
  | running | paused | completed | halted | failed
  deriving DecidableEq

def RootStatus.isEnded : RootStatus → Bool
  | .running | .paused => false
  | .completed | .halted | .failed => true

/-- The run's own `AgentRun` row. -/
@[ext] structure RootRow where
  status : RootStatus
  trackingSnapshot : Option TrackingSnapshot
  deriving DecidableEq

/-- A run with its driver: the graph and the tables, the organisation run the driver was given, and
the `run_id` of each approval request. `yielded`: a node has returned and no pause was checked for
since. -/
structure GraphRun where
  run : ResearchRun
  orgRunId : Option OrgRunId
  requestRunIds : List (Option OrgRunId)
  root : RootRow
  yielded : Bool
  deriving DecidableEq

inductive DriverStep
  | node (event : RunEvent)
  | pause
  | resumeRun
  | finish
  | raise (halted : Bool)
  deriving DecidableEq

namespace GraphRun

def start (orgRunId : Option OrgRunId) : GraphRun :=
  ⟨.init, orgRunId, [], ⟨.running, none⟩, false⟩

variable (s : GraphRun)

/-- One round of the loop of `_execute_graph_run`. -/
def node (event : RunEvent) : Option GraphRun :=
  (s.run.step event).map fun run ↦
    let opened := run.db.approvals.drop s.run.db.approvals.length
    { s with
      run := run
      requestRunIds := s.requestRunIds ++ opened.map fun _ ↦ s.orgRunId
      yielded := true }

def pause : GraphRun :=
  { s with root := ⟨.paused, some s.run.tracking.toSnapshot⟩, yielded := false }

/-- `resume_run` starts the driver without an organisation run. -/
def resumeRun : GraphRun :=
  { s with
    run := { s.run with
      tracking := (s.root.trackingSnapshot.map StrategyTracking.fromSnapshot).getD .init }
    orgRunId := none
    root := { s.root with status := .running }
    yielded := false }

def finish : GraphRun := { s with root := ⟨.completed, none⟩ }

def raise (halted : Bool) : GraphRun :=
  { s with root := { s.root with status := if halted then .halted else .failed } }

def step : DriverStep → Option GraphRun
  | .node event => if s.root.status = .running then s.node event else none
  | .pause => if s.root.status = .running ∧ s.yielded then some s.pause else none
  | .resumeRun => if s.root.status = .paused then some s.resumeRun else none
  | .finish => if s.root.status = .running ∧ s.run.graph.next = none then some s.finish else none
  | .raise halted => if s.root.status = .running then some (s.raise halted) else none

/-- What the run leaves in the tables, its own row included. -/
def rows : Database × List (Option OrgRunId) × RootRow := (s.run.db, s.requestRunIds, s.root)

variable {s} {s' t : GraphRun} {org : Option OrgRunId} {event : RunEvent} {output : NodeOutput}
  {ls : List DriverStep} {l : DriverStep}

/-- The run that returns the same outputs and is never paused. -/
def uninterrupted (ls : List DriverStep) : List DriverStep :=
  ls.filter fun l ↦ l ≠ .pause ∧ l ≠ .resumeRun

/-- The uninterrupted run takes every step but the pauses and their ends. -/
def follow (s' : GraphRun) (l : DriverStep) : GraphRun :=
  if l ≠ .pause ∧ l ≠ .resumeRun then (s'.step l).getD s' else s'

/-- The paused run and the uninterrupted one, but for what a pause loses. -/
structure Follows (org : Option OrgRunId) (s s' : GraphRun) : Prop where
  graph : s.run.graph = s'.run.graph
  db : s.run.db = s'.run.db
  tracking : s.run.tracking.stored = s'.run.tracking.stored
  snapshot : s.root.status = .paused → s.root.trackingSnapshot = some s.run.tracking.toSnapshot
  status : s'.root.status = if s.root.status = .paused then .running else s.root.status
  unsaved : s'.root.trackingSnapshot = none
  orgRunId : s'.orgRunId = org

theorem follows_start (org : Option OrgRunId) : Follows org (start org) (start org) :=
  ⟨rfl, rfl, rfl, (fun h ↦ by cases h), rfl, rfl, rfl⟩

theorem step_cases (h : s.step l = some t) :
    (∃ event, l = .node event ∧ s.root.status = .running ∧ s.node event = some t) ∨
      (l = .pause ∧ s.root.status = .running ∧ t = s.pause) ∨
      (l = .resumeRun ∧ s.root.status = .paused ∧ t = s.resumeRun) ∨
      (l = .finish ∧ s.root.status = .running ∧ s.run.graph.next = none ∧ t = s.finish) ∨
      ∃ halted, l = .raise halted ∧ s.root.status = .running ∧ t = s.raise halted := by
  cases l with
  | node event =>
    simp only [step] at h
    split_ifs at h with hrunning
    exact .inl ⟨event, rfl, hrunning, h⟩
  | pause =>
    simp only [step] at h
    split_ifs at h with hpause
    exact .inr (.inl ⟨rfl, hpause.1, (Option.some.inj h).symm⟩)
  | resumeRun =>
    simp only [step] at h
    split_ifs at h with hpaused
    exact .inr (.inr (.inl ⟨rfl, hpaused, (Option.some.inj h).symm⟩))
  | finish =>
    simp only [step] at h
    split_ifs at h with hfinish
    exact .inr (.inr (.inr (.inl ⟨rfl, hfinish.1, hfinish.2, (Option.some.inj h).symm⟩)))
  | raise halted =>
    simp only [step] at h
    split_ifs at h with hrunning
    exact .inr (.inr (.inr (.inr ⟨halted, rfl, hrunning, (Option.some.inj h).symm⟩)))

theorem node_eq_some (h : s.node event = some t) : ∃ output,
    event.call.output s.run.graph = some output ∧ s.run.graph.next = some output.node ∧
      t = { s with
        run := s.run.after output event.world
        requestRunIds := s.requestRunIds ++
          if opensRequest s.run.db s.run.tracking output then [s.orgRunId] else []
        yielded := true } := by
  obtain ⟨run, hrun, rfl⟩ := Option.map_eq_some_iff.mp h
  obtain ⟨output, houtput, hnext, rfl⟩ := ResearchRun.step_eq_some hrun
  obtain ⟨rows, hlength, happrovals⟩ := approvals_persist s.run.db s.run.tracking
    s.run.db.agentRuns.length event.world output
  refine ⟨output, houtput, hnext, ?_⟩
  have hopened : (s.run.after output event.world).db.approvals = s.run.db.approvals ++ rows :=
    happrovals
  rw [hopened, List.drop_left]
  dsimp only
  rw [List.map_const', hlength]
  split_ifs <;> rfl

theorem node_of_output (houtput : event.call.output s.run.graph = some output)
    (hnext : s.run.graph.next = some output.node) : (s.node event).isSome := by
  simp [node, ResearchRun.step, houtput, hnext]

theorem Follows.running (h : Follows org s s') (hrunning : s.root.status = .running) :
    s'.root.status = .running := by
  rw [h.status, hrunning]
  rfl

theorem follows_node (h : Follows org s s') (hrunning : s.root.status = .running)
    (hnode : s.node event = some t) : ∃ t', s'.node event = some t' ∧ Follows org t t' := by
  obtain ⟨output, houtput, hnext, rfl⟩ := node_eq_some hnode
  rw [h.graph] at houtput hnext
  obtain ⟨t', ht'⟩ := Option.isSome_iff_exists.mp (node_of_output houtput hnext)
  obtain ⟨output', houtput', -, rfl⟩ := node_eq_some ht'
  obtain rfl := Option.some.inj (houtput.symm.trans houtput')
  obtain ⟨hdb, htracking⟩ : _ ∧ _ := persist_congr h.tracking
  refine ⟨_, ht', ⟨?_, ?_, ?_, ?_, h.status, h.unsaved, h.orgRunId⟩⟩
  · exact congrArg (GraphState.advance · output) h.graph
  · simp only [ResearchRun.after]
    rw [h.db, hdb]
  · simp only [ResearchRun.after]
    rw [h.db, htracking]
  · intro hpaused
    cases hrunning.symm.trans hpaused

/-- Every step of the paused run but its pauses is one of the uninterrupted run. -/
theorem follows_step (h : Follows org s s') (hstep : s.step l = some t) :
    Follows org t (follow s' l) ∧
      (l ≠ .pause ∧ l ≠ .resumeRun → s'.step l = some (follow s' l)) := by
  rcases step_cases hstep with ⟨event, rfl, hrunning, hnode⟩ | ⟨rfl, hrunning, rfl⟩ |
    ⟨rfl, hpaused, rfl⟩ | ⟨rfl, hrunning, hnext, rfl⟩ | ⟨halted, rfl, hrunning, rfl⟩
  · obtain ⟨t', ht', hfollows⟩ := follows_node h hrunning hnode
    have hstep' : s'.step (.node event) = some t' := by
      simp only [step, if_pos (h.running hrunning), ht']
    simp [follow, hstep', hfollows]
  · refine ⟨⟨h.graph, h.db, h.tracking, fun _ ↦ rfl, ?_, h.unsaved, h.orgRunId⟩,
      fun hne ↦ absurd rfl hne.1⟩
    exact h.status.trans (by simp [hrunning, pause])
  · refine ⟨⟨h.graph, h.db, ?_, (fun hpaused ↦ by cases hpaused), ?_, h.unsaved, h.orgRunId⟩,
      fun hne ↦ absurd rfl hne.2⟩
    · simp only [resumeRun, h.snapshot hpaused, Option.map_some, Option.getD_some,
        StrategyTracking.fromSnapshot_toSnapshot, StrategyTracking.stored_stored]
      exact h.tracking
    · exact h.status.trans (by simp [hpaused, resumeRun])
  · have hstep' : s'.step .finish = some s'.finish := by
      simp only [step, h.running hrunning, ← h.graph, hnext, and_self, if_true]
    simp only [follow, hstep', Option.getD_some]
    exact ⟨⟨h.graph, h.db, h.tracking, (fun hpaused ↦ by cases hpaused), rfl, rfl, h.orgRunId⟩,
      fun _ ↦ rfl⟩
  · have hstep' : s'.step (.raise halted) = some (s'.raise halted) := by
      simp only [step, if_pos (h.running hrunning)]
    simp only [follow, hstep', Option.getD_some]
    refine ⟨⟨h.graph, h.db, h.tracking, ?_, ?_, h.unsaved, h.orgRunId⟩, fun _ ↦ rfl⟩
    · cases halted <;> exact fun hpaused ↦ by cases hpaused
    · cases halted <;> rfl

theorem follows_observed (org : Option OrgRunId) (x : GraphRun × GraphRun) (l : DriverStep) (y : GraphRun × GraphRun)
    (h : Follows org x.1 x.2) (hstep : observe step follow x l = some y) : Follows org y.1 y.2 := by
  obtain ⟨hstep, hfollow⟩ := observe_eq_some.mp hstep
  rw [hfollow]
  exact (follows_step h hstep).1

theorem run_uninterrupted (h : Run step s ls t) (hs : Follows org s s') :
    Run step s' (uninterrupted ls) (ls.foldl follow s') := by
  induction h generalizing s' with
  | nil s => exact .nil s'
  | @cons s t u l ls hst _ ih =>
    obtain ⟨hfollows, htaken⟩ := follows_step hs hst
    have hrest := ih hfollows
    by_cases hl : l ≠ .pause ∧ l ≠ .resumeRun
    · rw [uninterrupted, List.filter_cons_of_pos (by simpa using hl)]
      exact .cons (htaken hl) hrest
    · rw [uninterrupted, List.filter_cons_of_neg (by simpa using hl), List.foldl_cons]
      rw [follow, if_neg hl] at hrest ⊢
      exact hrest

section Losses

/-- A pause is without loss when the snapshot gives back what the uninterrupted run tracks there. -/
def Restores (x : GraphRun × GraphRun) (l : DriverStep) (_ : GraphRun × GraphRun) : Prop :=
  l = .pause → StrategyTracking.fromSnapshot x.1.run.tracking.toSnapshot = x.2.run.tracking

def requestsOn (s : GraphRun) (event : RunEvent) : Bool :=
  (event.call.output s.run.graph).any (opensRequest s.run.db s.run.tracking)

/-- Approval requests are opened under the organisation run. -/
def KeepsOrgRun (org : Option OrgRunId) (x : GraphRun × GraphRun) (l : DriverStep)
    (_ : GraphRun × GraphRun) : Prop :=
  ∀ event, l = .node event → requestsOn x.1 event → x.1.orgRunId = org

/-- No pause finds an empty list of legs. -/
def KeepsLegs (x : GraphRun × GraphRun) (l : DriverStep) (_ : GraphRun × GraphRun) : Prop :=
  l = .pause → x.2.run.tracking.pendingOptions.legs ≠ some []

/-- A run that was paused does not raise. -/
def KeepsRow (x : GraphRun × GraphRun) (l : DriverStep) (_ : GraphRun × GraphRun) : Prop :=
  ∀ halted, l = .raise halted → x.1.root.trackingSnapshot = none

def Keeps (org : Option OrgRunId) (x : GraphRun × GraphRun) (l : DriverStep)
    (y : GraphRun × GraphRun) : Prop :=
  (KeepsOrgRun org x l y ∧ KeepsRow x l y) ∧ KeepsLegs x l y

theorem restores_iff {x y : GraphRun × GraphRun} (h : Follows org x.1 x.2) :
    Restores x l y ↔ KeepsLegs x l y := by
  simp only [Restores, KeepsLegs, StrategyTracking.fromSnapshot_toSnapshot, h.tracking,
    StrategyTracking.stored_eq_self]

theorem requestRunIds_step (hl : ∀ event, l ≠ .node event) (h : s.step l = some t) :
    t.requestRunIds = s.requestRunIds := by
  rcases step_cases h with ⟨event, he, -⟩ | ⟨-, -, rfl⟩ | ⟨-, -, rfl⟩ | ⟨-, -, -, rfl⟩ |
    ⟨_, -, -, rfl⟩
  · exact absurd he (hl event)
  all_goals rfl

theorem requestRunIds_follow (hl : ∀ event, l ≠ .node event) :
    (follow s' l).requestRunIds = s'.requestRunIds := by
  simp only [follow]
  split_ifs
  · cases h : s'.step l with
    | none => rfl
    | some t => exact requestRunIds_step hl h
  · rfl

/-- The requests carry the same runs for as long as each is opened under the organisation run. -/
theorem requestRunIds_iff {x y : GraphRun × GraphRun} (h : Follows org x.1 x.2)
    (hstep : observe step follow x l = some y) :
    y.1.requestRunIds = y.2.requestRunIds ↔
      x.1.requestRunIds = x.2.requestRunIds ∧ KeepsOrgRun org x l y := by
  simp only [KeepsOrgRun]
  obtain ⟨hstep, hfollow⟩ := observe_eq_some.mp hstep
  by_cases hl : ∃ event, l = .node event
  · obtain ⟨event, rfl⟩ := hl
    have hstep' := (follows_step h hstep).2 (by simp)
    rw [← hfollow] at hstep'
    simp only [step] at hstep hstep'
    split_ifs at hstep hstep'
    obtain ⟨output, houtput, -, hy⟩ := node_eq_some hstep
    obtain ⟨output', houtput', -, hy'⟩ := node_eq_some hstep'
    rw [← h.graph] at houtput'
    obtain rfl := Option.some.inj (houtput.symm.trans houtput')
    have hopens : opensRequest x.2.run.db x.2.run.tracking output =
        opensRequest x.1.run.db x.1.run.tracking output := by
      rw [h.db, ← opensRequest_stored x.2.run.db, ← h.tracking, opensRequest_stored]
    have hon : requestsOn x.1 event = opensRequest x.1.run.db x.1.run.tracking output := by
      simp [requestsOn, houtput]
    rw [hy, hy', hopens, h.orgRunId]
    simp only [DriverStep.node.injEq, forall_eq', hon]
    cases opensRequest x.1.run.db x.1.run.tracking output with
    | true => simp [List.append_singleton_inj]
    | false => simp
  · have hl' (event : RunEvent) : l ≠ .node event := fun he ↦ hl ⟨event, he⟩
    rw [hfollow, requestRunIds_step hl' hstep, requestRunIds_follow hl']
    exact (and_iff_left fun event he ↦ absurd he (hl' event)).symm

theorem snapshot_iff {x y : GraphRun × GraphRun} (hstep : observe step follow x l = some y) :
    (y.1.root.status.isEnded → y.1.root.trackingSnapshot = none) ↔
      (x.1.root.status.isEnded → x.1.root.trackingSnapshot = none) ∧ KeepsRow x l y := by
  simp only [KeepsRow]
  obtain ⟨hstep, -⟩ := observe_eq_some.mp hstep
  rcases step_cases hstep with ⟨event, rfl, hrunning, hnode⟩ | ⟨rfl, hrunning, hy⟩ |
    ⟨rfl, hpaused, hy⟩ | ⟨rfl, hrunning, -, hy⟩ | ⟨halted, rfl, hrunning, hy⟩
  · obtain ⟨output, -, -, hy⟩ := node_eq_some hnode
    simp [hy, hrunning, RootStatus.isEnded]
  · simp [hy, hrunning, RootStatus.isEnded, pause]
  · simp [hy, hpaused, RootStatus.isEnded, resumeRun]
  · simp [hy, hrunning, RootStatus.isEnded, finish]
  · cases halted <;> simp [hy, hrunning, RootStatus.isEnded, raise]

end Losses

/-- A run that is paused and resumed leaves the rows of the uninterrupted one, and each snapshot
restores its tracking, exactly if the run keeps to the conditions. -/
theorem pause_transparent_iff (h : Run step (start org) ls s) (hend : s.root.status.isEnded) :
    ∃ s', Run step (start org) (uninterrupted ls) s' ∧
      ((s.rows = s'.rows ∧ Along (observe step follow) Restores (start org, start org) ls) ↔
        Along (observe step follow) (Keeps org) (start org, start org) ls) := by
  let s' := ls.foldl follow (start org)
  refine ⟨s', run_uninterrupted h (follows_start org), ?_⟩
  have hstart := follows_start org
  have hx : Run (observe step follow) (start org, start org) ls (s, s') := h.observed (start org)
  have hfollows : Follows org s s' := hx.invariant (follows_observed org) hstart
  have hrequests : s.requestRunIds = s'.requestRunIds ↔
      Along (observe step follow) (KeepsOrgRun org) (start org, start org) ls :=
    (hx.iff_and_along (Q := fun x ↦ x.1.requestRunIds = x.2.requestRunIds) (follows_observed org)
      (fun _ _ _ hx hstep ↦ requestRunIds_iff hx hstep) hstart).trans (and_iff_right rfl)
  have hsnapshot : s.root.trackingSnapshot = none ↔
      Along (observe step follow) KeepsRow (start org, start org) ls := by
    have hended := hx.iff_and_along
      (Q := fun x ↦ x.1.root.status.isEnded → x.1.root.trackingSnapshot = none)
      (follows_observed org) (fun _ _ _ _ hstep ↦ snapshot_iff hstep) hstart
    exact (forall_prop_of_true hend).symm.trans (hended.trans (and_iff_right fun _ ↦ rfl))
  have hroot : s.root = s'.root ↔ s.root.trackingSnapshot = none := by
    have hstatus : s'.root.status = s.root.status := by
      rw [hfollows.status, if_neg]
      intro hpaused
      rw [hpaused] at hend
      cases hend
    constructor
    · intro he
      rw [he, hfollows.unsaved]
    · intro hnone
      exact RootRow.ext hstatus.symm (hnone.trans hfollows.unsaved.symm)
  have hrestores : Along (observe step follow) Restores (start org, start org) ls ↔
      Along (observe step follow) KeepsLegs (start org, start org) ls :=
    along_iff_of_invariant (follows_observed org) (fun _ _ _ hx _ ↦ restores_iff hx) hstart
  have hdb := hfollows.db
  have hkeeps : Along (observe step follow) (Keeps org) (start org, start org) ls ↔ _ :=
    along_and.trans (and_congr_left' along_and)
  simp only [rows, Prod.mk.injEq, hdb, true_and, hrequests, hroot, hsnapshot, hrestores]
  exact hkeeps.symm

def world : World := ⟨some 1, some 20, ⟨.passed, none⟩⟩

def returns (output : NodeOutput) : DriverStep := .node ⟨.returns output, world⟩

def toCode : List DriverStep :=
  [returns (.ceoAgent ""), returns (.marketAnalyst ""),
    returns (.strategyGenerator ⟨.equity, ["INFY"], none⟩),
    .node ⟨.optionsStrategyAgent none [], world⟩, returns (.pythonCodeGenerator ⟨"v1", 1⟩)]

def toDeployment : List DriverStep :=
  [returns (.compliance false), returns (.pythonValidator ⟨true, none⟩),
    returns (.backtesting ⟨1, none, none, 0, none, none, none, none, none, none, none⟩),
    returns (.evaluator ⟨true, []⟩), returns (.optimization ⟨[], none, []⟩),
    returns (.riskManager ⟨.approve, ""⟩), returns (.deployment ⟨.paperTrading, ""⟩), .finish]

def resumedOnce : List DriverStep := toCode ++ [.pause, .resumeRun] ++ toDeployment

def resumedEnd : GraphRun := (exec step (start none) resumedOnce).get (by decide +kernel)

theorem resumedEnd_transparent : ∃ s', Run step (start none) (uninterrupted resumedOnce) s' ∧
    ((resumedEnd.rows = s'.rows ∧
        Along (observe step follow) Restores (start none, start none) resumedOnce) ↔
      Along (observe step follow) (Keeps none) (start none, start none) resumedOnce) := by
  have hrun : Run step (start none) resumedOnce resumedEnd :=
    exec_eq_some.mp (Option.some_get _).symm
  exact pause_transparent_iff hrun (by decide +kernel)

/-- An organisation run's graph is paused once, and its approval request belongs to no run. -/
theorem organisation_run_lost : ∃ s s', Run step (start (some 7)) resumedOnce s ∧
    Run step (start (some 7)) (uninterrupted resumedOnce) s' ∧
      s.requestRunIds = [none] ∧ s'.requestRunIds = [some 7] ∧ s.rows ≠ s'.rows := by
  refine ⟨_, _, exec_eq_some.mp (Option.some_get (by decide +kernel)).symm,
    exec_eq_some.mp (Option.some_get (by decide +kernel)).symm, ?_, ?_, ?_⟩
  · decide +kernel
  · decide +kernel
  · decide +kernel

end GraphRun

end TradingOS.Api
