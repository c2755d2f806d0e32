import TradingOS.Lib.Acyclic
import TradingOS.Orchestration.PlanPersistence
import TradingOS.Orchestration.Tasks

namespace TradingOS.Orchestration.Planner

open Lib

def maxPlanAttempts : ℕ := 3

/-- What the JSON of an answer is read as. -/
structure Answer extends DraftPlan where
  canPlan : Bool := true
  reason : Option String := none

/-- The exceptions that leave `generate_plan`. -/
inductive Failure
  | setup
  | check (error : PlanError)
  | write (error : PersistError)

/-- What planning reads. There is no prompt if the registries or the memory raise, and an answer that
raises, or cannot be parsed, is the text of its exception. -/
structure Briefing where
  room : ℕ
  settings : Settings
  isAgentEnabled : String → Bool
  taskPrompt : Option String
  complete : ℕ → String → Except String Answer

inductive Verdict
  | plan (plan : DraftPlan)
  | cannotPlan (reason : String)

/-- An attempt leaves an error to the next one, or ends the loop. -/
inductive Judgement
  | rejected (error : String)
  | concluded (verdict : Verdict)

def userPrompt (taskPrompt lastError : String) : String :=
  if lastError = "" then taskPrompt
  else taskPrompt ++ s!"\n\nYour previous attempt was rejected: {lastError}\nFix it."

def statedReason (reason : Option String) : String :=
  match reason with
  | none | some "" => "the CEO judged the objective unservable"
  | some reason => reason

def exhausted (lastError : String) : String :=
  s!"planner exhausted {maxPlanAttempts} attempts: {lastError}"

def DraftPlan.scaffolded (plan : DraftPlan) (registry : List AgentSnapshotRow) : DraftPlan :=
  { plan with
    toGeneratedPlan := (plan.ensureResearchScaffold registry).ensureAdhocScaffold registry }

namespace Briefing

variable (b : Briefing)

def registry : List AgentSnapshotRow := snapshot b.isAgentEnabled

def known : Known := knownOf b.registry

/-- The plan is checked as the model gave it and again with its scaffolds. -/
def prepare (plan : DraftPlan) : Except PlanError DraftPlan := do
  plan.validate b.room b.known
  (plan.scaffolded b.registry).validate b.room b.known
  .ok (plan.scaffolded b.registry)

/-- Running out of stack is no `PlanValidationError`. -/
def judge : Except String Answer → Except PlanError Judgement
  | .error text => .ok (.rejected s!"could not produce valid plan JSON ({text})")
  | .ok answer =>
    if ¬ answer.canPlan then .ok (.concluded (.cannotPlan (statedReason answer.reason)))
    else
      match b.prepare answer.toDraftPlan with
      | .ok plan => .ok (.concluded (.plan plan))
      | .error (.validation message) => .ok (.rejected message)
      | .error .recursion => .error .recursion

def attempt (taskPrompt : String) (n : ℕ) (lastError : String) : Except PlanError Judgement :=
  b.judge (b.complete n (userPrompt taskPrompt lastError))

/-- The attempts that are left, from the `n`-th on. -/
def attempts (taskPrompt : String) : ℕ → ℕ → String → Except PlanError Verdict
  | 0, _, lastError => .ok (.cannotPlan (exhausted lastError))
  | left + 1, n, lastError =>
    match b.attempt taskPrompt n lastError with
    | .error error => .error error
    | .ok (.rejected error) => attempts taskPrompt left (n + 1) error
    | .ok (.concluded verdict) => .ok verdict

/-- The attempts that are made, with the error each of them is told. -/
inductive Tried (taskPrompt : String) : ℕ → String → Prop
  | first : Tried taskPrompt 1 ""
  | again {n : ℕ} {lastError error : String} : Tried taskPrompt n lastError →
      b.attempt taskPrompt n lastError = .ok (.rejected error) → Tried taskPrompt (n + 1) error

variable {b} {taskPrompt lastError : String} {left n : ℕ} {verdict : Verdict}

theorem of_attempts (htried : b.Tried taskPrompt n lastError)
    (h : b.attempts taskPrompt left n lastError = .ok verdict) :
    (∃ m error, m < n + left ∧ b.Tried taskPrompt m error ∧
        b.attempt taskPrompt m error = .ok (.concluded verdict)) ∨
      ∃ error, b.Tried taskPrompt (n + left) error ∧ verdict = .cannotPlan (exhausted error) := by
  induction left generalizing n lastError with
  | zero =>
    cases h
    exact .inr ⟨lastError, htried, rfl⟩
  | succ left ih =>
    rw [attempts] at h
    split at h
    · cases h
    · next error hrejected =>
      have hnext := ih (htried.again hrejected) h
      rwa [Nat.succ_add_eq_add_succ] at hnext
    · next hconcluded =>
      cases h
      exact .inl ⟨n, lastError, by omega, htried, hconcluded⟩

/-- Nothing but an answer of the model is made a plan. -/
theorem of_judge_plan {answer : Except String Answer} {plan : DraftPlan}
    (h : b.judge answer = .ok (.concluded (.plan plan))) :
    ∃ a, answer = .ok a ∧ a.canPlan ∧ a.toDraftPlan.validate b.room b.known = .ok () ∧
      plan = a.toDraftPlan.scaffolded b.registry ∧ plan.validate b.room b.known = .ok () := by
  cases answer with
  | error text => cases h
  | ok a =>
    rw [judge] at h
    split at h
    · cases h
    · next hcan =>
      split at h
      · next plan' hprepare =>
        cases h
        obtain ⟨⟨⟩, hbefore, hprepare⟩ := bind_eq_ok.mp hprepare
        obtain ⟨⟨⟩, hafter, hprepare⟩ := bind_eq_ok.mp hprepare
        cases hprepare
        exact ⟨a, rfl, not_not.mp hcan, hbefore, rfl, hafter⟩
      · cases h
      · cases h

end Briefing

structure DecisionRow where
  runId : RowId
  decisionType : String := "cannot_plan"
  summary : String := "The organisation cannot serve this objective."
  reason : String
  supportingAgents : List String := ["ceo_agent"]
  deriving DecidableEq

inductive EventPayload
  | plan (taskCount : ℕ) (departments : List String) (dependencyCount : ℕ)
  | cannotPlan (reason : String)
  deriving DecidableEq

structure EventRow where
  runId : RowId
  eventType : String
  subjectType : String
  subjectId : Option RowId
  payload : EventPayload
  deriving DecidableEq

/-- What the planning threads write. -/
structure Ledger where
  tables : Tables
  statuses : Table RowId RunStatus
  decisions : List DecisionRow
  events : List EventRow

namespace Ledger

variable (L : Ledger) (b : Briefing) (runId : RowId)

def recordCannotPlan (reason : String) : Except Failure Ledger :=
  if ¬ NulFree reason then .error (.write (.data "organizational_decisions"))
  else .ok
    { L with
      statuses := L.statuses.modify runId fun _ ↦ .cannotPlan
      decisions := L.decisions ++ [{ runId, reason }]
      events := L.events ++
        [⟨runId, "organization.run.cannot_plan", "run", some runId, .cannotPlan reason⟩] }

def planCreated (tables : Tables) (plan : DraftPlan) : EventRow where
  runId := runId
  eventType := "organization.plan.created"
  subjectType := "plan"
  subjectId := (tables.runs.get? runId).bind OrganizationRun.planId
  payload := .plan plan.tasks.length plan.departments (plan.tasks.map (·.dependsOn.length)).sum

def recordPlan (run : OrganizationRun) (plan : DraftPlan) : Except Failure Ledger :=
  match plan.persist b.settings runId run L.tables with
  | .error error => .error (.write error)
  | .ok tables => .ok { L with tables, events := L.events ++ [planCreated runId tables plan] }

def generatePlan (run : OrganizationRun) : Except Failure Ledger :=
  match b.taskPrompt with
  | none => .error .setup
  | some taskPrompt =>
    match b.attempts taskPrompt maxPlanAttempts 1 "" with
    | .error error => .error (.check error)
    | .ok (.cannotPlan reason) => L.recordCannotPlan runId reason
    | .ok (.plan plan) => L.recordPlan b runId run plan

/-- `_plan_run` up to the hand-over to the engine. Nothing that an exception interrupts is committed. -/
def planRun : Ledger :=
  match L.statuses.get? runId, L.tables.runs.get? runId with
  | some .planning, some run =>
    match L.generatePlan b runId run with
    | .ok L => L
    | .error _ => { L with statuses := L.statuses.modify runId fun _ ↦ .failed }
  | _, _ => L

end Ledger

end TradingOS.Orchestration.Planner
