import Mathlib.Logic.Function.Basic
import TradingOS.Orchestration.TaskLifecycle

namespace TradingOS.Orchestration

open Lib Lib.Runs

/-- How one dispatch goes, as the worker that waits for it sees it. -/
inductive Attempt
  | reports (outcome : DispatchOutcome)
  | timesOut
  deriving DecidableEq

abbrev Outcomes := TaskId → ℕ → Attempt

inductive Stage
  | looping | finalizing | returned
  deriving DecidableEq

/-- `run_scheduler_loop` between two transactions: the tasks of the current batch that no
worker has taken, those a worker waits for, and the threads whose worker has given up. -/
structure Loop where
  db : Db
  runStatus : RunStatus
  stage : Stage
  safe : List TaskId
  serial : List TaskId
  running : List TaskId
  orphans : List TaskId
  attempts : TaskId → ℕ

inductive LoopEvent
  | poll
  | execute
  | conclude (tid : TaskId)
  | orphanReport (tid : TaskId) (outcome : DispatchOutcome)
  | finalize (undispositioned : ℕ) (pendingApproval : Bool)
  deriving DecidableEq

def Db.afterAttempt (db : Db) (tid : TaskId) : Attempt → Db
  | .reports outcome => db.runDispatchAndComplete tid outcome
  | .timesOut => db.handleTaskTimeout tid

def Db.isConcurrencySafe (db : Db) (tid : TaskId) : Bool :=
  (db.tasks.get? tid).any (·.isConcurrencySafe)

namespace Loop

def start (s : Loop) (tid : TaskId) : Loop :=
  match s.db.claim tid with
  | some db => { s with db := db, running := tid :: s.running }
  | none => s

def poll (s : Loop) : Loop :=
  let (db, ready) := s.db.readyTasks
  if ready = [] then { s with db := db, stage := .finalizing }
  else
    { s with
      db := db
      safe := ready.filter fun tid ↦ db.isConcurrencySafe tid
      serial := ready.filter fun tid ↦ ¬ db.isConcurrencySafe tid }

def conclude (outcomes : Outcomes) (s : Loop) (tid : TaskId) : Loop :=
  let attempt := outcomes tid (s.attempts tid)
  { s with
    db := s.db.afterAttempt tid attempt
    running := s.running.erase tid
    orphans := if attempt = .timesOut then tid :: s.orphans else s.orphans
    attempts := Function.update s.attempts tid (s.attempts tid + 1) }

/-- The safe tasks of a batch share the thread pool, the others follow one by one. -/
def step (outcomes : Outcomes) (poolSize : ℕ) (s : Loop) : LoopEvent → Option Loop
  | .poll =>
    if s.stage = .looping ∧ s.safe = [] ∧ s.serial = [] ∧ s.running = [] then some s.poll
    else none
  | .execute =>
    match s.safe, s.serial with
    | tid :: rest, _ =>
      if s.running.length < poolSize then some ({ s with safe := rest }.start tid) else none
    | [], tid :: rest =>
      if s.running = [] then some ({ s with serial := rest }.start tid) else none
    | [], [] => none
  | .conclude tid => if tid ∈ s.running then some (s.conclude outcomes tid) else none
  | .orphanReport tid outcome =>
    if tid ∈ s.orphans then
      some
        { s with
          db := s.db.runDispatchAndComplete tid outcome
          orphans := s.orphans.erase tid }
    else none
  | .finalize undispositioned pendingApproval =>
    if s.stage = .finalizing then
      some
        { s with
          runStatus := (s.db.finalize undispositioned pendingApproval).1.getD s.runStatus
          stage := .returned }
    else none

end Loop

/-- What the planner persists: every task planned, every dependency hard, unsatisfied and
between tasks of the plan. -/
structure Plan where
  db : Db
  planned : ∀ t ∈ db.tasks.values, t.status = .planned
  hard : ∀ d ∈ db.deps, d.policy = .hard ∧ d.state = .unsatisfied
  dependent_mem : ∀ d ∈ db.deps, d.dependentTaskId ∈ db.tasks.keys
  prerequisite_mem : ∀ d ∈ db.deps, d.prerequisiteTaskId ∈ db.tasks.keys

def Plan.begin (p : Plan) : Loop where
  db := p.db
  runStatus := .running
  stage := .looping
  safe := []
  serial := []
  running := []
  orphans := []
  attempts := fun _ ↦ 0

def OrphanHarmless (s : Loop) : LoopEvent → Loop → Prop
  | .orphanReport tid outcome, _ =>
    ∀ task, s.db.tasks.get? tid = some task → task.status.isTerminal → outcome.HarmlessFor task
  | _, _ => True

end TradingOS.Orchestration
