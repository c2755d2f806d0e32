import Mathlib.Logic.Function.Basic
import TradingOS.Orchestration.TaskLifecycle

namespace TradingOS.Orchestration

open Lib Lib.Runs

inductive ArtefactDisposition
  | informational | consumed
  deriving DecidableEq

/-- A row of the artefacts table; `dispatch` names the dispatch that inserted it. -/
structure ResultArtefact where
  id : ℕ
  taskId : TaskId
  artefactType : String
  version : ℕ
  inputs : List ℕ
  disposition : ArtefactDisposition
  consumedByTaskIds : List TaskId
  dispatch : ℕ
  deriving DecidableEq

/-- One run of `_run_dispatch_and_complete`. -/
structure Dispatch where
  id : ℕ
  taskId : TaskId
  deriving DecidableEq

def ResultArtefact.origin (a : ResultArtefact) : Dispatch := ⟨a.dispatch, a.taskId⟩

/-- The rows, the dispatch threads that have not reported yet, and the dispatches whose
conditional update to `completed` has succeeded. -/
structure ArtefactEngine where
  db : Db
  artefacts : List ResultArtefact
  resultArtefactId : TaskId → Option ℕ
  dispatches : List Dispatch
  started : ℕ
  completions : List Dispatch

inductive ArtefactEvent
  | readyTasks
  | claim (tid : TaskId)
  | report (x : Dispatch) (outcome : DispatchOutcome) (artefactType : String)
  | timeout (tid : TaskId)
  | cancelRun
  deriving DecidableEq

namespace ArtefactEngine

def upstreamArtefacts (s : ArtefactEngine) (tid : TaskId) : List ResultArtefact :=
  let depTaskIds := (s.db.deps.filter (·.dependentTaskId = tid)).map (·.prerequisiteTaskId)
  s.artefacts.filter (·.taskId ∈ depTaskIds)

def markConsumed (byTaskId : TaskId) (a : ResultArtefact) : ResultArtefact :=
  { a with
    disposition := .consumed
    consumedByTaskIds :=
      if byTaskId ∈ a.consumedByTaskIds then a.consumedByTaskIds
      else a.consumedByTaskIds ++ [byTaskId] }

def nextVersion (artefacts : List ResultArtefact) (tid : TaskId) (artefactType : String) : ℕ :=
  let prior := artefacts.filter fun a ↦ a.taskId = tid ∧ a.artefactType = artefactType
  (prior.map (·.version)).foldr max 0 + 1

/-- What the transaction of a dispatch has written before its conditional update. -/
def dispatch (s : ArtefactEngine) (x : Dispatch) (artefactType : String) : ArtefactEngine :=
  let upstream := (s.upstreamArtefacts x.taskId).map (·.id)
  let artefacts := s.artefacts.map fun a ↦ if a.id ∈ upstream then markConsumed x.taskId a else a
  let artefact : ResultArtefact :=
    { id := artefacts.length
      taskId := x.taskId
      artefactType := artefactType
      version := nextVersion artefacts x.taskId artefactType
      inputs := upstream
      disposition := .informational
      consumedByTaskIds := []
      dispatch := x.id }
  { s with
    artefacts := artefacts ++ [artefact]
    resultArtefactId := Function.update s.resultArtefactId x.taskId (some artefact.id) }

/-- The transaction ends in a rollback where the conditional update matches no row, and where
the dispatch raises; the handlers write in transactions of their own. -/
def runDispatchAndComplete (s : ArtefactEngine) (x : Dispatch) (outcome : DispatchOutcome)
    (artefactType : String) : ArtefactEngine :=
  match outcome with
  | .success =>
    let written := s.dispatch x artefactType
    if written.db.statusOf x.taskId = some .running then
      { written with
        db := (written.db.modifyTask x.taskId fun t ↦ { t with status := .completed })
          |>.evaluateOnCompletion x.taskId
        completions := s.completions ++ [x] }
    else s
  | outcome => { s with db := s.db.runDispatchAndComplete x.taskId outcome }

/-- One transaction, in whatever order they come: the loop takes some of these orders. -/
def step (s : ArtefactEngine) : ArtefactEvent → Option ArtefactEngine
  | .readyTasks => some { s with db := s.db.readyTasks.1 }
  | .claim tid =>
    match s.db.claim tid with
    | some db =>
      some
        { s with
          db := db
          dispatches := ⟨s.started, tid⟩ :: s.dispatches
          started := s.started + 1 }
    | none => some s
  | .report x outcome artefactType =>
    if x ∈ s.dispatches then
      some
        { s.runDispatchAndComplete x outcome artefactType with
          dispatches := s.dispatches.erase x }
    else none
  | .timeout tid => some { s with db := s.db.handleTaskTimeout tid }
  | .cancelRun => some { s with db := s.db.cancelTasks }

theorem runDispatchAndComplete_of_running {s : ArtefactEngine} {x : Dispatch}
    (h : s.db.statusOf x.taskId = some .running) (artefactType : String) :
    s.runDispatchAndComplete x .success artefactType =
      { s.dispatch x artefactType with
        db := (s.db.modifyTask x.taskId fun t ↦ { t with status := .completed })
          |>.evaluateOnCompletion x.taskId
        completions := s.completions ++ [x] } := if_pos h

/-- A result that comes late leaves nothing behind. -/
theorem runDispatchAndComplete_of_not_running {s : ArtefactEngine} {x : Dispatch}
    (h : s.db.statusOf x.taskId ≠ some .running) (artefactType : String) :
    s.runDispatchAndComplete x .success artefactType = s := if_neg h

theorem dispatch_origins (s : ArtefactEngine) (x : Dispatch) (artefactType : String) :
    (s.dispatch x artefactType).artefacts.map ResultArtefact.origin =
      s.artefacts.map ResultArtefact.origin ++ [x] := by
  simp only [dispatch, List.map_append, List.map_map, List.map_cons, List.map_nil]
  congr 1
  refine List.map_congr_left fun a _ ↦ ?_
  simp only [Function.comp_apply]
  split <;> rfl

end ArtefactEngine

end TradingOS.Orchestration
