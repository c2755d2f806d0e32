import TradingOS.Sandbox.Worker
import Mathlib.Logic.Function.Basic

namespace TradingOS.Sandbox

open Function

abbrev ThreadId := ℕ

def maxJobsPerWorker : ℕ := 25

def chunkSize : ℕ := 65536

inductive PoolError
  | diedBeforeAccepting
  | exceededTimeoutOrDied
  | nonJsonOutput (response : List Byte)
  deriving DecidableEq

/-- How a call of `execute` ends. It raises when the job cannot be dumped, and when the line it
reads cannot be decoded or lacks a key. -/
inductive Outcome (ρ : Type)
  | failed (error : PoolError)
  | payloadRaised
  | outputRaised
  | result (r : RunnerResult ρ)
  deriving DecidableEq

structure Call where
  job : JobId
  worker : Worker
  sent : Bool
  received : List Byte

/-- The pool, the calls under way, what the runners have dumped for which job, and what the
calls have returned. -/
structure Pool (ρ : Type) where
  available : List Worker
  calls : ThreadId → Option Call
  nextJob : JobId
  reports : List (JobId × RunnerResult ρ)
  log : List (JobId × Outcome ρ)

/-- A stretch of a thread's call between two points where others can run, or a step of a worker
process. -/
inductive PoolEvent (ρ : Type)
  | idleWorker (index : ℕ) (event : WorkerEvent ρ)
  | busyWorker (thread : ThreadId) (event : WorkerEvent ρ)
  | checkout (thread : ThreadId)
  | payloadRaises (thread : ThreadId)
  | send (thread : ThreadId)
  | read (thread : ThreadId) (count : ℕ)
  | deadline (thread : ThreadId)
  | shutdown

namespace Pool

variable {ρ : Type} (codec : Codec ρ) (p : Pool ρ)

def init (size : ℕ) : Pool ρ := ⟨List.replicate size (.spawn false), fun _ ↦ none, 0, [], []⟩

/-- The worker of `_checkout`: the last one available, or one spawned on top of the pool's. -/
def nextWorker : Worker := p.available.getLast?.getD (.spawn true)

/-- `_checkin`; a retired worker is killed and gone. -/
def checkin (w : Worker) (healthy : Bool) : List Worker :=
  if w.isOverflow then p.available
  else if healthy = false ∨ maxJobsPerWorker ≤ w.jobsDone then
    p.available ++ [.spawn false]
  else p.available ++ [w]

def finish (thread : ThreadId) (job : JobId) (available : List Worker) (outcome : Outcome ρ) :
    Pool ρ :=
  { p with
    available := available
    calls := update p.calls thread none
    log := (job, outcome) :: p.log }

/-- `execute` with a line at hand. A worker whose line cannot be decoded is never checked in. -/
def complete (thread : ThreadId) (c : Call) (w : Worker) (line : List Byte) : Pool ρ :=
  let available := p.checkin { w with jobsDone := w.jobsDone + 1 } true
  match codec.loads line with
  | .undecodable => p.finish thread c.job p.available .outputRaised
  | .notJson => p.finish thread c.job available (.failed (.nonJsonOutput line))
  | .keysMissing => p.finish thread c.job available .outputRaised
  | .result r => p.finish thread c.job available (.result r)

/-- One turn of the loop of `_read_line_with_deadline`. What a chunk holds after the newline is
dropped. -/
def readChunk (thread : ThreadId) (c : Call) (count : ℕ) : Pool ρ :=
  let received := c.received ++ c.worker.pipe.take count
  let w := { c.worker with pipe := c.worker.pipe.drop count }
  if newline ∈ received then p.complete codec thread c w (received.takeWhile (· ≠ newline))
  else { p with calls := update p.calls thread (some { c with worker := w, received := received }) }

def step : PoolEvent ρ → Option (Pool ρ)
  | .idleWorker index event =>
    p.available[index]?.bind fun w ↦ (w.step codec event).map fun w' ↦
      { p with
        available := p.available.set index w'
        reports := (w.reported event).toList ++ p.reports }
  | .busyWorker thread event =>
    (p.calls thread).bind fun c ↦ (c.worker.step codec event).map fun w' ↦
      { p with
        calls := update p.calls thread (some { c with worker := w' })
        reports := (c.worker.reported event).toList ++ p.reports }
  | .checkout thread =>
    match p.calls thread with
    | none =>
      some { p with
        available := p.available.dropLast
        calls := update p.calls thread (some ⟨p.nextJob, p.nextWorker, false, []⟩)
        nextJob := p.nextJob + 1 }
    | some _ => none
  | .payloadRaises thread =>
    match p.calls thread with
    | some ⟨job, _, false, _⟩ => some (p.finish thread job p.available .payloadRaised)
    | _ => none
  | .send thread =>
    match p.calls thread with
    | some ⟨job, w, false, received⟩ =>
      if w.alive then
        let w := { w with inbox := w.inbox ++ [job] }
        some { p with calls := update p.calls thread (some ⟨job, w, true, received⟩) }
      else some (p.finish thread job (p.checkin w false) (.failed .diedBeforeAccepting))
    | _ => none
  | .read thread count =>
    match p.calls thread with
    | some ⟨job, w, true, received⟩ =>
      if w.pipe ≠ [] then
        if 0 < count ∧ count ≤ chunkSize then
          some (p.readChunk codec thread ⟨job, w, true, received⟩ count)
        else none
      else if w.alive then none
      else some (p.finish thread job (p.checkin w false) (.failed .exceededTimeoutOrDied))
    | _ => none
  | .deadline thread =>
    match p.calls thread with
    | some ⟨job, w, true, _⟩ =>
      some (p.finish thread job (p.checkin w false) (.failed .exceededTimeoutOrDied))
    | _ => none
  | .shutdown => some { p with available := [] }

end Pool

end TradingOS.Sandbox
