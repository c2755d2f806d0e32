import TradingOS.Orchestration.Events

namespace TradingOS.Orchestration

open Lib Lib.Runs Lib.Locks

/-- `_CHAIN_LOCK_KEY`. -/
def chainLockKey : LockKey := 4915200000001

theorem eventLockKey_ne_chainLockKey (hashtext : String → BitVec 32) (runId : RunId) :
    eventLockKey hashtext runId ≠ chainLockKey := by
  intro h
  have hlt := (hashtext s!"org-event-seq:{runId}").toInt_lt
  rw [eventLockKey, chainLockKey] at h
  rw [h] at hlt
  exact absurd hlt (by decide)

/-- Under the lock: read the last hash, insert the row. -/
def writeAuditEntry : Program LockKey := [.lock chainLockKey, .work, .work]

section Transactions

variable (hashtext : String → BitVec 32)

/-- Under the lock: read the last number, insert the row. -/
def emit (runId : RunId) (audited : Bool) : Program LockKey :=
  [.lock (eventLockKey hashtext runId), .work, .work] ++ if audited then writeAuditEntry else []

/-- What the reads find decides whether the run is `settled` here. -/
def settleRunAfterApproval (runId : RunId) (settled : Bool) : Program LockKey :=
  [.work, .work, .work] ++ if settled then emit hashtext runId true else []

def decideRequest (runId : Option RunId) (settled : Bool) : Program LockKey :=
  [.work, .work] ++ writeAuditEntry ++
    match runId with
    | none => [.work]
    | some runId => emit hashtext runId false ++ .work :: settleRunAfterApproval hashtext runId settled

def approve (runId : Option RunId) (settled : Bool) : Program LockKey :=
  decideRequest hashtext runId settled

def reject (runId : Option RunId) (settled : Bool) : Program LockKey :=
  decideRequest hashtext runId settled

/-- `agent_invoker.dispatch`: a call that fell back to another provider is reported first. -/
def dispatch (runId : RunId) (fellBack : Bool) : Program LockKey :=
  .work :: ((if fellBack then emit hashtext runId true else []) ++ .work :: emit hashtext runId true)

/-- The transaction of `_run_dispatch_and_complete`; without the claim it is rolled back, and with
it `evaluate_on_completion` emits for the dependencies and the tasks that it wakes. -/
def runDispatchAndComplete (runId : RunId) (fellBack claimed : Bool) (evaluated : ℕ) :
    Program LockKey :=
  .work :: (dispatch hashtext runId fellBack ++ .work ::
    if claimed then
      emit hashtext runId true ++ .work ::
        (List.replicate evaluated (emit hashtext runId false)).flatten
    else [])

end Transactions

/-- What a transaction is built from, with what the reads of each part find. -/
inductive TransactionPart
  | emit (runId : RunId) (audited : Bool)
  | writeAuditEntry
  | approve (runId : Option RunId) (settled : Bool)
  | reject (runId : Option RunId) (settled : Bool)
  | complete (runId : RunId) (fellBack claimed : Bool) (evaluated : ℕ)

def TransactionPart.program (hashtext : String → BitVec 32) : TransactionPart → Program LockKey
  | .emit runId audited => Orchestration.emit hashtext runId audited
  | .writeAuditEntry => Orchestration.writeAuditEntry
  | .approve runId settled => Orchestration.approve hashtext runId settled
  | .reject runId settled => Orchestration.reject hashtext runId settled
  | .complete runId fellBack claimed evaluated =>
    runDispatchAndComplete hashtext runId fellBack claimed evaluated

def transaction (hashtext : String → BitVec 32) (parts : List TransactionPart) : Program LockKey :=
  parts.flatMap (TransactionPart.program hashtext)

/-- An audited event takes its run's lock first, a decision the chain's. -/
theorem emit_crosses_decideRequest (hashtext : String → BitVec 32) (runId : RunId) (settled : Bool) :
    System.Crosses (emit hashtext runId true) (decideRequest hashtext (some runId) settled)
      (eventLockKey hashtext runId) chainLockKey := by
  have hne := eventLockKey_ne_chainLockKey hashtext runId
  have hfirst : (emit hashtext runId true).locksBefore chainLockKey =
      [.lock (eventLockKey hashtext runId), .work, .work] := by
    simp [emit, writeAuditEntry, Program.locksBefore, hne]
  have hsecond : (decideRequest hashtext (some runId) settled).locksBefore
      (eventLockKey hashtext runId) = [.work, .work, .lock chainLockKey, .work, .work] := by
    simp [decideRequest, emit, writeAuditEntry, Program.locksBefore, hne.symm]
  refine ⟨?_, ?_, ?_, ?_, ?_⟩
  · simp [hfirst]
  · simp [emit, writeAuditEntry]
  · simp [hsecond]
  · simp [decideRequest, emit]
  · simp [hfirst, hsecond, hne]

/-- No two transactions ever hold one of a run's event lock and the chain lock and wait for the
other exactly if no two of them take the two locks in opposite orders, with no lock in common
that the both of them take before. -/
theorem lock_order_consistent_iff (hashtext : String → BitVec 32) {ι : Type*} [DecidableEq ι]
    (transactions : ι → List TransactionPart) :
    (∀ ls s, Run System.step (System.init fun i ↦ transaction hashtext (transactions i)) ls s →
        ∀ runId i j, ¬ s.CrossWait i j (eventLockKey hashtext runId) chainLockKey) ↔
      ∀ runId i j, i ≠ j → ¬ System.Crosses (transaction hashtext (transactions i))
        (transaction hashtext (transactions j)) (eventLockKey hashtext runId) chainLockKey := by
  constructor
  · intro h runId
    refine (System.no_crossWait_iff _ _ _).mp fun ls s hrun i j ↦ h ls s hrun runId i j
  · intro h ls s hrun runId i j
    exact (System.no_crossWait_iff _ _ _).mpr (h runId) ls s hrun i j

/-- An audited event of a run, and the approval of a request of the same run. -/
def eventAndApproval : Fin 2 → List TransactionPart
  | 0 => [.emit 7 true]
  | 1 => [.approve (some 7) false]

def eventAndApprovalRun : List (Fin 2 × Move) :=
  [(0, .advance), (0, .advance), (0, .advance), (1, .advance), (1, .advance), (1, .advance),
    (1, .advance), (1, .advance)]

def eventAndApprovalEnd : System LockKey (Fin 2) :=
  (exec System.step (System.init fun i ↦ transaction EventStore.sumOfCodes (eventAndApproval i))
    eventAndApprovalRun).get (by decide +kernel)

/-- The event holds the run's lock and asks for the chain's, the approval the other way round. -/
theorem event_and_approval_deadlock :
    Run System.step (System.init fun i ↦ transaction EventStore.sumOfCodes (eventAndApproval i))
        eventAndApprovalRun eventAndApprovalEnd ∧
      eventAndApprovalEnd.CrossWait 0 1 (eventLockKey EventStore.sumOfCodes 7) chainLockKey := by
  have hwaits : eventAndApprovalEnd.rest 0 = .lock chainLockKey :: [.work, .work] ∧
      eventAndApprovalEnd.rest 1 =
        .lock (eventLockKey EventStore.sumOfCodes 7) :: [.work, .work, .work, .work, .work, .work] := by
    decide +kernel
  refine ⟨exec_eq_some.mp (Option.some_get (by decide +kernel)).symm, ?_⟩
  refine ⟨by decide +kernel, by decide +kernel, ⟨⟨_, hwaits.1⟩, ?_⟩, ⟨⟨_, hwaits.2⟩, ?_⟩⟩
  · decide +kernel
  · decide +kernel

end TradingOS.Orchestration
