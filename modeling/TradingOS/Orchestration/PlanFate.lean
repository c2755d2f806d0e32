import TradingOS.Orchestration.SchedulerLoop

namespace TradingOS.Orchestration

open Lib Lib.Runs

structure Standing where
  capability : String
  assignedAgent : String
  retryCount : ℕ
  maxRetries : ℕ

def Task.standing (t : Task) : Standing :=
  ⟨t.capability, t.assignedAgent, t.retryCount, t.maxRetries⟩

/-- What one attempt makes of a running task: its last status, or what it goes on with. -/
def Standing.conclude (x : Standing) : Attempt → TaskStatus ⊕ Standing
  | .timesOut => .inl .failed
  | .reports .success => .inl .completed
  | .reports (.dataStale _) => .inl .blocked
  | .reports (.raised _) =>
    if x.retryCount < x.maxRetries then .inr { x with retryCount := x.retryCount + 1 }
    else .inl .failed
  | .reports (.agentUnavailable _ registry) =>
    match Db.replacements registry x.capability x.assignedAgent with
    | newAgent :: _ => .inr { x with assignedAgent := newAgent }
    | [] => .inl .escalated

/-- The status a task that is let run ends in, from its `n`-th dispatch on. -/
inductive Settles (attempts : ℕ → Attempt) : Standing → ℕ → TaskStatus → Prop
  | done {x : Standing} {n : ℕ} {st : TaskStatus} :
      x.conclude (attempts n) = .inl st → Settles attempts x n st
  | again {x y : Standing} {n : ℕ} {st : TaskStatus} :
      x.conclude (attempts n) = .inr y → Settles attempts y (n + 1) st → Settles attempts x n st

variable {attempts : ℕ → Attempt} {x y : Standing} {n : ℕ} {st : TaskStatus}

theorem settles_of_inl {st' : TaskStatus} (h : x.conclude (attempts n) = .inl st) :
    Settles attempts x n st' ↔ st' = st := by
  constructor
  · intro hs
    cases hs with
    | done h' => exact Sum.inl.inj (h'.symm.trans h)
    | again h' => cases h'.symm.trans h
  · rintro rfl
    exact .done h

theorem settles_of_inr (h : x.conclude (attempts n) = .inr y) :
    Settles attempts x n st ↔ Settles attempts y (n + 1) st := by
  constructor
  · intro hs
    cases hs with
    | done h' => cases h'.symm.trans h
    | again h' hs =>
      obtain rfl := Sum.inr.inj (h'.symm.trans h)
      exact hs
  · exact .again h

theorem Settles.unique {st' : TaskStatus} (h : Settles attempts x n st)
    (h' : Settles attempts x n st') : st = st' := by
  induction h with
  | done hc => exact ((settles_of_inl hc).mp h').symm
  | again hc _ ih => exact ih ((settles_of_inr hc).mp h')

namespace Plan

variable (p : Plan) (o : Outcomes)

def OwnFate (tid : TaskId) (st : TaskStatus) : Prop :=
  ∃ t, p.db.tasks.get? tid = some t ∧ Settles (o tid) t.standing 0 st

/-- The tasks that succeed on top of prerequisites that do. -/
inductive Completes : TaskId → Prop
  | intro {tid : TaskId} : p.OwnFate o tid .completed →
      (∀ d ∈ p.db.deps, d.dependentTaskId = tid → Completes d.prerequisiteTaskId) → Completes tid

/-- All prerequisites complete, the task itself does not. -/
def FailsItself (tid : TaskId) : Prop :=
  (∃ st, st ≠ .completed ∧ p.OwnFate o tid st) ∧
    ∀ d ∈ p.db.deps, d.dependentTaskId = tid → p.Completes o d.prerequisiteTaskId

variable {p o} {tid : TaskId}

theorem OwnFate.unique {st st' : TaskStatus} (h : p.OwnFate o tid st) (h' : p.OwnFate o tid st') :
    st = st' := by
  obtain ⟨t, ht, hs⟩ := h
  obtain ⟨t', ht', hs'⟩ := h'
  obtain rfl := Option.some.inj (ht.symm.trans ht')
  exact hs.unique hs'

theorem OwnFate.mem_keys {st : TaskStatus} (h : p.OwnFate o tid st) : tid ∈ p.db.tasks.keys := by
  obtain ⟨t, ht, -⟩ := h
  by_contra hn
  cases ht.symm.trans (p.db.tasks.get?_eq_none.mpr hn)

theorem Completes.not_failsItself (h : p.Completes o tid) : ¬ p.FailsItself o tid := by
  rintro ⟨⟨st, hne, hst⟩, -⟩
  obtain ⟨hfate, -⟩ := h
  exact hne (hst.unique hfate)

/-- A task whose failure nobody but its direct dependents has to be told of. -/
def Accounted (p : Plan) (o : Outcomes) (tid : TaskId) : Prop :=
  p.Completes o tid ∨ p.FailsItself o tid ∨
    ∃ d ∈ p.db.deps, d.dependentTaskId = tid ∧ p.FailsItself o d.prerequisiteTaskId

end Plan

end TradingOS.Orchestration
