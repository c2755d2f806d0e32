import Mathlib.Algebra.Order.BigOperators.Group.List
import Mathlib.Data.PNat.Basic
import TradingOS.Orchestration.DispatchOnce
import TradingOS.Orchestration.PlanFate
import TradingOS.Orchestration.PlanPersistence

namespace TradingOS.Orchestration

open Lib Lib.Runs Planner

/-- What a dispatch runs into that the agent's availability does not decide. -/
inductive Response
  | success
  | dataStale (dataset : String)
  | raised (error : String)
  deriving DecidableEq

def Response.outcome : Response → DispatchOutcome
  | .success => .success
  | .dataStale dataset => .dataStale dataset
  | .raised error => .raised error

section Agents

variable (isAgentEnabled : String → Bool)

/-- The columns of a snapshot that a reassignment reads. -/
def registry : List AgentSnapshotRow :=
  (snapshot isAgentEnabled).map fun row ↦ ⟨row.name, row.capabilities, row.enabled⟩

/-- Why `agent_invoker.dispatch` turns an agent away, before it looks at anything else. -/
def unavailability (agent : String) : Option String :=
  if agent ∉ agentMeta.map Prod.fst then some s!"unknown agent '{agent}'"
  else if ¬ isAgentEnabled agent then some s!"agent '{agent}' is administratively disabled"
  else none

/-- An error can come at any point of the dispatch, on the way to that check too. -/
def Task.dispatch (task : Task) (response : Response) : DispatchOutcome :=
  match response, unavailability isAgentEnabled task.assignedAgent with
  | .raised error, _ => .raised error
  | _, some error => .agentUnavailable error (registry isAgentEnabled)
  | response, none => response.outcome

/-- Nothing but the report of a dispatch reassigns its task, so that the agent is still the one it
was for. The failed assertion that the task exists is an error as any other. -/
def Db.respond (db : Db) (tid : TaskId) (response : Response) : DispatchOutcome :=
  match db.tasks.get? tid with
  | none => .raised ""
  | some task => task.dispatch isAgentEnabled response

end Agents

inductive Reply
  | responds (response : Response)
  | timesOut
  deriving DecidableEq

/-- The reply to each dispatch of each task. -/
abbrev Replies := TaskId → ℕ → Reply

def Db.outcomes (isAgentEnabled : String → Bool) (db : Db) (replies : Replies) : Outcomes :=
  fun tid n ↦
    match replies tid n with
    | .responds response => .reports (db.respond isAgentEnabled tid response)
    | .timesOut => .timesOut

/-- What can happen to a loop while nobody enables or disables an agent. -/
inductive LoopAction
  | poll
  | execute
  | conclude (tid : TaskId)
  | orphanReport (tid : TaskId) (response : Response)
  | finalize (undispositioned : ℕ) (pendingApproval : Bool)
  deriving DecidableEq

/-- The threads that the loop has given up on are not waited for. -/
def LoopAction.isOwn : LoopAction → Bool
  | .orphanReport .. => false
  | _ => true

def LoopAction.event (isAgentEnabled : String → Bool) (db : Db) : LoopAction → LoopEvent
  | .poll => .poll
  | .execute => .execute
  | .conclude tid => .conclude tid
  | .orphanReport tid response => .orphanReport tid (db.respond isAgentEnabled tid response)
  | .finalize undispositioned pendingApproval => .finalize undispositioned pendingApproval

def Loop.act (isAgentEnabled : String → Bool) (replies : Replies) (poolSize : ℕ) (s : Loop)
    (action : LoopAction) : Option Loop :=
  s.step (s.db.outcomes isAgentEnabled replies) poolSize (action.event isAgentEnabled s.db)

/-- The times a task has been claimed: the dispatches that are over, and the one under way. -/
def Loop.dispatches (s : Loop) (tid : TaskId) : ℕ := s.attempts tid + s.running.count tid

section Chances

variable (isAgentEnabled : String → Bool)

/-- How often a task can still be claimed: once for each retry, once for a reassignment if its
agent is not there, and once if it is still to be. -/
def Task.chances (t : Task) : ℕ :=
  (t.maxRetries - t.retryCount) + (if unavailability isAgentEnabled t.assignedAgent = none then 0 else 1) +
    if t.status.isSpent then 0 else 1

def Db.chances (db : Db) (tid : TaskId) : ℕ :=
  ((db.tasks.get? tid).map (Task.chances isAgentEnabled)).getD 0

/-- No task gains a chance, and one that was ready still is or has lost one. -/
structure Db.Spends (db db' : Db) : Prop where
  keys : db'.tasks.keys = db.tasks.keys
  le : ∀ k, db'.chances isAgentEnabled k ≤ db.chances isAgentEnabled k
  ready : ∀ k, db.statusOf k = some .ready →
    db'.statusOf k = some .ready ∨ db'.chances isAgentEnabled k < db.chances isAgentEnabled k

end Chances

variable {isAgentEnabled : String → Bool}

theorem dispatch_agentUnavailable {task : Task} {response : Response} {error : String}
    {rows : List AgentSnapshotRow}
    (h : task.dispatch isAgentEnabled response = .agentUnavailable error rows) :
    rows = registry isAgentEnabled ∧ unavailability isAgentEnabled task.assignedAgent ≠ none := by
  cases hgate : unavailability isAgentEnabled task.assignedAgent with
  | none => cases response <;> simp [Task.dispatch, hgate, Response.outcome] at h
  | some reason => cases response <;> simp_all [Task.dispatch]

theorem unavailability_of_mem_registry {row : AgentSnapshotRow}
    (h : row ∈ registry isAgentEnabled) (henabled : row.enabled) :
    unavailability isAgentEnabled row.name = none := by
  simp only [registry, snapshot, List.map_map, List.mem_map, Function.comp_apply] at h
  obtain ⟨entry, hentry, rfl⟩ := h
  have hknown : entry.1 ∈ agentMeta.map Prod.fst := List.mem_map_of_mem hentry
  have hon : isAgentEnabled entry.1 := henabled
  simp only [unavailability, hknown, hon, not_true, if_false]

/-- Whoever takes a task over is there. -/
theorem unavailability_of_replacements {capability oldAgent newAgent : String} {rest : List String}
    (h : Db.replacements (registry isAgentEnabled) capability oldAgent = newAgent :: rest) :
    unavailability isAgentEnabled newAgent = none := by
  have hmem : newAgent ∈ Db.replacements (registry isAgentEnabled) capability oldAgent :=
    h ▸ List.mem_cons_self
  obtain ⟨row, hrow, hname⟩ := List.mem_map.mp (List.mem_filter.mp hmem).1
  obtain ⟨hrow, hfits⟩ := List.mem_filter.mp hrow
  rw [← hname]
  exact unavailability_of_mem_registry hrow (of_decide_eq_true hfits).2

namespace Task

variable (isAgentEnabled) in
/-- What happens to a task gives it no chance back, and takes it from `ready` at the price of one. -/
def Spends (t t' : Task) : Prop :=
  t'.chances isAgentEnabled ≤ t.chances isAgentEnabled ∧
    (t.status = .ready →
      t'.status = .ready ∨ t'.chances isAgentEnabled < t.chances isAgentEnabled)

theorem Spends.refl (t : Task) : Spends isAgentEnabled t t := ⟨le_rfl, .inl⟩

variable {t t' : Task}

theorem spends_of_le (h : t'.chances isAgentEnabled ≤ t.chances isAgentEnabled)
    (hready : t.status ≠ .ready) : Spends isAgentEnabled t t' :=
  ⟨h, fun he ↦ absurd he hready⟩

theorem spends_of_lt (h : t'.chances isAgentEnabled < t.chances isAgentEnabled) :
    Spends isAgentEnabled t t' :=
  ⟨h.le, fun _ ↦ .inr h⟩

/-- A task that comes to its end. -/
theorem spends_of_isTerminal (hstanding : t'.standing = t.standing)
    (hterm : t'.status.isTerminal) : Spends isAgentEnabled t t' := by
  simp only [standing, Standing.mk.injEq] at hstanding
  obtain ⟨-, hagent, hretry, hmax⟩ := hstanding
  have hspent := TaskStatus.isSpent_of_isTerminal hterm
  refine ⟨?_, fun hready ↦ .inr ?_⟩
  · simp only [chances, hagent, hretry, hmax, hspent, if_true]
    omega
  · have hopen : t.status.isSpent = false := by rw [hready]; rfl
    simp only [chances, hagent, hretry, hmax, hspent, hopen, if_true, Bool.false_eq_true, if_false]
    omega

end Task

namespace Db

variable {db db' db'' : Db} {tid : TaskId}

theorem Spends.refl (db : Db) : db.Spends isAgentEnabled db :=
  ⟨rfl, fun _ ↦ le_rfl, fun _ ↦ .inl⟩

theorem Spends.trans (h : db.Spends isAgentEnabled db') (h' : db'.Spends isAgentEnabled db'') :
    db.Spends isAgentEnabled db'' where
  keys := h'.keys.trans h.keys
  le k := (h'.le k).trans (h.le k)
  ready k hk := by
    rcases h.ready k hk with hready | hlt
    · exact (h'.ready k hready).imp_right fun hlt ↦ hlt.trans_le (h.le k)
    · exact .inr ((h'.le k).trans_lt hlt)

theorem spends_of_map {f : TaskId → Task → Task} (hdb' : db'.tasks = db.tasks.mapVals f)
    (hf : ∀ k t, db.tasks.get? k = some t → t.Spends isAgentEnabled (f k t)) :
    db.Spends isAgentEnabled db' := by
  have hget (k : TaskId) : db'.tasks.get? k = (db.tasks.get? k).map (f k) := by
    rw [hdb', Table.get?_mapVals]
  refine ⟨by rw [hdb', Table.keys_mapVals], fun k ↦ ?_, fun k hk ↦ ?_⟩
  · simp only [chances, hget]
    cases ht : db.tasks.get? k with
    | none => exact le_rfl
    | some t => exact (hf k t ht).1
  · obtain ⟨t, ht, hready⟩ := statusOf_eq_some.mp hk
    simp only [chances, statusOf, hget, ht, Option.map_some, Option.getD_some, Option.some.injEq]
    exact (hf k t ht).2 hready

theorem spends_modifyTask {f : Task → Task}
    (hf : ∀ t, db.tasks.get? tid = some t → t.Spends isAgentEnabled (f t)) :
    db.Spends isAgentEnabled (db.modifyTask tid f) := by
  refine spends_of_map (f := fun k t ↦ if k = tid then f t else t) rfl fun k t ht ↦ ?_
  split_ifs with hk
  · exact hf t (hk ▸ ht)
  · exact .refl t

theorem spends_fail {f : Task → Task}
    (hf : ∀ t, (f t).standing = t.standing ∧ (f t).status.isTerminal) (capability reason : String) :
    db.Spends isAgentEnabled ((db.modifyTask tid f).markUnsatisfiable tid capability reason) := by
  have hown : db.Spends isAgentEnabled (db.modifyTask tid f) :=
    spends_modifyTask fun t _ ↦ Task.spends_of_isTerminal (hf t).1 (hf t).2
  refine hown.trans (spends_of_map rfl fun k t _ ↦ ?_)
  simp only [block]
  split_ifs
  · exact Task.spends_of_isTerminal rfl rfl
  · exact .refl t

theorem spends_readyTasks (hstarted : db.Started) : db.Spends isAgentEnabled db.readyTasks.1 := by
  refine spends_of_map rfl fun k t ht ↦ ?_
  simp only [settle]
  split_ifs with hcand hsat
  · have hopen := TaskStatus.isSpent_of_isCandidate hcand
    refine ⟨?_, fun _ ↦ .inl rfl⟩
    simp only [Task.chances, hopen]
    exact le_rfl
  · have hopen := TaskStatus.isSpent_of_isCandidate hcand
    refine Task.spends_of_le ?_ fun hready ↦ hsat ?_
    · simp only [Task.chances, hopen]
      exact le_rfl
    · exact hstarted k .ready (statusOf_eq_some.mpr ⟨t, ht, hready⟩) (.inl rfl)
  · exact .refl t

theorem chances_claim (hclaim : db.claim tid = some db') :
    db'.chances isAgentEnabled tid + 1 = db.chances isAgentEnabled tid := by
  obtain ⟨hready, rfl⟩ := claim_eq_some.mp hclaim
  obtain ⟨t, ht, hst⟩ := statusOf_eq_some.mp hready
  have hopen : t.status.isSpent = false := by rw [hst]; rfl
  have hspent : TaskStatus.running.isSpent = true := rfl
  simp only [chances, modifyTask_get?, ht, if_true, Option.map_some, Option.getD_some,
    Task.chances, hopen, hspent, Bool.false_eq_true, if_false]

theorem spends_claim (hclaim : db.claim tid = some db') : db.Spends isAgentEnabled db' := by
  have hlt : db'.chances isAgentEnabled tid < db.chances isAgentEnabled tid := by
    rw [← chances_claim hclaim]
    exact Nat.lt_succ_self _
  obtain ⟨hready, rfl⟩ := claim_eq_some.mp hclaim
  refine spends_modifyTask fun t ht ↦ Task.spends_of_lt ?_
  simpa only [chances, modifyTask_get?, ht, if_true, Option.map_some, Option.getD_some] using hlt

theorem spends_handleTaskTimeout (db : Db) (tid : TaskId) :
    db.Spends isAgentEnabled (db.handleTaskTimeout tid) := by
  simp only [handleTaskTimeout]
  split
  · exact .refl db
  · split_ifs
    · refine spends_fail (fun t ↦ ?_) _ _
      exact ⟨rfl, rfl⟩
    · exact .refl db

theorem spends_evaluateOnCompletion (hhard : ∀ d ∈ db.deps, d.policy = .hard)
    (hrunning : ∀ k, db.statusOf k = some .running → db.hardSatisfied k) :
    db.Spends isAgentEnabled (db.evaluateOnCompletion tid) := by
  refine spends_of_map rfl fun k t ht ↦ ?_
  rcases db.wake_cases tid k t with hw | ⟨hw, hterm, -, d, hd, hby, hdep⟩
  · rw [hw]
    exact .refl t
  · have hwaits : t.status ≠ .running := by
      intro he
      have hsat := hrunning k (statusOf_eq_some.mpr ⟨t, ht, he⟩)
      exact not_satisfiedBy hhard hsat hd hdep hby
    have hopen : t.status.isSpent = false := by simp [TaskStatus.isSpent, hwaits, hterm]
    have hready : TaskStatus.ready.isSpent = false := rfl
    rw [hw]
    refine ⟨?_, fun _ ↦ .inl rfl⟩
    simp only [Task.chances, hopen, hready]
    exact le_rfl

theorem spends_complete (hhard : ∀ d ∈ db.deps, d.policy = .hard) (hstarted : db.Started) :
    db.Spends isAgentEnabled
      ((db.modifyTask tid fun t ↦ { t with status := .completed }).evaluateOnCompletion tid) := by
  have hown : db.Spends isAgentEnabled
      (db.modifyTask tid fun t ↦ { t with status := .completed }) :=
    spends_modifyTask fun t _ ↦ Task.spends_of_isTerminal rfl rfl
  refine hown.trans (spends_evaluateOnCompletion hhard fun k hk ↦ ?_)
  have hne : k ≠ tid := by
    rintro rfl
    rw [statusOf_modifyTask_self] at hk
    obtain ⟨t, -, he⟩ := Option.map_eq_some_iff.mp hk
    cases he
  exact hstarted k .running ((statusOf_modifyTask_ne hne).symm.trans hk) (.inr rfl)

theorem spends_handleTaskFailure (db : Db) (tid : TaskId) (error : String) :
    db.Spends isAgentEnabled (db.handleTaskFailure tid error) := by
  simp only [handleTaskFailure]
  split
  · exact .refl db
  · next task htask =>
    split_ifs with hretry
    · refine spends_modifyTask fun t ht ↦ ?_
      obtain rfl := Option.some.inj (htask.symm.trans ht)
      have hopen : TaskStatus.retrying.isSpent = false := rfl
      refine ⟨?_, fun hready ↦ .inr ?_⟩
      · simp only [Task.chances, hopen, Bool.false_eq_true, if_false]
        split_ifs <;> omega
      · have hopen' : task.status.isSpent = false := by rw [hready]; rfl
        simp only [Task.chances, hopen, hopen', Bool.false_eq_true, if_false]
        omega
    · refine spends_fail (fun t ↦ ?_) _ _
      exact ⟨rfl, rfl⟩

theorem spends_handleAgentUnavailable {task : Task} (htask : db.tasks.get? tid = some task)
    (hgone : unavailability isAgentEnabled task.assignedAgent ≠ none) (error : String) :
    db.Spends isAgentEnabled (db.handleAgentUnavailable tid error (registry isAgentEnabled)) := by
  simp only [handleAgentUnavailable, htask]
  split
  · next newAgent rest hfound =>
    refine spends_modifyTask fun t ht ↦ ?_
    obtain rfl := Option.some.inj (htask.symm.trans ht)
    have hthere := unavailability_of_replacements hfound
    refine ⟨?_, fun _ ↦ .inl rfl⟩
    have hopen : TaskStatus.ready.isSpent = false := rfl
    simp only [Task.chances, hgone, hthere, hopen, if_true, if_false, Bool.false_eq_true]
    omega
  · refine spends_fail (fun t ↦ ?_) _ _
    exact ⟨rfl, rfl⟩

/-- A thread that reports, with nobody having enabled or disabled an agent meanwhile. -/
theorem spends_report (hhard : ∀ d ∈ db.deps, d.policy = .hard) (hstarted : db.Started)
    (tid : TaskId) (response : Response) :
    db.Spends isAgentEnabled
      (db.runDispatchAndComplete tid (db.respond isAgentEnabled tid response)) := by
  cases hout : db.respond isAgentEnabled tid response with
  | success =>
    simp only [runDispatchAndComplete]
    split_ifs
    · exact spends_complete hhard hstarted
    · exact .refl db
  | raised error => exact spends_handleTaskFailure db tid error
  | dataStale dataset =>
    simp only [runDispatchAndComplete, handleDataStale]
    split
    · exact .refl db
    · refine spends_fail (fun t ↦ ?_) _ _
      exact ⟨rfl, rfl⟩
  | agentUnavailable error rows =>
    cases htask : db.tasks.get? tid with
    | none => simp [respond, htask] at hout
    | some task =>
      simp only [respond, htask] at hout
      obtain ⟨rfl, hgone⟩ := dispatch_agentUnavailable hout
      exact spends_handleAgentUnavailable htask hgone error

theorem moves_report (hhard : ∀ d ∈ db.deps, d.policy = .hard) (hstarted : db.Started)
    (hsat : db.hardSatisfied tid) (outcome : DispatchOutcome) :
    db.Evolves (db.runDispatchAndComplete tid outcome) ∧
      ∀ k, db.Moves (db.runDispatchAndComplete tid outcome) k := by
  have hstay : db.Evolves db ∧ ∀ k, db.Moves db k := ⟨⟨rfl, fun _ ↦ id⟩, fun _ ↦ .inl rfl⟩
  by_cases hout : outcome = .success
  · subst hout
    simp only [runDispatchAndComplete]
    split_ifs with hrun
    · have hrunning (k) (hk : db.statusOf k = some .running) := hstarted k _ hk (.inr rfl)
      exact ⟨db.complete_evolves tid, fun k ↦ (complete_moves hhard hrunning hrun k).1⟩
    · exact hstay
  · cases htask : db.tasks.get? tid with
    | none =>
      have hnothing : db.runDispatchAndComplete tid outcome = db := by
        cases outcome with
        | success => exact absurd rfl hout
        | raised error => simp only [runDispatchAndComplete, handleTaskFailure, htask]
        | dataStale dataset => simp only [runDispatchAndComplete, handleDataStale, htask]
        | agentUnavailable error rows =>
          simp only [runDispatchAndComplete, handleAgentUnavailable, htask]
      rw [hnothing]
      exact hstay
    | some task =>
      rw [← handleFrom_of_get? htask hout]
      exact ⟨.of_mark (db.handleFrom_mark tid task outcome), handleFrom_moves hsat task outcome⟩

theorem moves_readyTasks (db : Db) (k : TaskId) : db.Moves db.readyTasks.1 k := by
  refine moves_of_map (Table.get?_mapVals _ _) fun t _ ↦ ?_
  simp only [settle]
  split_ifs with hcand hsat
  · exact .inr (.inr (.inr (.inr ⟨rfl, hsat⟩)))
  · exact .inr (.inr (.inr (.inl rfl)))
  · exact .inl rfl

theorem started_claim (hstarted : db.Started) (hclaim : db.claim tid = some db') :
    db'.Started := by
  obtain ⟨hready, rfl⟩ := claim_eq_some.mp hclaim
  intro k st hst hgo
  by_cases hk : k = tid
  · exact hk ▸ hstarted tid .ready hready (.inl rfl)
  · exact hstarted k st ((statusOf_modifyTask_ne hk).symm.trans hst) hgo

variable (isAgentEnabled) in
/-- One transaction of a loop. -/
structure Proceeds (db db' : Db) : Prop extends Evolves db db', Spends isAgentEnabled db db' where
  started : db'.Started

theorem Proceeds.refl (hstarted : db.Started) : db.Proceeds isAgentEnabled db :=
  { Spends.refl db with reset := rfl, mono := fun _ ↦ id, started := hstarted }

theorem proceeds_of_moves (hstarted : db.Started) (hev : db.Evolves db')
    (hmoves : ∀ k, db.Moves db' k) (hspends : db.Spends isAgentEnabled db') :
    db.Proceeds isAgentEnabled db' :=
  { hev, hspends with started := hstarted.of_moves hev hmoves }

theorem proceeds_readyTasks (hstarted : db.Started) :
    db.Proceeds isAgentEnabled db.readyTasks.1 :=
  proceeds_of_moves hstarted ⟨rfl, fun _ ↦ id⟩ db.moves_readyTasks (spends_readyTasks hstarted)

theorem proceeds_claim (hstarted : db.Started) (hclaim : db.claim tid = some db') :
    db.Proceeds isAgentEnabled db' :=
  { spends_claim hclaim with
    reset := by
      obtain ⟨-, rfl⟩ := claim_eq_some.mp hclaim
      rfl
    mono := by
      obtain ⟨-, rfl⟩ := claim_eq_some.mp hclaim
      exact fun _ ↦ id
    started := started_claim hstarted hclaim }

theorem proceeds_report (hhard : ∀ d ∈ db.deps, d.policy = .hard) (hstarted : db.Started)
    (hsat : db.hardSatisfied tid) (response : Response) :
    db.Proceeds isAgentEnabled
      (db.runDispatchAndComplete tid (db.respond isAgentEnabled tid response)) := by
  obtain ⟨hev, hmoves⟩ := moves_report hhard hstarted hsat (db.respond isAgentEnabled tid response)
  exact proceeds_of_moves hstarted hev hmoves (spends_report hhard hstarted tid response)

theorem proceeds_handleTaskTimeout (hstarted : db.Started) (tid : TaskId) :
    db.Proceeds isAgentEnabled (db.handleTaskTimeout tid) :=
  proceeds_of_moves hstarted (.of_mark (db.handleTaskTimeout_mark tid))
    (fun k ↦ (db.stops_handleTaskTimeout tid k).moves) (db.spends_handleTaskTimeout tid)

theorem statusOf_of_mem_readyTasks {k : TaskId} (h : k ∈ db.readyTasks.2) :
    db.readyTasks.1.statusOf k = some .ready := by
  obtain ⟨r, hr, rfl⟩ := List.mem_map.mp h
  obtain ⟨hrow, hgo⟩ := List.mem_filter.mp hr
  obtain ⟨hcand, hsat⟩ := of_decide_eq_true hgo
  refine statusOf_eq_some.mpr ⟨db.settle r.1 r.2, ?_, ?_⟩
  · exact (Table.get?_mapVals _ _ _).trans (congrArg _ (db.tasks.get?_eq_some.mpr hrow))
  · simp only [settle, hcand, hsat, if_true]

theorem length_readyTasks_le (db : Db) : db.readyTasks.2.length ≤ db.tasks.keys.length := by
  simp only [readyTasks, Table.keys, List.length_map]
  exact List.length_filter_le _ _

variable (isAgentEnabled) in
/-- The claims that the plan's tasks are still good for. -/
def supply (db : Db) : ℕ := (db.tasks.keys.map (db.chances isAgentEnabled)).sum

theorem Spends.supply_le (h : db.Spends isAgentEnabled db') :
    db'.supply isAgentEnabled ≤ db.supply isAgentEnabled := by
  rw [supply, h.keys]
  exact List.sum_le_sum fun k _ ↦ h.le k

theorem Spends.supply_lt (h : db.Spends isAgentEnabled db')
    (hlt : db'.chances isAgentEnabled tid < db.chances isAgentEnabled tid) :
    db'.supply isAgentEnabled < db.supply isAgentEnabled := by
  have hmem : tid ∈ db.tasks.keys := by
    by_contra hnot
    simp [chances, db.tasks.get?_eq_none.mpr hnot] at hlt
  rw [supply, h.keys]
  exact List.sum_lt_sum _ _ (fun k _ ↦ h.le k) ⟨tid, hmem, hlt⟩

end Db

def Stage.rank : Stage → ℕ
  | .looping => 2
  | .finalizing => 1
  | .returned => 0

namespace Loop

variable {s t : Loop} {tid : TaskId} {poolSize : ℕ} {replies : Replies} {n : ℕ}

def batch (s : Loop) : List TaskId := s.safe ++ s.serial

/-- Whether the batch can still take anything. -/
def hasReady (s : Loop) : Bool := s.batch.any fun tid ↦ s.db.statusOf tid = some .ready

variable (isAgentEnabled) in
/-- Claims weigh most, then passes over a plan of `n` tasks, then what is waited for. -/
def rank (n : ℕ) (s : Loop) : ℕ :=
  (n + 4) * s.db.supply isAgentEnabled + (if s.hasReady then 0 else n + 1) + s.batch.length +
    2 * s.running.length + s.orphans.length + s.stage.rank

/-- What a loop has let run waits for nothing, and the plan keeps its tasks and dependencies. -/
structure Steady (p : Plan) (s : Loop) : Prop where
  keys : s.db.tasks.keys = p.db.tasks.keys
  hard : ∀ d ∈ s.db.deps, d.policy = .hard
  started : s.db.Started
  satisfied : ∀ k, k ∈ s.running ∨ k ∈ s.orphans → s.db.hardSatisfied k

variable (isAgentEnabled) in
/-- One step of the loop over a plan of `n` tasks. -/
structure Advances (n : ℕ) (s t : Loop) : Prop where
  proceeds : s.db.Proceeds isAgentEnabled t.db
  satisfied : ∀ k, k ∈ t.running ∨ k ∈ t.orphans →
    (k ∈ s.running ∨ k ∈ s.orphans) ∨ s.db.hardSatisfied k
  dispatches : ∀ k, t.dispatches k + t.db.chances isAgentEnabled k ≤
    s.dispatches k + s.db.chances isAgentEnabled k
  rank_lt : t.rank isAgentEnabled n < s.rank isAgentEnabled n

theorem Steady.of_advances {p : Plan} (h : Steady p s) (hadv : Advances isAgentEnabled n s t) :
    Steady p t where
  keys := hadv.proceeds.keys.trans h.keys
  hard := Db.hard_of_reset hadv.proceeds.reset h.hard
  started := hadv.proceeds.started
  satisfied k hk := hadv.proceeds.mono k ((hadv.satisfied k hk).elim (h.satisfied k) id)

theorem dispatches_start {db : Db} (hclaim : s.db.claim tid = some db) (k : TaskId) :
    (s.start tid).dispatches k = s.dispatches k + if k = tid then 1 else 0 := by
  simp only [start, hclaim, dispatches, List.count_cons, beq_iff_eq, eq_comm (a := tid)]
  omega

theorem dispatches_conclude {o : Outcomes} (htid : tid ∈ s.running) (k : TaskId) :
    (s.conclude o tid).dispatches k = s.dispatches k := by
  simp only [dispatches, conclude, List.count_erase]
  by_cases hk : k = tid
  · subst hk
    have hcount := List.count_pos_iff.mpr htid
    simp only [Function.update_self, beq_self_eq_true, if_true]
    omega
  · have hne : (tid == k) = false := beq_eq_false_iff_ne.mpr (Ne.symm hk)
    simp only [Function.update_of_ne hk, hne, Bool.false_eq_true, if_false, Nat.sub_zero]

/-- A transaction costs a batch its ready tasks only at the price of a claim. -/
theorem supply_of_spends (h : s.db.Spends isAgentEnabled t.db) (hbatch : t.batch = s.batch) :
    (n + 4) * t.db.supply isAgentEnabled + (if t.hasReady then 0 else n + 1) ≤
      (n + 4) * s.db.supply isAgentEnabled + if s.hasReady then 0 else n + 1 := by
  have hle := Nat.mul_le_mul_left (n + 4) h.supply_le
  by_cases hready : s.hasReady = true
  · by_cases hstill : t.hasReady = true
    · simpa only [hready, hstill, if_true, Nat.add_zero] using hle
    · obtain ⟨k, hk, hst⟩ := List.any_eq_true.mp hready
      have hlost : t.db.statusOf k ≠ some .ready := by
        intro he
        exact hstill (List.any_eq_true.mpr ⟨k, hbatch ▸ hk, decide_eq_true he⟩)
      have hlt := (h.ready k (of_decide_eq_true hst)).resolve_left hlost
      have hmul := Nat.mul_le_mul_left (n + 4) (h.supply_lt hlt)
      rw [Nat.mul_succ] at hmul
      simp only [hready, hstill, if_true, Bool.false_eq_true, if_false]
      omega
  · simp only [hready, Bool.false_eq_true, if_false]
    split_ifs <;> omega

theorem rank_lt_of_spends (h : s.db.Spends isAgentEnabled t.db) (hbatch : t.batch = s.batch)
    (hlt : 2 * t.running.length + t.orphans.length + t.stage.rank <
      2 * s.running.length + s.orphans.length + s.stage.rank) :
    t.rank isAgentEnabled n < s.rank isAgentEnabled n := by
  have hsupply := supply_of_spends (n := n) h hbatch
  simp only [rank, hbatch]
  omega

/-- The loop has found tasks ready, or nothing to do. -/
theorem Steady.advances_poll {p : Plan} (h : Steady p s) (hstage : s.stage = .looping)
    (hsafe : s.safe = []) (hserial : s.serial = []) :
    Advances isAgentEnabled p.db.tasks.keys.length s s.poll := by
  have hproceeds : s.db.Proceeds isAgentEnabled s.db.readyTasks.1 :=
    Db.proceeds_readyTasks h.started
  have hdispatches (k : TaskId) := Nat.add_le_add_left (hproceeds.le k) (s.dispatches k)
  simp only [poll]
  split_ifs with hready
  · refine ⟨hproceeds, fun k ↦ .inl, hdispatches, rank_lt_of_spends hproceeds.toSpends rfl ?_⟩
    rw [hstage]
    exact Nat.lt_succ_self _
  · refine ⟨hproceeds, fun k ↦ .inl, hdispatches, ?_⟩
    let safe := s.db.readyTasks.2.filter fun tid ↦ s.db.readyTasks.1.isConcurrencySafe tid
    let serial := s.db.readyTasks.2.filter fun tid ↦ ¬ s.db.readyTasks.1.isConcurrencySafe tid
    let t : Loop := { s with db := s.db.readyTasks.1, safe := safe, serial := serial }
    have hempty : s.batch = [] := by rw [batch, hsafe, hserial, List.append_nil]
    have hidle : s.hasReady = false := by rw [hasReady, hempty, List.any_nil]
    have hperm : t.batch.Perm s.db.readyTasks.2 := by
      simpa [batch, t, safe, serial] using List.filter_append_perm _ s.db.readyTasks.2
    have hlen : t.batch.length ≤ p.db.tasks.keys.length := by
      rw [hperm.length_eq]
      exact s.db.length_readyTasks_le.trans_eq (congrArg List.length h.keys)
    have hbusy : t.hasReady := by
      obtain ⟨k, hk⟩ := List.exists_mem_of_ne_nil _ hready
      refine List.any_eq_true.mpr ⟨k, hperm.mem_iff.mpr hk, decide_eq_true ?_⟩
      exact Db.statusOf_of_mem_readyTasks hk
    have hsupply := Nat.mul_le_mul_left (p.db.tasks.keys.length + 4) hproceeds.supply_le
    have hrank : t.rank isAgentEnabled p.db.tasks.keys.length <
        s.rank isAgentEnabled p.db.tasks.keys.length := by
      simp only [rank, hbusy, hidle, hempty, if_true, Bool.false_eq_true, if_false,
        List.length_nil, t] at hlen ⊢
      omega
    exact hrank

/-- A worker takes the next task of the batch, if it is still ready. -/
theorem advances_start (hstarted : s.db.Started) {safe serial : List TaskId}
    (hbatch : s.batch = tid :: (safe ++ serial)) :
    Advances isAgentEnabled n s ({ s with safe := safe, serial := serial }.start tid) := by
  have hlen : s.batch.length = (safe ++ serial).length + 1 := by rw [hbatch, List.length_cons]
  simp only [start]
  cases hclaim : s.db.claim tid with
  | none =>
    refine ⟨.refl hstarted, fun k ↦ .inl, fun k ↦ le_rfl, ?_⟩
    have hnot : s.db.statusOf tid ≠ some .ready := by
      intro hready
      rw [Db.claim, if_pos hready] at hclaim
      cases hclaim
    have hsame : s.hasReady = ({ s with safe := safe, serial := serial } : Loop).hasReady := by
      rw [hasReady, hbatch, List.any_cons, decide_eq_false hnot, Bool.false_or]
      rfl
    simp only [rank, hsame, hlen]
    simp only [batch]
    omega
  | some db =>
    have hproceeds : s.db.Proceeds isAgentEnabled db := Db.proceeds_claim hstarted hclaim
    have hchances : db.chances isAgentEnabled tid + 1 = s.db.chances isAgentEnabled tid :=
      Db.chances_claim hclaim
    refine ⟨hproceeds, fun k hk ↦ ?_, fun k ↦ ?_, ?_⟩
    · rcases hk with hk | hk
      · rcases List.mem_cons.mp hk with rfl | hk
        · exact .inr (hstarted k .ready (Db.claim_eq_some.mp hclaim).1 (.inl rfl))
        · exact .inl (.inl hk)
      · exact .inl (.inr hk)
    · have hle := hproceeds.le k
      have hcount := dispatches_start (s := { s with safe := safe, serial := serial }) hclaim k
      simp only [start, hclaim] at hcount
      rw [hcount]
      by_cases hk : k = tid
      · subst hk
        simp only [if_true, dispatches]
        omega
      · simp only [hk, if_false, dispatches]
        omega
    · have hlt : db.supply isAgentEnabled < s.db.supply isAgentEnabled :=
        hproceeds.supply_lt (Nat.lt_of_succ_le hchances.le)
      have hmul := Nat.mul_le_mul_left (n + 4) hlt
      rw [Nat.mul_succ] at hmul
      simp only [rank, hlen, List.length_cons]
      simp only [batch]
      split_ifs <;> omega

theorem Steady.advances_conclude {p : Plan} (h : Steady p s) (htid : tid ∈ s.running) :
    Advances isAgentEnabled n s (s.conclude (s.db.outcomes isAgentEnabled replies) tid) := by
  have hproceeds : s.db.Proceeds isAgentEnabled
      (s.conclude (s.db.outcomes isAgentEnabled replies) tid).db := by
    simp only [conclude, Db.outcomes]
    cases replies tid (s.attempts tid) with
    | responds response =>
      exact Db.proceeds_report h.hard h.started (h.satisfied tid (.inl htid)) response
    | timesOut => exact Db.proceeds_handleTaskTimeout h.started tid
  have hlen := List.length_erase_of_mem htid
  have hpos := List.length_pos_of_mem htid
  refine ⟨hproceeds, fun k hk ↦ .inl ?_, fun k ↦ ?_, rank_lt_of_spends hproceeds.toSpends rfl ?_⟩
  · rcases hk with hk | hk
    · exact .inl (List.mem_of_mem_erase hk)
    · simp only [conclude] at hk
      split_ifs at hk
      · rcases List.mem_cons.mp hk with rfl | hk
        · exact .inl htid
        · exact .inr hk
      · exact .inr hk
  · rw [dispatches_conclude htid]
    exact Nat.add_le_add_left (hproceeds.le k) _
  · simp only [conclude, hlen]
    split_ifs
    · rw [List.length_cons]
      omega
    · omega

theorem Steady.advances_orphanReport {p : Plan} (h : Steady p s) (htid : tid ∈ s.orphans)
    (response : Response) :
    Advances isAgentEnabled n s
      { s with
        db := s.db.runDispatchAndComplete tid (s.db.respond isAgentEnabled tid response)
        orphans := s.orphans.erase tid } := by
  have hproceeds : s.db.Proceeds isAgentEnabled
      (s.db.runDispatchAndComplete tid (s.db.respond isAgentEnabled tid response)) :=
    Db.proceeds_report h.hard h.started (h.satisfied tid (.inr htid)) response
  have hlen := List.length_erase_of_mem htid
  have hpos := List.length_pos_of_mem htid
  refine ⟨hproceeds, fun k hk ↦ .inl ?_, fun k ↦ Nat.add_le_add_left (hproceeds.le k) _,
    rank_lt_of_spends hproceeds.toSpends rfl ?_⟩
  · exact hk.imp_right List.mem_of_mem_erase
  · simp only [hlen]
    omega

theorem Steady.advances {p : Plan} (h : Steady p s) {action : LoopAction}
    (hact : s.act isAgentEnabled replies poolSize action = some t) :
    Advances isAgentEnabled p.db.tasks.keys.length s t := by
  cases action with
  | poll =>
    simp only [act, LoopAction.event, step] at hact
    split_ifs at hact with hgo
    obtain rfl := Option.some.inj hact
    exact h.advances_poll hgo.1 hgo.2.1 hgo.2.2.1
  | execute =>
    simp only [act, LoopAction.event, step] at hact
    split at hact
    · next tid rest hsafe =>
      split_ifs at hact
      obtain rfl := Option.some.inj hact
      exact advances_start h.started (by rw [batch, hsafe, List.cons_append])
    · next tid rest hsafe hserial =>
      split_ifs at hact
      obtain rfl := Option.some.inj hact
      exact advances_start h.started (by rw [batch, hsafe, hserial]; rfl)
    · cases hact
  | conclude tid =>
    simp only [act, LoopAction.event, step] at hact
    split_ifs at hact with htid
    obtain rfl := Option.some.inj hact
    exact h.advances_conclude htid
  | orphanReport tid response =>
    simp only [act, LoopAction.event, step] at hact
    split_ifs at hact with htid
    obtain rfl := Option.some.inj hact
    exact h.advances_orphanReport htid response
  | finalize undispositioned pendingApproval =>
    simp only [act, LoopAction.event, step] at hact
    split_ifs at hact with hstage
    obtain rfl := Option.some.inj hact
    refine ⟨.refl h.started, fun k ↦ .inl, fun k ↦ le_rfl, rank_lt_of_spends (.refl s.db) rfl ?_⟩
    rw [hstage]
    exact Nat.lt_succ_self _

/-- A loop that has not returned does not wait for the threads it has given up on. -/
theorem exists_own_action (s : Loop) (hret : s.stage ≠ .returned) (hpool : 0 < poolSize) :
    ∃ action : LoopAction, action.isOwn ∧
      (s.act isAgentEnabled replies poolSize action).isSome := by
  by_cases hfin : s.stage = .finalizing
  · exact ⟨.finalize 0 false, rfl, by simp [act, LoopAction.event, step, hfin]⟩
  have hstage : s.stage = .looping := by
    cases hst : s.stage with
    | looping => rfl
    | finalizing => exact absurd hst hfin
    | returned => exact absurd hst hret
  cases hrun : s.running with
  | cons tid rest => exact ⟨.conclude tid, rfl, by simp [act, LoopAction.event, step, hrun]⟩
  | nil =>
    cases hsafe : s.safe with
    | cons tid rest => exact ⟨.execute, rfl, by simp [act, LoopAction.event, step, hsafe, hrun, hpool]⟩
    | nil =>
      cases hserial : s.serial with
      | cons tid rest =>
        exact ⟨.execute, rfl, by simp [act, LoopAction.event, step, hsafe, hserial, hrun]⟩
      | nil =>
        exact ⟨.poll, rfl, by simp [act, LoopAction.event, step, hstage, hsafe, hserial, hrun]⟩

end Loop

theorem Db.supply_eq (db : Db) :
    db.supply isAgentEnabled = (db.tasks.values.map (Task.chances isAgentEnabled)).sum := by
  simp only [supply, Table.keys, Table.values, List.map_map]
  refine congrArg List.sum (List.map_congr_left fun r hr ↦ ?_)
  simp only [Function.comp_apply, chances, db.tasks.get?_eq_some.mpr hr, Option.map_some,
    Option.getD_some]

theorem Task.chances_le (t : Task) : t.chances isAgentEnabled ≤ t.maxRetries + 2 := by
  simp only [chances]
  split_ifs <;> omega

/-- More than a loop over the plan takes, whatever happens. -/
def Plan.limit (p : Plan) : ℕ :=
  let tasks := p.db.tasks.values
  (tasks.length + 4) * (tasks.map fun t ↦ t.maxRetries + 2).sum + tasks.length + 3

theorem Plan.steady_begin (p : Plan) : p.begin.Steady p where
  keys := rfl
  hard d hd := (p.hard d hd).1
  started := (LoopRace.inv_begin p).started
  satisfied k hk := by rcases hk with hk | hk <;> cases hk

theorem Plan.rank_begin_le (p : Plan) :
    p.begin.rank isAgentEnabled p.db.tasks.keys.length ≤ p.limit := by
  have hsupply : p.db.supply isAgentEnabled ≤
      (p.db.tasks.values.map fun t ↦ t.maxRetries + 2).sum := by
    rw [Db.supply_eq]
    exact List.sum_le_sum fun t _ ↦ t.chances_le
  have hlen : p.db.tasks.keys.length = p.db.tasks.values.length := by
    simp only [Table.keys, Table.values, List.length_map]
  have hmul := Nat.mul_le_mul_left (p.db.tasks.values.length + 4) hsupply
  have hrank : p.begin.rank isAgentEnabled p.db.tasks.keys.length =
      (p.db.tasks.values.length + 4) * p.db.supply isAgentEnabled +
        (p.db.tasks.values.length + 1) + 2 := by
    rw [hlen]
    rfl
  rw [hrank, limit]
  omega

/-- Whatever the replies and the order in which the workers report, with a fixed set of enabled
agents: a loop takes a bounded number of steps, is never stuck before it returns, and dispatches no
task more than two times beyond its retries. -/
theorem scheduler_loop_terminates (isAgentEnabled : String → Bool) (replies : Replies)
    (poolSize : ℕ+) (p : Plan) {actions : List LoopAction} {s : Loop}
    (hrun : Run (Loop.act isAgentEnabled replies poolSize) p.begin actions s) :
    actions.length ≤ p.limit ∧
      (s.stage ≠ .returned → ∃ action : LoopAction, action.isOwn ∧
        (s.act isAgentEnabled replies poolSize action).isSome) ∧
      ∀ tid t, p.db.tasks.get? tid = some t → s.dispatches tid ≤ t.maxRetries + 2 := by
  have hstep (s : Loop) (action : LoopAction) (t : Loop) (h : s.Steady p)
      (hact : s.act isAgentEnabled replies poolSize action = some t) :
      t.Steady p ∧ t.rank isAgentEnabled p.db.tasks.keys.length <
        s.rank isAgentEnabled p.db.tasks.keys.length :=
    ⟨h.of_advances (h.advances hact), (h.advances hact).rank_lt⟩
  refine ⟨?_, fun hret ↦ s.exists_own_action hret poolSize.pos, fun tid t ht ↦ ?_⟩
  · have hlen := hrun.length_le_rank hstep p.steady_begin
    exact (Nat.le_add_right _ _).trans (hlen.trans p.rank_begin_le)
  · have hkeep (s : Loop) (action : LoopAction) (s' : Loop)
        (h : s.Steady p ∧
          s.dispatches tid + s.db.chances isAgentEnabled tid ≤ t.maxRetries + 2)
        (hact : s.act isAgentEnabled replies poolSize action = some s') : s'.Steady p ∧
          s'.dispatches tid + s'.db.chances isAgentEnabled tid ≤ t.maxRetries + 2 :=
      ⟨(hstep s action s' h.1 hact).1, ((h.1.advances hact).dispatches tid).trans h.2⟩
    have hbegin : p.begin.dispatches tid + p.begin.db.chances isAgentEnabled tid ≤
        t.maxRetries + 2 := by
      have hstart : p.begin.dispatches tid = 0 := rfl
      rw [hstart, Nat.zero_add]
      simp only [Plan.begin, Db.chances, ht, Option.map_some, Option.getD_some]
      exact t.chances_le
    have hend := hrun.invariant hkeep ⟨p.steady_begin, hbegin⟩
    exact (Nat.le_add_right _ _).trans hend.2

section Example

/-- The news task is given to an agent that is disabled, and does not do news. -/
def misassigned : Plan where
  db :=
    { tasks :=
        ⟨[(0, ⟨"news_ingestion", "sentiment_agent", .planned, true, 0, 1, 600, none, none⟩),
          (1, ⟨"synthesize", "ceo_agent", .planned, true, 0, 1, 600, none, none⟩)], by decide⟩
      deps := [⟨1, 0, .hard, .unsatisfied⟩] }
  planned := by decide
  hard := by decide
  dependent_mem := by decide
  prerequisite_mem := by decide

def noSentiment (agent : String) : Bool := agent ≠ "sentiment_agent"

/-- The news task fails once, and is good the next time. The synthesis hangs. -/
def hangingSynthesis : Replies
  | 0, 1 => .responds (.raised "connection reset")
  | 1, _ => .timesOut
  | _, _ => .responds .success

def misassignedRun : List LoopAction :=
  [.poll, .execute, .conclude 0, .poll, .execute, .conclude 0, .poll, .execute, .conclude 0, .poll,
    .execute, .conclude 1, .poll, .orphanReport 1 (.dataStale "news"), .finalize 0 false]

def misassignedEnd : Loop :=
  (exec (Loop.act noSentiment hangingSynthesis 4) misassigned.begin misassignedRun).get
    (by decide +kernel)

/-- The reassignment and the retry come on top of the first dispatch. -/
theorem misassignedEnd_dispatches : misassignedEnd.dispatches 0 = 3 ∧
    misassignedEnd.dispatches 0 ≤ 1 + 2 ∧ misassignedRun.length ≤ misassigned.limit := by
  have hrun : Run (Loop.act noSentiment hangingSynthesis (4 : ℕ+)) misassigned.begin misassignedRun
      misassignedEnd := exec_eq_some.mp (Option.some_get (by decide +kernel)).symm
  obtain ⟨hlen, -, hdispatches⟩ :=
    scheduler_loop_terminates noSentiment hangingSynthesis 4 misassigned hrun
  exact ⟨by decide +kernel, hdispatches 0 _ rfl, hlen⟩

end Example

end TradingOS.Orchestration
