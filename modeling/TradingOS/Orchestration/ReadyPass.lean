import TradingOS.Orchestration.DependencyOrder
import TradingOS.Orchestration.RunLifecycle

namespace TradingOS.Orchestration

open Lib Lib.Runs

/-- A transaction of `ready_tasks`: the candidates it has read and not come to yet, the status it
has assigned in the session and not sent, the updates it has sent, and what it will return. -/
structure Pass where
  candidates : List (TaskId × TaskStatus)
  unsent : Option (TaskId × TaskStatus)
  sent : List (TaskId × TaskStatus)
  out : List TaskId

/-- A loop has a pass open, or tasks of its last pass left to execute. -/
structure LoopThread where
  pass : Option Pass
  ready : List TaskId

/-- A handler of a failed dispatch, with the row it has read. -/
structure Handling where
  taskId : TaskId
  row : Task
  outcome : DispatchOutcome
  deriving DecidableEq

namespace Db

def isCandidate (db : Db) (tid : TaskId) : Bool := (db.statusOf tid).any TaskStatus.isCandidate

def candidates (db : Db) : List (TaskId × TaskStatus) :=
  (db.tasks.rows.filter (·.2.status.isCandidate)).map fun r ↦ (r.1, r.2.status)

/-- The status that the dependencies of a candidate call for. -/
def verdict (db : Db) (tid : TaskId) : TaskStatus :=
  if db.hardSatisfied tid then .ready else .waitingForDependency

def setStatuses (db : Db) (sent : List (TaskId × TaskStatus)) : Db :=
  { db with
    tasks := db.tasks.mapVals fun k t ↦ { t with status := (sent.lookup k).getD t.status } }

end Db

/-- A status the session assigns is sent only if it is not the one that the session has read. -/
def Task.assign (row : Task) (st : TaskStatus) (task : Task) : Task :=
  if st = row.status then task else { task with status := st }

namespace Db

/-- The handlers of the failing outcomes, on a row read before. -/
def handleFrom (db : Db) (tid : TaskId) (row : Task) : DispatchOutcome → Db
  | .success => db
  | .dataStale dataset =>
    let reason := s!"data stale: {dataset}"
    (db.modifyTask tid fun t ↦ { row.assign .blocked t with blockedReason := some reason })
      |>.markUnsatisfiable tid row.capability reason
  | .agentUnavailable error registry =>
    match replacements registry row.capability row.assignedAgent with
    | newAgent :: _ =>
      db.modifyTask tid fun t ↦ { row.assign .ready t with assignedAgent := newAgent }
    | [] =>
      let reason := s!"agent unavailable: {error}"
      (db.modifyTask tid fun t ↦ { row.assign .escalated t with blockedReason := some reason })
        |>.markUnsatisfiable tid row.capability reason
  | .raised error =>
    if row.retryCount < row.maxRetries then
      db.modifyTask tid fun t ↦ { row.assign .retrying t with retryCount := row.retryCount + 1 }
    else
      (db.modifyTask tid fun t ↦ { row.assign .failed t with failureReason := some error })
        |>.markUnsatisfiable tid row.capability "failed after exhausting retries"

theorem modifyTask_congr {db : Db} {tid : TaskId} {row : Task} (h : db.tasks.get? tid = some row)
    {f g : Task → Task} (hfg : f row = g row) : db.modifyTask tid f = db.modifyTask tid g := by
  simp only [modifyTask, Table.modify, Table.mapVals]
  congr 2
  refine List.map_congr_left fun r hr ↦ ?_
  split_ifs with hk
  · have hrow := db.tasks.get?_eq_some.mpr hr
    rw [hk, h] at hrow
    rw [← Option.some.inj hrow, hfg]
  · rfl

/-- A handler that nobody has come before. -/
theorem handleFrom_of_get? {db : Db} {tid : TaskId} {row : Task} (h : db.tasks.get? tid = some row)
    {outcome : DispatchOutcome} (hout : outcome ≠ .success) :
    db.handleFrom tid row outcome = db.runDispatchAndComplete tid outcome := by
  have hassign (st : TaskStatus) : row.assign st row = { row with status := st } := by
    simp only [Task.assign]
    split_ifs with he
    · rw [he]
    · rfl
  cases outcome with
  | success => exact absurd rfl hout
  | dataStale dataset =>
    simp only [handleFrom, runDispatchAndComplete, handleDataStale, h]
    rw [modifyTask_congr h]
    rw [hassign]
  | agentUnavailable error registry =>
    simp only [handleFrom, runDispatchAndComplete, handleAgentUnavailable, h]
    cases replacements registry row.capability row.assignedAgent with
    | nil =>
      simp only
      rw [modifyTask_congr h]
      rw [hassign]
    | cons newAgent others =>
      refine modifyTask_congr h ?_
      rw [hassign]
  | raised error =>
    simp only [handleFrom, runDispatchAndComplete, handleTaskFailure, h]
    split_ifs
    · refine modifyTask_congr h ?_
      rw [hassign]
    · rw [modifyTask_congr h]
      rw [hassign]

def runningTasks (db : Db) : List TaskId :=
  (db.tasks.rows.filter (·.2.status = .running)).map Prod.fst

/-- The updates of `reap_incomplete_runs`, which name their rows by key alone. -/
def reapRows (db : Db) (tids : List TaskId) : Db :=
  { db with
    tasks := db.tasks.mapVals fun k t ↦
      if k ∈ tids then
        if t.isConcurrencySafe then { t with status := .ready }
        else
          { t with
            status := .failed
            failureReason := some "process restarted mid-execution; not safely re-runnable" }
      else t }

end Db

/-- Any number of scheduler loops on one run. `dispatched` lists the dispatches by task and by the
task's attempt, which a handler or a reap that puts a task back raises. -/
structure LoopRace where
  db : Db
  eventLock : Option ℕ
  loops : ℕ → LoopThread
  live : List TaskId
  handlings : List Handling
  reaps : List (List TaskId)
  attempt : TaskId → ℕ
  dispatched : List (TaskId × ℕ)

/-- The statements of a pass, one by one, and the commits of the other transactions. -/
inductive RaceEvent
  | select (i : ℕ)
  | readDeps (i : ℕ)
  | update (i : ℕ)
  | commit (i : ℕ)
  | rollback (i : ℕ)
  | claim (i : ℕ) (tid : TaskId)
  | complete (tid : TaskId)
  | timeout (tid : TaskId)
  | handle (tid : TaskId) (outcome : DispatchOutcome)
  | commitHandling (h : Handling)
  | cancelRun
  | reap
  | commitReap (tids : List TaskId)
  deriving DecidableEq

namespace Pass

def begin (db : Db) : Pass := ⟨db.candidates, none, [], []⟩

/-- The next candidate: its dependencies are read, and its status is assigned if it has to
change. -/
def readDeps (db : Db) (p : Pass) : Option Pass :=
  match p.candidates, p.unsent with
  | (tid, st) :: rest, none =>
    some
      { p with
        candidates := rest
        unsent := if st = db.verdict tid then none else some (tid, db.verdict tid)
        out := if db.verdict tid = .ready then p.out ++ [tid] else p.out }
  | _, _ => none

def update (p : Pass) : Option Pass :=
  p.unsent.map fun row ↦ { p with unsent := none, sent := p.sent ++ [row] }

def isOver (p : Pass) : Bool := p.candidates.isEmpty && p.unsent.isNone

end Pass

namespace LoopRace

def setPass (s : LoopRace) (i : ℕ) (pass : Option Pass) : LoopRace :=
  { s with loops := Function.update s.loops i { s.loops i with pass := pass } }

def release (s : LoopRace) (i : ℕ) : Option ℕ := if s.eventLock = some i then none else s.eventLock

/-- The rows under an update that is not committed. -/
def lockedRows (s : LoopRace) : List TaskId :=
  match s.eventLock.bind fun i ↦ (s.loops i).pass with
  | none => []
  | some p => p.sent.map Prod.fst

def putBack (s : LoopRace) (db : Db) : LoopRace :=
  { s with
    db := db
    attempt := fun k ↦
      if ¬ s.db.isCandidate k ∧ db.isCandidate k then s.attempt k + 1 else s.attempt k }

/-- The event of an update takes the run's event lock before the update is sent, and holds it to
the end of the transaction; so do the events of claims, completions, timeouts and handlers, whose
updates are conditional or sent after the lock is taken. A cancellation and a reap emit no event,
and wait for the rows alone. -/
def step (s : LoopRace) : RaceEvent → Option LoopRace
  | .select i =>
    if (s.loops i).pass.isNone ∧ (s.loops i).ready = [] then
      some (s.setPass i (some (.begin s.db)))
    else none
  | .readDeps i =>
    ((s.loops i).pass.bind (·.readDeps s.db)).map fun p ↦ s.setPass i (some p)
  | .update i =>
    if s.eventLock = none ∨ s.eventLock = some i then
      ((s.loops i).pass.bind Pass.update).map fun p ↦
        { s.setPass i (some p) with eventLock := some i }
    else none
  | .commit i =>
    match (s.loops i).pass with
    | none => none
    | some p =>
      if p.isOver then
        some
          { s with
            db := s.db.setStatuses p.sent
            eventLock := s.release i
            loops := Function.update s.loops i ⟨none, p.out⟩ }
      else none
  | .rollback i =>
    match (s.loops i).pass with
    | none => none
    | some _ => some { s.setPass i none with eventLock := s.release i }
  | .claim i tid =>
    if tid ∈ (s.loops i).ready then
      let loops := Function.update s.loops i
        { s.loops i with ready := (s.loops i).ready.erase tid }
      match s.db.claim tid with
      | none => some { s with loops := loops }
      | some db =>
        if s.eventLock = none then
          some
            { s with
              db := db
              loops := loops
              live := tid :: s.live
              dispatched := (tid, s.attempt tid) :: s.dispatched }
        else none
    else none
  | .complete tid =>
    if tid ∈ s.live ∧ s.eventLock = none then
      some
        { s with
          db := s.db.runDispatchAndComplete tid .success
          live := s.live.erase tid }
    else none
  | .timeout tid =>
    if tid ∈ s.live ∧ s.eventLock = none then some { s with db := s.db.handleTaskTimeout tid }
    else none
  | .handle tid outcome =>
    if tid ∈ s.live ∧ outcome ≠ .success then
      (s.db.tasks.get? tid).map fun row ↦
        { s with
          live := s.live.erase tid
          handlings := ⟨tid, row, outcome⟩ :: s.handlings }
    else none
  | .commitHandling h =>
    if h ∈ s.handlings ∧ s.eventLock = none then
      some
        { s.putBack (s.db.handleFrom h.taskId h.row h.outcome) with
          handlings := s.handlings.erase h }
    else none
  | .cancelRun =>
    if ∀ k ∈ s.lockedRows, s.db.cancelTasks.statusOf k = s.db.statusOf k then
      some { s with db := s.db.cancelTasks }
    else none
  | .reap => some { s with reaps := s.db.runningTasks :: s.reaps }
  | .commitReap tids =>
    if tids ∈ s.reaps ∧ ∀ k ∈ s.lockedRows, k ∉ tids then
      some { s.putBack (s.db.reapRows tids) with reaps := s.reaps.erase tids }
    else none

end LoopRace

section Alone

variable {db : Db}

/-- What a pass over `rest` sends, with nobody else about. -/
def Db.sends (db : Db) (rest : List (TaskId × TaskStatus)) : List (TaskId × TaskStatus) :=
  (rest.filter fun c ↦ c.2 ≠ db.verdict c.1).map fun c ↦ (c.1, db.verdict c.1)

def Db.returns (db : Db) (rest : List (TaskId × TaskStatus)) : List TaskId :=
  (rest.filter fun c ↦ db.verdict c.1 = .ready).map Prod.fst

def visit (i : ℕ) (db : Db) (c : TaskId × TaskStatus) : List RaceEvent :=
  if c.2 = db.verdict c.1 then [.readDeps i] else [.readDeps i, .update i]

theorem Db.lookup_sends {rest : List (TaskId × TaskStatus)} (hnodup : (rest.map Prod.fst).Nodup)
    {k : TaskId} {st : TaskStatus} (hk : (k, st) ∈ rest) :
    ((db.sends rest).lookup k).getD st = db.verdict k := by
  by_cases he : st = db.verdict k
  · have hnone : (db.sends rest).lookup k = none := by
      rw [Table.lookup_eq_none_iff_notMem]
      intro hmem
      obtain ⟨r, hr, rfl⟩ := List.mem_map.mp hmem
      obtain ⟨c, hc, rfl⟩ := List.mem_map.mp hr
      rw [List.mem_filter] at hc
      have hst : c.2 = st := by
        have hsame := (Table.lookup_eq_some_iff_mem hnodup).mpr hk
        exact Option.some.inj (((Table.lookup_eq_some_iff_mem hnodup).mpr hc.1).symm.trans hsame)
      exact of_decide_eq_true hc.2 (hst.trans he)
    rw [hnone, Option.getD_none, he]
  · have hmem : (k, db.verdict k) ∈ db.sends rest :=
      List.mem_map.mpr ⟨(k, st), List.mem_filter.mpr ⟨hk, decide_eq_true he⟩, rfl⟩
    have hkeys : ((db.sends rest).map Prod.fst).Nodup := by
      simp only [Db.sends, List.map_map, Function.comp_def]
      exact hnodup.sublist (List.filter_sublist.map _)
    rw [(Table.lookup_eq_some_iff_mem hkeys).mpr hmem, Option.getD_some]

theorem Db.lookup_sends_none {rest : List (TaskId × TaskStatus)} {k : TaskId}
    (hk : k ∉ rest.map Prod.fst) : (db.sends rest).lookup k = none := by
  rw [Table.lookup_eq_none_iff_notMem]
  intro hmem
  obtain ⟨r, hr, rfl⟩ := List.mem_map.mp hmem
  obtain ⟨c, hc, rfl⟩ := List.mem_map.mp hr
  exact hk (List.mem_map.mpr ⟨c, (List.mem_filter.mp hc).1, rfl⟩)

theorem Db.candidates_fst_nodup (db : Db) : (db.candidates.map Prod.fst).Nodup := by
  simp only [candidates, List.map_map, Function.comp_def]
  exact db.tasks.nodup.sublist (List.filter_sublist.map _)

theorem Db.setStatuses_sends (db : Db) :
    db.setStatuses (db.sends db.candidates) = db.readyTasks.1 := by
  have hrow : ∀ r ∈ db.tasks.rows,
      (r.1, { r.2 with status := ((db.sends db.candidates).lookup r.1).getD r.2.status }) =
        (r.1, db.settle r.1 r.2) := by
    intro r hr
    refine Prod.ext rfl ?_
    by_cases hcand : r.2.status.isCandidate = true
    · have hmem : (r.1, r.2.status) ∈ db.candidates :=
        List.mem_map.mpr ⟨r, List.mem_filter.mpr ⟨hr, hcand⟩, rfl⟩
      simp only [settle, hcand, if_true, Db.lookup_sends db.candidates_fst_nodup hmem]
      rfl
    · have hout : r.1 ∉ db.candidates.map Prod.fst := by
        intro hmem
        obtain ⟨c, hc, hfst⟩ := List.mem_map.mp hmem
        obtain ⟨r', hr', rfl⟩ := List.mem_map.mp hc
        rw [List.mem_filter] at hr'
        have hsame := (Table.lookup_eq_some_iff_mem db.tasks.nodup).mpr hr'.1
        rw [hfst, (Table.lookup_eq_some_iff_mem db.tasks.nodup).mpr hr] at hsame
        rw [← Option.some.inj hsame] at hr'
        exact hcand hr'.2
      simp only [settle, hcand, Db.lookup_sends_none hout, Option.getD_none]
      rfl
  simp only [setStatuses, readyTasks, Table.mapVals]
  congr 2
  exact List.map_congr_left hrow

theorem Db.returns_candidates (db : Db) : db.returns db.candidates = db.readyTasks.2 := by
  have hverdict (tid : TaskId) : (db.verdict tid = .ready) = (db.hardSatisfied tid = true) := by
    simp only [verdict]
    split_ifs with h <;> simp [h]
  simp only [returns, candidates, readyTasks, hverdict, List.filter_map, List.map_map,
    List.filter_filter]
  congr 1
  refine List.filter_congr fun r _ ↦ ?_
  simp [and_comm]

namespace LoopRace

/-- The state while loop `i` has a pass open. -/
def inPass (s : LoopRace) (i : ℕ) (lock : Option ℕ) (p : Pass) : LoopRace :=
  { s.setPass i (some p) with eventLock := lock }

variable {s : LoopRace} {i : ℕ} {lock : Option ℕ}

theorem inPass_pass (p : Pass) : ((s.inPass i lock p).loops i).pass = some p := by
  simp only [inPass, setPass, Function.update_self]

theorem setPass_inPass (p q : Pass) :
    (s.inPass i lock p).setPass i (some q) = s.inPass i lock q := by
  simp only [inPass, setPass, Function.update_self, Function.update_idem]

theorem step_readDeps {p q : Pass} (h : p.readDeps s.db = some q) :
    (s.inPass i lock p).step (.readDeps i) = some (s.inPass i lock q) := by
  have hread : ((s.inPass i lock p).loops i).pass.bind (·.readDeps (s.inPass i lock p).db) =
      some q := by
    rw [inPass_pass]
    exact h
  simp only [step, hread, Option.map_some, setPass_inPass]

theorem step_update {p q : Pass} (h : p.update = some q) (hlock : lock = none ∨ lock = some i) :
    (s.inPass i lock p).step (.update i) = some (s.inPass i (some i) q) := by
  have hfree : (s.inPass i lock p).eventLock = none ∨ (s.inPass i lock p).eventLock = some i := hlock
  have hupdate : ((s.inPass i lock p).loops i).pass.bind Pass.update = some q := by
    rw [inPass_pass]
    exact h
  simp only [step, if_pos hfree, hupdate, Option.map_some, setPass_inPass]
  rfl

theorem run_visits (rest sent : List (TaskId × TaskStatus)) (out : List TaskId)
    (hlock : lock = none ∨ lock = some i) :
    ∃ lock', (lock' = none ∨ lock' = some i) ∧
      Run step (s.inPass i lock ⟨rest, none, sent, out⟩) (rest.flatMap (visit i s.db))
        (s.inPass i lock' ⟨[], none, sent ++ s.db.sends rest, out ++ s.db.returns rest⟩) := by
  induction rest generalizing lock sent out with
  | nil =>
    refine ⟨lock, hlock, ?_⟩
    simp only [Db.sends, Db.returns, List.filter_nil, List.map_nil, List.append_nil]
    exact .nil _
  | cons c rest ih =>
    let out' := if s.db.verdict c.1 = .ready then out ++ [c.1] else out
    have hout : out' ++ s.db.returns rest = out ++ s.db.returns (c :: rest) := by
      by_cases h : s.db.verdict c.1 = .ready <;> simp [out', Db.returns, h]
    rw [List.flatMap_cons]
    by_cases h : c.2 = s.db.verdict c.1
    · -- the status is already the one that its dependencies call for
      obtain ⟨lock', hlock', hrun⟩ := ih sent out' hlock
      have hsends : s.db.sends (c :: rest) = s.db.sends rest := by simp [Db.sends, h]
      refine ⟨lock', hlock', ?_⟩
      rw [hout] at hrun
      rw [hsends, visit, if_pos h]
      refine .cons (step_readDeps ?_) hrun
      simp only [Pass.readDeps, h, if_true]
      rfl
    · obtain ⟨lock', hlock', hrun⟩ := ih (sent ++ [(c.1, s.db.verdict c.1)]) out' (.inr rfl)
      have hsends : s.db.sends (c :: rest) = (c.1, s.db.verdict c.1) :: s.db.sends rest := by
        simp [Db.sends, h]
      refine ⟨lock', hlock', ?_⟩
      rw [hout, List.append_assoc, List.singleton_append, ← hsends] at hrun
      rw [visit, if_neg h]
      let assigned : Pass := ⟨rest, some (c.1, s.db.verdict c.1), sent, out'⟩
      have hread : Pass.readDeps s.db ⟨c :: rest, none, sent, out⟩ = some assigned := by
        simp only [Pass.readDeps, h, if_false]
        rfl
      have hupdate : assigned.update =
          some ⟨rest, none, sent ++ [(c.1, s.db.verdict c.1)], out'⟩ := rfl
      exact .cons (step_readDeps hread) (.cons (step_update hupdate hlock) hrun)

/-- The statements of one pass, when no other transaction comes between them, are
`ready_tasks`. -/
theorem run_pass (hidle : s.loops i = ⟨none, []⟩) (hlock : s.eventLock = none) :
    Run step s (.select i :: (s.db.candidates.flatMap (visit i s.db) ++ [.commit i]))
      { s with
        db := s.db.readyTasks.1
        loops := Function.update s.loops i ⟨none, s.db.readyTasks.2⟩ } := by
  obtain ⟨lock, hfree, hvisits⟩ := run_visits (s := s) (i := i) s.db.candidates [] [] (.inl hlock)
  have hselect : s.step (.select i) = some (s.inPass i s.eventLock (.begin s.db)) := by
    simp only [step, hidle]
    rfl
  have hcommit : (s.inPass i lock ⟨[], none, s.db.sends s.db.candidates,
      s.db.returns s.db.candidates⟩).step (.commit i) =
        some { s with
          db := s.db.readyTasks.1
          loops := Function.update s.loops i ⟨none, s.db.readyTasks.2⟩ } := by
    have hrelease (p : Pass) : (s.inPass i lock p).release i = s.eventLock := by
      simp only [release, inPass, hlock]
      rcases hfree with rfl | rfl <;> simp
    rw [← s.db.setStatuses_sends, ← s.db.returns_candidates]
    simp only [step, inPass_pass, hrelease]
    simp only [inPass, setPass, Function.update_idem]
    rfl
  exact .cons hselect (hvisits.append (.cons hcommit (.nil _)))

end LoopRace

end Alone

end TradingOS.Orchestration
