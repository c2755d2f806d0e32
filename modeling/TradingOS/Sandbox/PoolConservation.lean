import TradingOS.Lib.Runs
import TradingOS.Lib.Table
import TradingOS.Sandbox.Pool

namespace TradingOS.Sandbox

open Lib Lib.Runs

abbrev WorkerId := ℕ

/-- What has written a line to a worker's pipe: the script at the end of a job, or code of a job. -/
inductive LineSource
  | runner | job
  deriving DecidableEq

/-- A `_Worker` with its process: whether it lives, how many jobs have been written to it, how many
of them its script has ended, and the lines in its pipe. -/
structure PooledWorker where
  id : WorkerId
  jobsDone : ℕ
  isOverflow : Bool
  alive : Bool
  handed : ℕ
  finished : ℕ
  pipe : List LineSource
  deriving DecidableEq

/-- A worker and whether a job is with it. -/
structure Holding where
  worker : PooledWorker
  sent : Bool
  deriving DecidableEq

/-- The pool, the calls under way, how many workers have been spawned, and those whose job has
timed out or that have died on it. -/
structure WorkerPool where
  available : List PooledWorker
  calls : Table ThreadId Holding
  spawned : ℕ
  failed : List WorkerId

inductive ProcessEvent
  | dies | finishes | prints
  deriving DecidableEq

/-- A stretch of a call of `execute` between two points where it can raise or others can run, or
what a worker's process does. `spawns` tells whether a `Popen` that the stretch needs succeeds. -/
inductive CallEvent
  | checkout (thread : ThreadId) (spawns : Bool)
  | payloadRaises (thread : ThreadId)
  | send (thread : ThreadId)
  | sendFails (thread : ThreadId) (spawns : Bool)
  | answer (thread : ThreadId) (dropped : ℕ) (torn : Bool) (spawns : Bool)
  | noAnswer (thread : ThreadId) (spawns : Bool)
  | readRaises (thread : ThreadId)
  | process (id : WorkerId) (event : ProcessEvent)

/-- A line of which the start has been read is none of the runner's any more. -/
def tear : List LineSource → List LineSource
  | [] => []
  | _ :: lines => .job :: lines

/-- What is left once a line has been read: the last chunk may hold `dropped` more, and end within
another one. -/
def linesLeft (lines : List LineSource) (dropped : ℕ) (torn : Bool) : List LineSource :=
  if torn then tear (lines.drop (dropped + 1)) else lines.drop (dropped + 1)

namespace PooledWorker

variable (w : PooledWorker)

def spawn (id : WorkerId) (isOverflow : Bool) : PooledWorker := ⟨id, 0, isOverflow, true, 0, 0, []⟩

def act : ProcessEvent → PooledWorker
  | .dies => { w with alive := false }
  | .finishes =>
    if w.alive ∧ w.finished < w.handed then
      { w with finished := w.finished + 1, pipe := w.pipe ++ [.runner] }
    else w
  | .prints => if w.alive ∧ 0 < w.handed then { w with pipe := w.pipe ++ [.job] } else w

def actAs (id : WorkerId) (event : ProcessEvent) : PooledWorker :=
  if w.id = id then w.act event else w

/-- A line is taken for the answer to the job. -/
def answered (dropped : ℕ) (torn : Bool) : PooledWorker :=
  { w with jobsDone := w.jobsDone + 1, pipe := linesLeft w.pipe dropped torn }

end PooledWorker

namespace WorkerPool

variable (s : WorkerPool)

def init (size : ℕ) : WorkerPool :=
  ⟨(List.range size).map (PooledWorker.spawn · false), .empty, size, []⟩

/-- `_checkin`. A worker that is retired is killed before its replacement is spawned. -/
def checkin (w : PooledWorker) (healthy spawns : Bool) : WorkerPool :=
  if w.isOverflow then s
  else if healthy = false ∨ maxJobsPerWorker ≤ w.jobsDone then
    if spawns then
      { s with
        available := s.available ++ [.spawn s.spawned false]
        spawned := s.spawned + 1 }
    else s
  else { s with available := s.available ++ [w] }

def endCall (thread : ThreadId) : WorkerPool := { s with calls := s.calls.erase thread }

def hold (thread : ThreadId) (h : Holding) : WorkerPool := { s with calls := s.calls.put thread h }

/-- A worker that has not answered is done with. -/
def abandon (thread : ThreadId) (w : PooledWorker) (spawns : Bool) : WorkerPool :=
  { (s.endCall thread).checkin w false spawns with failed := w.id :: s.failed }

/-- Where a `Popen` fails, or the payload or the line that is read cannot be handled, `execute`
raises and has checked in no worker. -/
def step : CallEvent → Option WorkerPool
  | .checkout thread spawns =>
    match s.calls.get? thread with
    | some _ => none
    | none =>
      match s.available.getLast? with
      | some w => some ({ s with available := s.available.dropLast }.hold thread ⟨w, false⟩)
      | none =>
        if spawns then
          some ({ s with spawned := s.spawned + 1 }.hold thread ⟨.spawn s.spawned true, false⟩)
        else some s
  | .payloadRaises thread =>
    match s.calls.get? thread with
    | some ⟨_, false⟩ => some (s.endCall thread)
    | _ => none
  | .send thread =>
    match s.calls.get? thread with
    | some ⟨w, false⟩ =>
      if w.alive then some (s.hold thread ⟨{ w with handed := w.handed + 1 }, true⟩) else none
    | _ => none
  | .sendFails thread spawns =>
    match s.calls.get? thread with
    | some ⟨w, false⟩ => some (s.abandon thread w spawns)
    | _ => none
  | .answer thread dropped torn spawns =>
    match s.calls.get? thread with
    | some ⟨w, true⟩ =>
      if w.pipe ≠ [] then some ((s.endCall thread).checkin (w.answered dropped torn) true spawns)
      else none
    | _ => none
  | .noAnswer thread spawns =>
    match s.calls.get? thread with
    | some ⟨w, true⟩ => some (s.abandon thread w spawns)
    | _ => none
  | .readRaises thread =>
    match s.calls.get? thread with
    | some ⟨w, true⟩ => if w.pipe.head? = some .job then some (s.endCall thread) else none
    | _ => none
  | .process id event =>
    some { s with
      available := s.available.map (·.actAs id event)
      calls := s.calls.mapVals fun _ h ↦ { h with worker := h.worker.actAs id event } }

/-- Every worker of the pool, idle or in a call. -/
def holdings : List Holding := s.available.map (⟨·, false⟩) ++ s.calls.values

def Quiet : Prop := s.calls.rows = []

end WorkerPool

/-- It lives, may be given a job, and is not inside one. -/
def PooledWorker.usable (w : PooledWorker) : Bool :=
  w.alive && w.jobsDone < maxJobsPerWorker && w.finished = w.handed

def Holding.inPool (h : Holding) : Bool := !h.worker.isOverflow

/-- How many workers belong to the pool itself. -/
def WorkerPool.pooled (s : WorkerPool) : ℕ := s.holdings.countP Holding.inPool

namespace WorkerPool

variable {s t : WorkerPool}

theorem holdings_hold (s : WorkerPool) (thread : ThreadId) (h : Holding) :
    (s.hold thread h).holdings.Perm (h :: (s.endCall thread).holdings) := by
  have hvalues : (s.hold thread h).holdings = (s.endCall thread).holdings ++ [h] := by
    simp only [holdings, hold, endCall, Table.values, Table.put, Table.erase, List.map_append,
      List.map_cons, List.map_nil, List.append_assoc]
  rw [hvalues]
  exact List.perm_append_singleton h _

theorem holdings_endCall {thread : ThreadId} {h : Holding} (hcall : s.calls.get? thread = some h) :
    s.holdings.Perm (h :: (s.endCall thread).holdings) := by
  have hrows := (s.calls.rows_perm_erase hcall).map Prod.snd
  rw [List.map_cons] at hrows
  exact (hrows.append_left _).trans List.perm_middle

theorem holdings_hold_of_none {thread : ThreadId} (hcall : s.calls.get? thread = none)
    (h : Holding) : (s.hold thread h).holdings.Perm (h :: s.holdings) := by
  have hsame : (s.endCall thread).holdings = s.holdings := by
    rw [holdings, holdings, endCall, Table.values, s.calls.rows_erase_of_none hcall]
    rfl
  rw [← hsame]
  exact holdings_hold s thread h

theorem holdings_append (s : WorkerPool) (w : PooledWorker) (spawned : ℕ) :
    ({ s with available := s.available ++ [w], spawned := spawned } : WorkerPool).holdings.Perm
      (⟨w, false⟩ :: s.holdings) := by
  simp only [holdings, List.map_append, List.map_cons, List.map_nil, List.append_assoc,
    List.singleton_append]
  exact List.perm_middle

/-- The stretch ends a call without a worker of the pool being checked in, or replaced. -/
def loses (s : WorkerPool) : CallEvent → Bool
  | .payloadRaises thread | .readRaises thread => (s.calls.get? thread).any Holding.inPool
  | .sendFails thread spawns | .noAnswer thread spawns =>
    !spawns && (s.calls.get? thread).any Holding.inPool
  | .answer thread _ _ spawns =>
    !spawns && (s.calls.get? thread).any fun h ↦
      h.inPool && maxJobsPerWorker ≤ h.worker.jobsDone + 1
  | _ => false

/-- A worker of the pool dies while it is available, or has died when its answer is read; or the
line that is read is not the runner's. -/
def spoils (s : WorkerPool) : CallEvent → Bool
  | .process id .dies => s.available.any (·.id = id)
  | .answer thread _ _ _ => (s.calls.get? thread).any fun h ↦
      h.inPool && (!h.worker.alive || h.worker.pipe.head? ≠ some .runner)
  | _ => false

end WorkerPool

/-- A job counts for the worker from when it is written. -/
structure Holding.Sound (h : Holding) : Prop where
  jobs : h.worker.jobsDone < maxJobsPerWorker
  handed : h.worker.handed = h.worker.jobsDone + h.sent.toNat

/-- Each answer was read from the end of a job. -/
structure Holding.InStep (h : Holding) : Prop where
  lines : h.worker.jobsDone + h.worker.pipe.count .runner ≤ h.worker.finished
  finished : h.worker.finished ≤ h.worker.handed

/-- What a stretch does to the workers that are held, whether the pool loses one, and whether it
spoils one. -/
inductive Exchange (s t : WorkerPool) : Bool → Bool → Prop
  | same {spoilt : Bool} (hperm : t.holdings.Perm s.holdings) (hspawned : t.spawned = s.spawned)
      (hfailed : t.failed = s.failed) : Exchange s t false spoilt
  | overflow {spoilt : Bool}
      (hperm : t.holdings.Perm (⟨.spawn s.spawned true, false⟩ :: s.holdings))
      (hspawned : t.spawned = s.spawned + 1) (hfailed : t.failed = s.failed) :
      Exchange s t false spoilt
  | change {spoilt : Bool} (h h' : Holding) (rest : List Holding)
      (hbefore : s.holdings.Perm (h :: rest)) (hafter : t.holdings.Perm (h' :: rest))
      (hid : h'.worker.id = h.worker.id) (hpool : h'.inPool = h.inPool)
      (hsound : h.Sound → h'.Sound) (hinStep : spoilt = false → h.InStep → h'.InStep)
      (hspawned : t.spawned = s.spawned) (hfailed : t.failed = s.failed) :
      Exchange s t false spoilt
  | replace {spoilt : Bool} (h : Holding) (rest : List Holding)
      (hbefore : s.holdings.Perm (h :: rest))
      (hafter : t.holdings.Perm (⟨.spawn s.spawned false, false⟩ :: rest)) (hpool : h.inPool)
      (hspawned : t.spawned = s.spawned + 1)
      (hfailed : t.failed = s.failed ∨ t.failed = h.worker.id :: s.failed) :
      Exchange s t false spoilt
  | drop {spoilt : Bool} (h : Holding) (rest : List Holding)
      (hbefore : s.holdings.Perm (h :: rest)) (hafter : t.holdings.Perm rest)
      (hspawned : t.spawned = s.spawned)
      (hfailed : t.failed = s.failed ∨ t.failed = h.worker.id :: s.failed) :
      Exchange s t h.inPool spoilt
  | process {spoilt : Bool} (id : WorkerId) (event : ProcessEvent)
      (hafter : t.holdings = s.holdings.map fun h ↦ { h with worker := h.worker.actAs id event })
      (hspawned : t.spawned = s.spawned) (hfailed : t.failed = s.failed) :
      Exchange s t false spoilt

theorem count_tear_le (lines : List LineSource) :
    (tear lines).count .runner ≤ lines.count .runner := by
  cases lines with
  | nil => exact le_rfl
  | cons line lines => exact (List.count_cons_of_ne (by decide)).trans_le List.count_le_count_cons

theorem count_linesLeft_le (lines : List LineSource) (dropped : ℕ) (torn : Bool) :
    (linesLeft (.runner :: lines) dropped torn).count .runner ≤ lines.count .runner := by
  have hdrop : (lines.drop dropped).count .runner ≤ lines.count .runner :=
    (List.drop_sublist _ _).count_le _
  rw [linesLeft, List.drop_succ_cons]
  split
  · exact (count_tear_le _).trans hdrop
  · exact hdrop

namespace WorkerPool

variable {s t : WorkerPool}

theorem unsent_of_match {o : Option Holding} {f : PooledWorker → Option WorkerPool}
    (h : (match o with | some ⟨w, false⟩ => f w | _ => none) = some t) :
    ∃ w, o = some ⟨w, false⟩ ∧ f w = some t := by
  rcases o with _ | ⟨w, _ | _⟩
  · cases h
  · exact ⟨w, rfl, h⟩
  · cases h

theorem sent_of_match {o : Option Holding} {f : PooledWorker → Option WorkerPool}
    (h : (match o with | some ⟨w, true⟩ => f w | _ => none) = some t) :
    ∃ w, o = some ⟨w, true⟩ ∧ f w = some t := by
  rcases o with _ | ⟨w, _ | _⟩
  · cases h
  · cases h
  · exact ⟨w, rfl, h⟩

theorem exchange_abandon {thread : ThreadId} {h : Holding} (hcall : s.calls.get? thread = some h)
    (spawns spoilt : Bool) :
    Exchange s (s.abandon thread h.worker spawns) (!spawns && h.inPool) spoilt := by
  have hbefore := holdings_endCall hcall
  cases hpool : h.inPool with
  | false =>
    have hoverflow : h.worker.isOverflow = true := by simpa [Holding.inPool] using hpool
    have hkept : (s.endCall thread).checkin h.worker false spawns = s.endCall thread :=
      if_pos hoverflow
    rw [Bool.and_false, ← hpool]
    refine .drop h _ hbefore ?_ ?_ (.inr rfl)
    · simp only [abandon, hkept]
      rfl
    · simp only [abandon, hkept]
      rfl
  | true =>
    have hoverflow : ¬ h.worker.isOverflow = true := by simpa [Holding.inPool] using hpool
    cases spawns with
    | false =>
      have hkept : (s.endCall thread).checkin h.worker false false = s.endCall thread := by
        rw [checkin, if_neg hoverflow, if_pos (.inl rfl)]
        rfl
      rw [Bool.not_false, Bool.true_and, ← hpool]
      refine .drop h _ hbefore ?_ ?_ (.inr rfl)
      · simp only [abandon, hkept]
        rfl
      · simp only [abandon, hkept]
        rfl
    | true =>
      have hreplaced : (s.endCall thread).checkin h.worker false true =
          { s.endCall thread with
            available := s.available ++ [.spawn s.spawned false]
            spawned := s.spawned + 1 } := by
        rw [checkin, if_neg hoverflow, if_pos (.inl rfl)]
        rfl
      refine .replace h _ hbefore ?_ hpool ?_ (.inr rfl)
      · simp only [abandon, hreplaced]
        exact holdings_append (s.endCall thread) _ (s.spawned + 1)
      · simp only [abandon, hreplaced]

theorem exchange_answer {thread : ThreadId} {w : PooledWorker}
    (hcall : s.calls.get? thread = some ⟨w, true⟩) (dropped : ℕ) (torn spawns : Bool) :
    Exchange s ((s.endCall thread).checkin (w.answered dropped torn) true spawns)
      (!spawns && (Holding.inPool ⟨w, true⟩ && maxJobsPerWorker ≤ w.jobsDone + 1))
      (Holding.inPool ⟨w, true⟩ && (!w.alive || w.pipe.head? ≠ some .runner)) := by
  have hbefore := holdings_endCall hcall
  have hanswered : (w.answered dropped torn).isOverflow = w.isOverflow ∧
      (w.answered dropped torn).jobsDone = w.jobsDone + 1 := ⟨rfl, rfl⟩
  rw [checkin, hanswered.1, hanswered.2]
  by_cases hoverflow : w.isOverflow = true
  · have hpool : Holding.inPool ⟨w, true⟩ = false := by simp [Holding.inPool, hoverflow]
    rw [if_pos hoverflow, hpool, Bool.false_and, Bool.and_false, ← hpool]
    exact .drop ⟨w, true⟩ _ hbefore (.refl _) rfl (.inl rfl)
  · have hpool : Holding.inPool ⟨w, true⟩ = true := by simp [Holding.inPool, hoverflow]
    by_cases hretired : maxJobsPerWorker ≤ w.jobsDone + 1
    · rw [if_neg hoverflow, if_pos (.inr hretired), hpool]
      cases spawns with
      | false =>
        have hlost : (!false && (true && decide (maxJobsPerWorker ≤ w.jobsDone + 1))) =
            Holding.inPool ⟨w, true⟩ := by simp [hretired, hpool]
        rw [hlost]
        exact .drop ⟨w, true⟩ _ hbefore (.refl _) rfl (.inl rfl)
      | true =>
        have hafter := holdings_append (s.endCall thread) (.spawn s.spawned false) (s.spawned + 1)
        exact .replace ⟨w, true⟩ _ hbefore hafter hpool rfl (.inl rfl)
    · have hkept : ¬ (true = false ∨ maxJobsPerWorker ≤ w.jobsDone + 1) := by simpa using hretired
      rw [if_neg hoverflow, if_neg hkept, decide_eq_false hretired, Bool.and_false, Bool.and_false]
      refine .change ⟨w, true⟩ ⟨w.answered dropped torn, false⟩ _ hbefore
        (holdings_append (s.endCall thread) _ s.spawned) rfl rfl ?_ ?_ rfl rfl
      · rintro ⟨-, hhanded⟩
        exact ⟨not_le.mp hretired, hhanded⟩
      · rintro hspoilt ⟨hlines, hfinished⟩
        refine ⟨?_, hfinished⟩
        -- the line that is read is one of those that the script has written
        obtain ⟨lines, hpipe⟩ : ∃ lines, w.pipe = .runner :: lines := by
          rw [hpool, Bool.true_and, Bool.or_eq_false_iff] at hspoilt
          exact List.head?_eq_some_iff.mp (by simpa using hspoilt.2)
        have hcount := count_linesLeft_le lines dropped torn
        simp only [PooledWorker.answered, hpipe, List.count_cons_self] at hlines ⊢
        omega

theorem exchange_hold {thread : ThreadId} {h h' : Holding} (hcall : s.calls.get? thread = some h)
    (hid : h'.worker.id = h.worker.id) (hpool : h'.inPool = h.inPool)
    (hsound : h.Sound → h'.Sound) {spoilt : Bool} (hinStep : spoilt = false → h.InStep → h'.InStep) :
    Exchange s (s.hold thread h') false spoilt :=
  .change h h' _ (holdings_endCall hcall) (holdings_hold s thread h') hid hpool hsound hinStep rfl
    rfl

theorem checkout_cases {thread : ThreadId} {spawns : Bool}
    (hstep : s.step (.checkout thread spawns) = some t) : s.calls.get? thread = none ∧
      ((∃ rest w, s.available = rest ++ [w] ∧
          t = { s with available := rest }.hold thread ⟨w, false⟩) ∨
        t = { s with spawned := s.spawned + 1 }.hold thread ⟨.spawn s.spawned true, false⟩ ∨
        t = s) := by
  simp only [step] at hstep
  cases hcall : s.calls.get? thread with
  | some h => simp [hcall] at hstep
  | none =>
    refine ⟨rfl, ?_⟩
    rw [hcall] at hstep
    cases hlast : s.available.getLast? with
    | some w =>
      simp only [hlast, Option.some.injEq] at hstep
      exact .inl ⟨_, w, (List.dropLast_append_getLast? w hlast).symm, hstep.symm⟩
    | none =>
      simp only [hlast] at hstep
      cases spawns with
      | true => exact .inr (.inl (Option.some.inj hstep).symm)
      | false => exact .inr (.inr (Option.some.inj hstep).symm)

theorem exchange_checkout {thread : ThreadId} {spawns spoilt : Bool}
    (hstep : s.step (.checkout thread spawns) = some t) : Exchange s t false spoilt := by
  obtain ⟨hcall, ⟨rest, w, havail, rfl⟩ | rfl | rfl⟩ := checkout_cases hstep
  · refine .same ?_ rfl rfl
    have hback := holdings_append { s with available := rest } w s.spawned
    rw [← havail] at hback
    exact (holdings_hold_of_none (s := { s with available := rest }) hcall _).trans hback.symm
  · exact .overflow
      (holdings_hold_of_none (s := { s with spawned := s.spawned + 1 }) hcall _) rfl rfl
  · exact .same (.refl _) rfl rfl

theorem step_exchange {e : CallEvent} (hstep : s.step e = some t) :
    Exchange s t (s.loses e) (s.spoils e) := by
  cases e with
  | checkout thread spawns => exact exchange_checkout hstep
  | payloadRaises thread =>
    obtain ⟨w, hcall, ht⟩ := unsent_of_match hstep
    obtain rfl := Option.some.inj ht
    simp only [loses, hcall, Option.any_some]
    exact .drop ⟨w, false⟩ _ (holdings_endCall hcall) (.refl _) rfl (.inl rfl)
  | send thread =>
    obtain ⟨w, hcall, ht⟩ := unsent_of_match hstep
    obtain ⟨-, ht⟩ := Option.ite_none_right_eq_some.mp ht
    obtain rfl := Option.some.inj ht
    have hsound (h : Holding.Sound ⟨w, false⟩) :
        Holding.Sound ⟨{ w with handed := w.handed + 1 }, true⟩ :=
      ⟨h.jobs, congrArg (· + 1) h.handed⟩
    have hinStep (h : Holding.InStep ⟨w, false⟩) :
        Holding.InStep ⟨{ w with handed := w.handed + 1 }, true⟩ :=
      ⟨h.lines, Nat.le_succ_of_le h.finished⟩
    refine exchange_hold hcall ?_ ?_ hsound fun _ ↦ hinStep
    · rfl
    · rfl
  | sendFails thread spawns =>
    obtain ⟨w, hcall, ht⟩ := unsent_of_match hstep
    obtain rfl := Option.some.inj ht
    simp only [loses, hcall, Option.any_some]
    exact exchange_abandon hcall spawns _
  | answer thread dropped torn spawns =>
    obtain ⟨w, hcall, ht⟩ := sent_of_match hstep
    obtain ⟨-, ht⟩ := Option.ite_none_right_eq_some.mp ht
    obtain rfl := Option.some.inj ht
    simp only [loses, spoils, hcall, Option.any_some]
    exact exchange_answer hcall dropped torn spawns
  | noAnswer thread spawns =>
    obtain ⟨w, hcall, ht⟩ := sent_of_match hstep
    obtain rfl := Option.some.inj ht
    simp only [loses, hcall, Option.any_some]
    exact exchange_abandon hcall spawns _
  | readRaises thread =>
    obtain ⟨w, hcall, ht⟩ := sent_of_match hstep
    obtain ⟨-, ht⟩ := Option.ite_none_right_eq_some.mp ht
    obtain rfl := Option.some.inj ht
    simp only [loses, hcall, Option.any_some]
    exact .drop ⟨w, true⟩ _ (holdings_endCall hcall) (.refl _) rfl (.inl rfl)
  | process id event =>
    obtain rfl := Option.some.inj hstep
    refine .process id event ?_ rfl rfl
    simp only [holdings, Table.values, Table.mapVals, List.map_append, List.map_map]
    rfl

end WorkerPool

/-- A process leaves alone what the pool keeps of its worker. -/
theorem PooledWorker.actAs_kept (w : PooledWorker) (id : WorkerId) (event : ProcessEvent) :
    (w.actAs id event).id = w.id ∧ (w.actAs id event).isOverflow = w.isOverflow ∧
      (w.actAs id event).jobsDone = w.jobsDone ∧ (w.actAs id event).handed = w.handed := by
  rw [actAs]
  split
  · cases event with
    | dies => exact ⟨rfl, rfl, rfl, rfl⟩
    | finishes =>
      rw [act]
      split
      · exact ⟨rfl, rfl, rfl, rfl⟩
      · exact ⟨rfl, rfl, rfl, rfl⟩
    | prints =>
      rw [act]
      split
      · exact ⟨rfl, rfl, rfl, rfl⟩
      · exact ⟨rfl, rfl, rfl, rfl⟩
  · exact ⟨rfl, rfl, rfl, rfl⟩

theorem Holding.Sound.actAs {h : Holding} (hsound : h.Sound) (id : WorkerId)
    (event : ProcessEvent) : Holding.Sound { h with worker := h.worker.actAs id event } := by
  obtain ⟨-, -, hjobs, hhanded⟩ := h.worker.actAs_kept id event
  exact ⟨hjobs ▸ hsound.jobs, hjobs.symm ▸ hhanded.trans hsound.handed⟩

/-- Only the end of a job adds a line of the runner. -/
theorem Holding.InStep.actAs {h : Holding} (hinStep : h.InStep) (id : WorkerId)
    (event : ProcessEvent) : Holding.InStep { h with worker := h.worker.actAs id event } := by
  obtain ⟨hlines, hfinished⟩ := hinStep
  rw [PooledWorker.actAs]
  split
  · cases event with
    | dies => exact ⟨hlines, hfinished⟩
    | finishes =>
      rw [PooledWorker.act]
      split
      · next hbusy =>
        refine ⟨?_, hbusy.2⟩
        simp only [List.count_append, List.count_singleton_self]
        omega
      · exact ⟨hlines, hfinished⟩
    | prints =>
      rw [PooledWorker.act]
      split
      · refine ⟨?_, hfinished⟩
        simp only [List.count_append, List.count_singleton]
        exact hlines
      · exact ⟨hlines, hfinished⟩
  · exact ⟨hlines, hfinished⟩

/-- The workers held are distinct, each within its jobs, and none of them has failed. -/
structure Accounted (l : List Holding) (spawned : ℕ) (failed : List WorkerId) : Prop where
  ids : (l.map (·.worker.id)).Nodup
  known : ∀ h ∈ l, h.worker.id < spawned
  sound : ∀ h ∈ l, h.Sound
  old : ∀ id ∈ failed, id < spawned
  gone : ∀ h ∈ l, h.worker.id ∉ failed

namespace Accounted

variable {h h' : Holding} {l l' : List Holding} {spawned : ℕ} {failed : List WorkerId}

theorem perm (hl : Accounted l spawned failed) (hperm : l'.Perm l) :
    Accounted l' spawned failed where
  ids := ((hperm.map _).nodup_iff).mpr hl.ids
  known h hh := hl.known h (hperm.subset hh)
  sound h hh := hl.sound h (hperm.subset hh)
  old := hl.old
  gone h hh := hl.gone h (hperm.subset hh)

theorem spawn (hl : Accounted l spawned failed) (isOverflow : Bool) :
    Accounted (⟨.spawn spawned isOverflow, false⟩ :: l) (spawned + 1) failed where
  ids := by
    refine List.nodup_cons.mpr ⟨fun hmem ↦ ?_, hl.ids⟩
    obtain ⟨h, hh, hid⟩ := List.mem_map.mp hmem
    exact absurd (hl.known h hh) (by rw [hid]; exact lt_irrefl spawned)
  known := List.forall_mem_cons.mpr
    ⟨Nat.lt_succ_self spawned, fun h hh ↦ Nat.lt_succ_of_lt (hl.known h hh)⟩
  sound := List.forall_mem_cons.mpr ⟨⟨(by decide : 0 < maxJobsPerWorker), rfl⟩, hl.sound⟩
  old id hid := Nat.lt_succ_of_lt (hl.old id hid)
  gone := List.forall_mem_cons.mpr
    ⟨fun hid ↦ lt_irrefl spawned (hl.old spawned hid), hl.gone⟩

theorem change (hl : Accounted (h :: l) spawned failed) (hid : h'.worker.id = h.worker.id)
    (hsound : h.Sound → h'.Sound) : Accounted (h' :: l) spawned failed where
  ids := by
    rw [List.map_cons, hid]
    exact hl.ids
  known := List.forall_mem_cons.mpr
    ⟨hid ▸ hl.known h List.mem_cons_self, fun g hg ↦ hl.known g (List.mem_cons_of_mem h hg)⟩
  sound := List.forall_mem_cons.mpr
    ⟨hsound (hl.sound h List.mem_cons_self), fun g hg ↦ hl.sound g (List.mem_cons_of_mem h hg)⟩
  old := hl.old
  gone := List.forall_mem_cons.mpr
    ⟨hid ▸ hl.gone h List.mem_cons_self, fun g hg ↦ hl.gone g (List.mem_cons_of_mem h hg)⟩

theorem tail (hl : Accounted (h :: l) spawned failed) : Accounted l spawned failed where
  ids := (List.nodup_cons.mp hl.ids).2
  known g hg := hl.known g (List.mem_cons_of_mem h hg)
  sound g hg := hl.sound g (List.mem_cons_of_mem h hg)
  old := hl.old
  gone g hg := hl.gone g (List.mem_cons_of_mem h hg)

theorem fail (hl : Accounted (h :: l) spawned failed) :
    Accounted l spawned (h.worker.id :: failed) where
  ids := hl.tail.ids
  known := hl.tail.known
  sound := hl.tail.sound
  old := List.forall_mem_cons.mpr ⟨hl.known h List.mem_cons_self, hl.old⟩
  gone g hg hfailed := by
    rcases List.mem_cons.mp hfailed with hid | hid
    · exact (List.nodup_cons.mp hl.ids).1 (List.mem_map.mpr ⟨g, hg, hid⟩)
    · exact hl.tail.gone g hg hid

theorem actAs (hl : Accounted l spawned failed) (id : WorkerId) (event : ProcessEvent) :
    Accounted (l.map fun h ↦ { h with worker := h.worker.actAs id event }) spawned failed where
  ids := by
    have hids : (l.map fun h ↦ { h with worker := h.worker.actAs id event }).map (·.worker.id) =
        l.map (·.worker.id) := by
      rw [List.map_map]
      exact List.map_congr_left fun h _ ↦ (h.worker.actAs_kept id event).1
    rw [hids]
    exact hl.ids
  known := List.forall_mem_map.mpr fun h hh ↦ (h.worker.actAs_kept id event).1.symm ▸ hl.known h hh
  sound := List.forall_mem_map.mpr fun h hh ↦ (hl.sound h hh).actAs id event
  old := hl.old
  gone := List.forall_mem_map.mpr fun h hh ↦ (h.worker.actAs_kept id event).1.symm ▸ hl.gone h hh

end Accounted

namespace Exchange

variable {s t : WorkerPool} {lost spoilt : Bool}

theorem accounted (hst : Exchange s t lost spoilt) (hs : Accounted s.holdings s.spawned s.failed) :
    Accounted t.holdings t.spawned t.failed := by
  cases hst with
  | same hperm hspawned hfailed =>
    rw [hspawned, hfailed]
    exact hs.perm hperm
  | overflow hperm hspawned hfailed =>
    rw [hspawned, hfailed]
    exact (hs.spawn true).perm hperm
  | change h h' rest hbefore hafter hid hpool hsound hinStep hspawned hfailed =>
    rw [hspawned, hfailed]
    exact ((hs.perm hbefore.symm).change hid hsound).perm hafter
  | replace h rest hbefore hafter hpool hspawned hfailed =>
    have hheld := hs.perm hbefore.symm
    rw [hspawned]
    rcases hfailed with hfailed | hfailed
    · rw [hfailed]
      exact (hheld.tail.spawn false).perm hafter
    · rw [hfailed]
      exact (hheld.fail.spawn false).perm hafter
  | drop h rest hbefore hafter hspawned hfailed =>
    have hheld := hs.perm hbefore.symm
    rw [hspawned]
    rcases hfailed with hfailed | hfailed
    · rw [hfailed]
      exact hheld.tail.perm hafter
    · rw [hfailed]
      exact hheld.fail.perm hafter
  | process id event hafter hspawned hfailed =>
    rw [hafter, hspawned, hfailed]
    exact hs.actAs id event

theorem inStep (hst : Exchange s t lost false) (hs : ∀ h ∈ s.holdings, h.InStep) :
    ∀ h ∈ t.holdings, h.InStep := by
  have hspawn (isOverflow : Bool) : Holding.InStep ⟨.spawn s.spawned isOverflow, false⟩ :=
    ⟨le_rfl, le_rfl⟩
  have hrest {h : Holding} {rest : List Holding} (hbefore : s.holdings.Perm (h :: rest)) :
      ∀ g ∈ rest, g.InStep := fun g hg ↦ hs g (hbefore.mem_iff.mpr (List.mem_cons_of_mem _ hg))
  cases hst with
  | same hperm hspawned hfailed => exact fun h hh ↦ hs h (hperm.subset hh)
  | overflow hperm hspawned hfailed =>
    intro h hh
    rcases List.mem_cons.mp (hperm.subset hh) with rfl | hh
    · exact hspawn true
    · exact hs h hh
  | change h h' rest hbefore hafter hid hpool hsound hinStep hspawned hfailed =>
    intro g hg
    rcases List.mem_cons.mp (hafter.subset hg) with rfl | hg
    · exact hinStep rfl (hs h (hbefore.mem_iff.mpr List.mem_cons_self))
    · exact hrest hbefore g hg
  | replace h rest hbefore hafter hpool hspawned hfailed =>
    intro g hg
    rcases List.mem_cons.mp (hafter.subset hg) with rfl | hg
    · exact hspawn false
    · exact hrest hbefore g hg
  | drop h rest hbefore hafter hspawned hfailed =>
    exact fun g hg ↦ hrest hbefore g (hafter.subset hg)
  | process id event hafter hspawned hfailed =>
    rw [hafter]
    exact List.forall_mem_map.mpr fun h hh ↦ (hs h hh).actAs id event

theorem pooled_add (hst : Exchange s t lost spoilt) : t.pooled + lost.toNat = s.pooled := by
  cases hst with
  | same hperm hspawned hfailed => exact hperm.countP_eq _
  | overflow hperm hspawned hfailed =>
    have hover : ¬ (⟨.spawn s.spawned true, false⟩ : Holding).inPool = true :=
      by simp [Holding.inPool, PooledWorker.spawn]
    exact (hperm.countP_eq _).trans (List.countP_cons_of_neg hover)
  | change h h' rest hbefore hafter hid hpool hsound hinStep hspawned hfailed =>
    rw [WorkerPool.pooled, WorkerPool.pooled, hafter.countP_eq, hbefore.countP_eq,
      List.countP_cons, List.countP_cons, hpool]
    rfl
  | replace h rest hbefore hafter hpool hspawned hfailed =>
    rw [WorkerPool.pooled, WorkerPool.pooled, hafter.countP_eq, hbefore.countP_eq,
      List.countP_cons, List.countP_cons, if_pos hpool]
    rfl
  | drop h rest hbefore hafter hspawned hfailed =>
    rw [WorkerPool.pooled, WorkerPool.pooled, hafter.countP_eq, hbefore.countP_eq,
      List.countP_cons]
    cases h.inPool <;> rfl
  | process id event hafter hspawned hfailed =>
    rw [WorkerPool.pooled, WorkerPool.pooled, hafter, List.countP_map]
    refine List.countP_congr fun h _ ↦ ?_
    simp only [Function.comp_apply, Holding.inPool, (h.worker.actAs_kept id event).2.1]

theorem failed_subset (hst : Exchange s t lost spoilt) : s.failed ⊆ t.failed := by
  have hcons : ∀ h : Holding, t.failed = s.failed ∨ t.failed = h.worker.id :: s.failed →
      s.failed ⊆ t.failed := by
    rintro h (hfailed | hfailed)
    · exact hfailed ▸ List.Subset.refl _
    · exact hfailed ▸ List.subset_cons_self _ _
  cases hst with
  | same hperm hspawned hfailed => exact hfailed ▸ List.Subset.refl _
  | overflow hperm hspawned hfailed => exact hfailed ▸ List.Subset.refl _
  | change h h' rest hbefore hafter hid hpool hsound hinStep hspawned hfailed =>
    exact hfailed ▸ List.Subset.refl _
  | replace h rest hbefore hafter hpool hspawned hfailed => exact hcons h hfailed
  | drop h rest hbefore hafter hspawned hfailed => exact hcons h hfailed
  | process id event hafter hspawned hfailed => exact hfailed ▸ List.Subset.refl _

end Exchange

namespace WorkerPool

variable {s t : WorkerPool}

/-- Where the available workers of a step come from. -/
inductive Enters (s : WorkerPool) : CallEvent → PooledWorker → Prop
  | stays (e : CallEvent) (w : PooledWorker) (hw : w ∈ s.available) : Enters s e w
  | acts (id : WorkerId) (event : ProcessEvent) (w : PooledWorker) (hw : w ∈ s.available) :
      Enters s (.process id event) (w.actAs id event)
  | spawned (e : CallEvent) : Enters s e (.spawn s.spawned false)
  | back (thread : ThreadId) (dropped : ℕ) (torn spawns : Bool) (w : PooledWorker)
      (hcall : s.calls.get? thread = some ⟨w, true⟩) (hpool : w.isOverflow = false) :
      Enters s (.answer thread dropped torn spawns) (w.answered dropped torn)

theorem mem_checkin_available {w v : PooledWorker} {healthy spawns : Bool}
    (hv : v ∈ (s.checkin w healthy spawns).available) :
    v ∈ s.available ∨ v = .spawn s.spawned false ∨
      v = w ∧ w.isOverflow = false ∧ healthy = true := by
  by_cases hoverflow : w.isOverflow = true
  · rw [checkin, if_pos hoverflow] at hv
    exact .inl hv
  by_cases hretired : healthy = false ∨ maxJobsPerWorker ≤ w.jobsDone
  · rw [checkin, if_neg hoverflow, if_pos hretired] at hv
    cases spawns with
    | false => exact .inl hv
    | true => exact (List.mem_append.mp hv).imp_right fun h ↦ .inl (List.mem_singleton.mp h)
  · rw [checkin, if_neg hoverflow, if_neg hretired] at hv
    refine (List.mem_append.mp hv).imp_right fun h ↦ .inr ⟨List.mem_singleton.mp h, ?_, ?_⟩
    · exact Bool.eq_false_iff.mpr hoverflow
    · exact Bool.not_eq_false _ ▸ (not_or.mp hretired).1

/-- A pool whose workers are modelled with their pipes checks them in alike, as long as no
`Popen` fails. -/
theorem checkin_available_agrees {ρ : Type} {p : Pool ρ} {w : PooledWorker} {v : Worker}
    (hs : s.available.map (fun w ↦ (w.jobsDone, w.isOverflow)) =
      p.available.map fun v ↦ (v.jobsDone, v.isOverflow))
    (hw : (w.jobsDone, w.isOverflow) = (v.jobsDone, v.isOverflow)) (healthy : Bool) :
    (s.checkin w healthy true).available.map (fun w ↦ (w.jobsDone, w.isOverflow)) =
      (p.checkin v healthy).map fun v ↦ (v.jobsDone, v.isOverflow) := by
  obtain ⟨hjobs, hoverflow⟩ := Prod.mk.inj hw
  rw [checkin, Pool.checkin, hjobs, hoverflow]
  split
  · exact hs
  split
  · simp only [if_true, List.map_append, hs]
    rfl
  · simp only [List.map_append, hs, List.map_cons, List.map_nil, hw]

theorem enters_of_mem_available {e : CallEvent} (hstep : s.step e = some t) {v : PooledWorker}
    (hv : v ∈ t.available) : Enters s e v := by
  have habandon : ∀ thread w spawns, v ∈ (s.abandon thread w spawns).available →
      Enters s e v := by
    rintro thread w spawns hv
    rcases mem_checkin_available hv with hold | rfl | ⟨-, -, hfalse⟩
    · exact .stays e v hold
    · exact .spawned e
    · cases hfalse
  cases e with
  | checkout thread spawns =>
    obtain ⟨-, ⟨rest, w, havail, rfl⟩ | rfl | rfl⟩ := checkout_cases hstep
    · exact .stays _ v (havail ▸ List.mem_append_left [w] hv)
    · exact .stays _ v hv
    · exact .stays _ v hv
  | payloadRaises thread =>
    obtain ⟨w, hcall, ht⟩ := unsent_of_match hstep
    obtain rfl := Option.some.inj ht
    exact .stays _ v hv
  | send thread =>
    obtain ⟨w, hcall, ht⟩ := unsent_of_match hstep
    obtain ⟨-, ht⟩ := Option.ite_none_right_eq_some.mp ht
    obtain rfl := Option.some.inj ht
    exact .stays _ v hv
  | sendFails thread spawns =>
    obtain ⟨w, hcall, ht⟩ := unsent_of_match hstep
    obtain rfl := Option.some.inj ht
    exact habandon thread w spawns hv
  | answer thread dropped torn spawns =>
    obtain ⟨w, hcall, ht⟩ := sent_of_match hstep
    obtain ⟨-, ht⟩ := Option.ite_none_right_eq_some.mp ht
    obtain rfl := Option.some.inj ht
    rcases mem_checkin_available hv with hold | rfl | ⟨rfl, hpool, -⟩
    · exact .stays _ v hold
    · exact .spawned _
    · exact .back thread dropped torn spawns w hcall hpool
  | noAnswer thread spawns =>
    obtain ⟨w, hcall, ht⟩ := sent_of_match hstep
    obtain rfl := Option.some.inj ht
    exact habandon thread w spawns hv
  | readRaises thread =>
    obtain ⟨w, hcall, ht⟩ := sent_of_match hstep
    obtain ⟨-, ht⟩ := Option.ite_none_right_eq_some.mp ht
    obtain rfl := Option.some.inj ht
    exact .stays _ v hv
  | process id event =>
    obtain rfl := Option.some.inj hstep
    obtain ⟨w, hw, rfl⟩ := List.mem_map.mp hv
    exact .acts id event w hw

/-- A worker that is available is one of the pool's own. -/
theorem Enters.isOverflow {e : CallEvent} {v : PooledWorker} (hv : Enters s e v)
    (hs : ∀ w ∈ s.available, w.isOverflow = false) : v.isOverflow = false := by
  cases hv with
  | stays _ _ hw => exact hs v hw
  | acts id event w hw => exact (w.actAs_kept id event).2.1.trans (hs w hw)
  | spawned => rfl
  | back thread dropped torn spawns w hcall hpool => exact hpool

theorem alive_actAs {w : PooledWorker} {id : WorkerId} {event : ProcessEvent}
    (h : event = .dies → w.id ≠ id) : (w.actAs id event).alive = w.alive := by
  rw [PooledWorker.actAs]
  split
  · next hid =>
    cases event with
    | dies => exact absurd hid (h rfl)
    | finishes =>
      rw [PooledWorker.act]
      split
      · rfl
      · rfl
    | prints =>
      rw [PooledWorker.act]
      split
      · rfl
      · rfl
  · rfl

theorem Enters.alive {e : CallEvent} {v : PooledWorker} (hv : Enters s e v)
    (hkept : s.spoils e = false) (hs : ∀ w ∈ s.available, w.alive) : v.alive := by
  cases hv with
  | stays _ _ hw => exact hs v hw
  | acts id event w hw =>
    rw [alive_actAs]
    · exact hs w hw
    · rintro rfl hid
      have hspoiled : s.spoils (.process id .dies) = true :=
        List.any_eq_true.mpr ⟨w, hw, by simpa using hid⟩
      exact absurd hspoiled (by simp [hkept])
  | spawned => rfl
  | back thread dropped torn spawns w hcall hpool =>
    simp only [spoils, hcall, Option.any_some, Holding.inPool, hpool, Bool.not_false,
      Bool.true_and, Bool.or_eq_false_iff] at hkept
    simpa [PooledWorker.answered] using hkept.1

/-- A worker that is available and has answered in step is not inside a job. -/
theorem usable_of_inStep {w : PooledWorker} (halive : w.alive) (hsound : Holding.Sound ⟨w, false⟩)
    (hinStep : Holding.InStep ⟨w, false⟩) : w.usable := by
  obtain ⟨hjobs, hhanded⟩ := hsound
  obtain ⟨hlines, hfinished⟩ := hinStep
  simp only [Bool.toNat_false, Nat.add_zero] at hjobs hhanded hlines hfinished
  have hidle : w.finished = w.handed := by omega
  simp [PooledWorker.usable, halive, hjobs, hidle]

theorem accounted_init (size : ℕ) :
    Accounted (init size).holdings (init size).spawned (init size).failed where
  ids := by
    have hids : (init size).holdings.map (·.worker.id) = List.range size := by
      simp [holdings, init, Table.values, Table.empty, PooledWorker.spawn, Function.comp_def]
    rw [hids]
    exact List.nodup_range
  known h hh := by
    simp only [holdings, init, Table.values, Table.empty, List.map_map, List.map_nil,
      List.append_nil, List.mem_map, List.mem_range] at hh
    obtain ⟨i, hi, rfl⟩ := hh
    exact hi
  sound h hh := by
    simp only [holdings, init, Table.values, Table.empty, List.map_map, List.map_nil,
      List.append_nil, List.mem_map, List.mem_range] at hh
    obtain ⟨i, hi, rfl⟩ := hh
    exact ⟨(by decide : 0 < maxJobsPerWorker), rfl⟩
  old _ hid := absurd hid List.not_mem_nil
  gone _ _ := List.not_mem_nil

theorem pooled_of_quiet (hquiet : s.Quiet) (hs : ∀ w ∈ s.available, w.isOverflow = false) :
    s.pooled = s.available.length := by
  have hholdings : s.holdings = s.available.map (⟨·, false⟩) := by
    rw [holdings, Table.values, hquiet]
    exact List.append_nil _
  rw [pooled, hholdings, List.countP_map]
  refine List.countP_eq_length.mpr fun w hw ↦ ?_
  simp [Holding.inPool, hs w hw]

variable {size : ℕ} {events : List CallEvent}

theorem run_accounted (hrun : Run step s events t)
    (hs : Accounted s.holdings s.spawned s.failed) :
    Accounted t.holdings t.spawned t.failed := by
  have hkeep (s : WorkerPool) (e : CallEvent) (t : WorkerPool)
      (hs : Accounted s.holdings s.spawned s.failed) (hstep : s.step e = some t) :
      Accounted t.holdings t.spawned t.failed := (step_exchange hstep).accounted hs
  exact hrun.invariant hkeep hs

theorem run_isOverflow (hrun : Run step (init size) events s) :
    ∀ w ∈ s.available, w.isOverflow = false := by
  have hkeep (s : WorkerPool) (e : CallEvent) (t : WorkerPool)
      (hs : ∀ w ∈ s.available, w.isOverflow = false) (hstep : s.step e = some t) :
      ∀ w ∈ t.available, w.isOverflow = false :=
    fun w hw ↦ (enters_of_mem_available hstep hw).isOverflow hs
  refine hrun.invariant hkeep ?_
  intro w hw
  obtain ⟨i, -, rfl⟩ := List.mem_map.mp hw
  rfl

/-- The pool never has more workers of its own than before, and as many only if none is lost. -/
theorem run_pooled (hrun : Run step s events t) : t.pooled ≤ s.pooled ∧
    (t.pooled = s.pooled ↔ Along step (fun s e _ ↦ s.loses e = false) s events) := by
  induction hrun with
  | nil => exact ⟨le_refl _, iff_of_true rfl trivial⟩
  | @cons s t u e events hstep _ ih =>
    have hpooled := (step_exchange hstep).pooled_add
    rw [along_cons hstep, ← ih.2]
    have hle := ih.1
    cases hlost : s.loses e with
    | false =>
      rw [hlost, Bool.toNat_false, Nat.add_zero] at hpooled
      rw [← hpooled]
      exact ⟨hle, (and_iff_right rfl).symm⟩
    | true =>
      rw [hlost, Bool.toNat_true] at hpooled
      refine ⟨by omega, iff_of_false (by omega) fun h ↦ Bool.noConfusion h.1⟩

theorem run_failed (hrun : Run step s events t) : s.failed ⊆ t.failed := by
  induction hrun with
  | nil => exact List.Subset.refl _
  | cons hstep _ ih => exact List.Subset.trans (step_exchange hstep).failed_subset ih

theorem run_alive (hrun : Run step (init size) events s)
    (halong : Along step (fun s e _ ↦ s.spoils e = false) (init size) events) :
    ∀ w ∈ s.available, w.alive := by
  have hstep (s : WorkerPool) (e : CallEvent) (t : WorkerPool) (hs : ∀ w ∈ s.available, w.alive)
      (hkept : s.spoils e = false) (hstep : s.step e = some t) : ∀ w ∈ t.available, w.alive :=
    fun w hw ↦ (enters_of_mem_available hstep hw).alive hkept hs
  refine hrun.invariant_along hstep halong ?_
  intro w hw
  obtain ⟨i, -, rfl⟩ := List.mem_map.mp hw
  rfl

theorem run_inStep (hrun : Run step (init size) events s)
    (halong : Along step (fun s e _ ↦ s.spoils e = false) (init size) events) :
    ∀ h ∈ s.holdings, h.InStep := by
  have hstep (s : WorkerPool) (e : CallEvent) (t : WorkerPool) (hs : ∀ h ∈ s.holdings, h.InStep)
      (hkept : s.spoils e = false) (hstep : s.step e = some t) : ∀ h ∈ t.holdings, h.InStep :=
    (hkept ▸ step_exchange hstep).inStep hs
  refine hrun.invariant_along hstep halong ?_
  intro h hh
  simp only [holdings, init, Table.values, Table.empty, List.map_map, List.map_nil,
    List.append_nil, List.mem_map, List.mem_range] at hh
  obtain ⟨i, -, rfl⟩ := hh
  exact ⟨le_rfl, le_rfl⟩

theorem pooled_init (size : ℕ) : (init size).pooled = size := by
  have hquiet : (init size).Quiet := rfl
  rw [pooled_of_quiet hquiet (run_isOverflow (.nil _))]
  simp [init]

/-- A pool at rest has all its workers exactly if no step has lost one; they are usable at any time
as long as no step spoils one. In every run, no worker is handed more jobs than it may do, and none
that has failed is ever used again. -/
theorem conserves_workers (hrun : Run step (init size) events s) :
    (s.Quiet → (s.available.length = size ↔
      Along step (fun s e _ ↦ s.loses e = false) (init size) events)) ∧
    (Along step (fun s e _ ↦ s.spoils e = false) (init size) events →
      ∀ w ∈ s.available, w.usable) ∧
    (∀ h ∈ s.holdings, h.worker.handed ≤ maxJobsPerWorker) ∧
    ∀ later t, Run step s later t → ∀ h ∈ t.holdings, h.worker.id ∉ s.failed := by
  have hiff : s.Quiet → (s.available.length = size ↔
      Along step (fun s e _ ↦ s.loses e = false) (init size) events) := by
    intro hquiet
    rw [← pooled_of_quiet hquiet (run_isOverflow hrun), ← (run_pooled hrun).2, pooled_init]
  have haccounted := run_accounted hrun (accounted_init size)
  refine ⟨hiff, fun halong w hw ↦ ?_, fun h hh ↦ ?_, fun later t hlater h hh hfailed ↦ ?_⟩
  · have hmem : ⟨w, false⟩ ∈ s.holdings := List.mem_append_left _ (List.mem_map_of_mem hw)
    exact usable_of_inStep (run_alive hrun halong w hw) (haccounted.sound _ hmem)
      (run_inStep hrun halong _ hmem)
  · obtain ⟨hjobs, hhanded⟩ := haccounted.sound h hh
    have hsent := h.sent.toNat_le
    omega
  · exact (run_accounted hlater haccounted).gone h hh (run_failed hlater hfailed)

def answeredThenTimedOut : List CallEvent :=
  [.checkout 0 true, .send 0, .process 0 .finishes, .answer 0 0 false true, .checkout 0 true,
    .send 0, .noAnswer 0 true]

/-- A job is answered, the next one times out. -/
theorem conserves_workers_timeout : ∃ s, Run step (init 1) answeredThenTimedOut s ∧
    s.available.length = 1 ∧ ∀ w ∈ s.available, w.usable := by
  have hrun : Run step (init 1) answeredThenTimedOut ⟨[.spawn 1 false], .empty, 2, [0]⟩ :=
    exec_eq_some.mp rfl
  have hconserved := conserves_workers hrun
  exact ⟨_, hrun, (hconserved.1 rfl).mpr (by decide), hconserved.2.1 (by decide)⟩

/-- A configuration that is not JSON: the call raises with the worker checked out. And a job that
prints a line and goes on: its worker is checked in, and still inside it. -/
theorem unserialisable_job_loses_worker :
    (∃ s, Run step (init 1) [.checkout 0 true, .payloadRaises 0] s ∧ s.Quiet ∧ s.available = []) ∧
    ∃ s w, Run step (init 1) [.checkout 0 true, .send 0, .process 0 .prints,
        .answer 0 0 false true] s ∧ s.Quiet ∧ s.available = [w] ∧ w.usable = false :=
  ⟨⟨⟨[], .empty, 1, []⟩, exec_eq_some.mp rfl, rfl, rfl⟩,
    ⟨[⟨0, 1, false, true, 1, 0, []⟩], .empty, 1, []⟩, _, exec_eq_some.mp rfl, rfl, rfl, rfl⟩

end WorkerPool

end TradingOS.Sandbox
