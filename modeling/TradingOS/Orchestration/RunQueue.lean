import TradingOS.Orchestration.RunLifecycle

namespace TradingOS.Orchestration

open Lib Lib.Runs

/-- `_ACTIVE_STATUSES`. -/
def RunStatus.isActive : RunStatus → Bool
  | planning | running | waiting | stalled => true
  | _ => false

/-- The statuses a writer may assign. -/
def Writer.assigns : Writer → List RunStatus
  | .cancelRun => [.cancelled]
  | .runSchedulerLoop => [.running]
  | .finalize => [.waiting, .failed, .completed]
  | .settleRunAfterApproval => [.completed]
  | .recordCannotPlan => [.cannotPlan]
  | .planRunFailed => [.failed]
  | .checkStalledRuns => [.stalled]
  | .promoteQueued => [.planning]

/-- These run in the thread that `_dispatch_planning` has started for the run. -/
def Writer.isDispatched : Writer → Bool
  | .runSchedulerLoop | .finalize | .recordCannotPlan | .planRunFailed => true
  | _ => false

theorem Writer.ne_queued_of_assigns {w : Writer} {st : RunStatus} (h : st ∈ w.assigns) :
    st ≠ .queued := by
  rintro rfl
  cases w <;> simp [assigns] at h

structure OrganizationRun where
  status : RunStatus
  queuePosition : Option ℕ
  dispatched : Bool
  deriving DecidableEq

/-- The runs in the order of their creation. -/
abbrev RunTable := List OrganizationRun

inductive QueueEvent
  | createRun (autostart : Bool)
  | promoteQueued
  | write (run : ℕ) (writer : Writer) (status : RunStatus)
  deriving DecidableEq

namespace RunTable

variable (cap : ℕ) (rows : RunTable)

def activeRunCount : ℕ := rows.countP fun r ↦ r.status.isActive

def queue : List OrganizationRun := rows.filter fun r ↦ r.status = .queued

def createRun (autostart : Bool) : RunTable :=
  let atCapacity : Bool := cap ≤ rows.activeRunCount
  rows ++
    [{ status := if atCapacity then .queued else .planning
       queuePosition := if atCapacity then some (rows.queue.length + 1) else none
       dispatched := autostart && !atCapacity }]

/-- The first `queued` run there is leaves the queue. -/
def startOldest : RunTable → Option RunTable
  | [] => none
  | r :: rows =>
    if r.status = .queued then some (⟨.planning, none, true⟩ :: rows)
    else (startOldest rows).map (r :: ·)

/-- The loop of `promote_queued`, which starts at most as many runs as are queued. -/
def promoteLoop (cap : ℕ) : ℕ → RunTable → RunTable
  | 0, rows => rows
  | n + 1, rows =>
    if rows.activeRunCount < cap then
      match rows.startOldest with
      | none => rows
      | some rows => promoteLoop cap n rows
    else rows

def promoteQueued : RunTable := promoteLoop cap rows.queue.length rows

/-- Every writer replaces the status alone: a cancelled run keeps its queue position. -/
def step : QueueEvent → Option RunTable
  | .createRun autostart => some (rows.createRun cap autostart)
  | .promoteQueued => some (rows.promoteQueued cap)
  | .write i writer st =>
    match rows[i]? with
    | none => none
    | some r =>
      if writer.admits r.status ∧ (writer.isDispatched → r.dispatched) ∧ st ∈ writer.assigns ∧
          writer ≠ .promoteQueued then
        some (rows.modify i fun r ↦ { r with status := st })
      else none

/-- The runs carry the positions from `start` on, in their order. -/
def Numbered (start : ℕ) (rows : List OrganizationRun) : Prop :=
  rows.map OrganizationRun.queuePosition = (List.range' start rows.length).map some

structure Fair : Prop where
  capped : rows.activeRunCount ≤ cap
  numbered : Numbered 1 rows.queue
  busy : rows.queue ≠ [] → cap ≤ rows.activeRunCount

def statusAt (i : ℕ) : Option RunStatus := (rows[i]?).map OrganizationRun.status

def oldestQueued : Option ℕ := rows.findIdx? fun r ↦ r.status = .queued

/-- When an active run ends, the oldest queued run is started. -/
def StartsNext (rows rows' : RunTable) : Prop :=
  ∀ i st st' j, rows.statusAt i = some st → st.isActive → rows'.statusAt i = some st' →
    st'.isTerminal → rows.oldestQueued = some j → rows'.statusAt j = some .planning

/-- No slot is given up while a run is queued, none is taken beyond the cap, and no run leaves the
queue but the last one. -/
def Keeps : QueueEvent → Prop
  | .write i _ st => ∀ r, rows[i]? = some r →
    (r.status.isActive → st.isActive = false → rows.queue = []) ∧
    (r.status.isActive = false → st.isActive → rows.activeRunCount < cap) ∧
    (r.status = .queued → ∀ j q, i < j → rows[j]? = some q → q.status ≠ .queued)
  | _ => True

end RunTable

section Numbered

open RunTable

variable {start : ℕ} {r : OrganizationRun} {l l' : List OrganizationRun}

theorem numbered_nil : Numbered start [] := rfl

theorem numbered_append :
    Numbered start (l ++ l') ↔ Numbered start l ∧ Numbered (start + l.length) l' := by
  rw [Numbered, List.length_append, ← List.range'_append_1, List.map_append, List.map_append]
  constructor
  · intro h
    exact List.append_inj h (by simp)
  · rintro ⟨h, h'⟩
    rw [h, h']

theorem numbered_cons : Numbered start (r :: l) ↔ r.queuePosition = some start ∧
    Numbered (start + 1) l := by
  rw [Numbered, List.map_cons, List.length_cons, List.range'_succ, List.map_cons, List.cons_eq_cons]
  rfl

theorem eq_nil_of_numbered (h : Numbered start l) (h' : Numbered (start + 1) l) : l = [] := by
  cases l with
  | nil => rfl
  | cons r l =>
    have he := (numbered_cons.mp h).1.symm.trans (numbered_cons.mp h').1
    exact absurd (Option.some.inj he) (by omega)

end Numbered

namespace RunTable

section Split

variable {rows l₁ l₂ : RunTable} {r : OrganizationRun} {cap i : ℕ}

/-- A row and what stands before and after it. -/
theorem exists_split (h : rows[i]? = some r) : ∃ l₁ l₂ : RunTable, rows = l₁ ++ r :: l₂ ∧
    l₁.length = i ∧ ∀ f, rows.modify i f = l₁ ++ f r :: l₂ := by
  obtain ⟨hi, rfl⟩ := List.getElem?_eq_some_iff.mp h
  refine ⟨rows.take i, rows.drop (i + 1), ?_, ?_, fun f ↦ ?_⟩
  · simp
  · exact List.length_take_of_le hi.le
  · exact List.modify_eq_take_cons_drop hi

theorem activeRunCount_split : activeRunCount (l₁ ++ r :: l₂) =
    activeRunCount l₁ + activeRunCount l₂ + if r.status.isActive then 1 else 0 := by
  simp only [activeRunCount, List.countP_append, List.countP_cons]
  omega

theorem queue_split : queue (l₁ ++ r :: l₂) =
    queue l₁ ++ (if r.status = .queued then [r] else []) ++ queue l₂ := by
  simp only [queue, List.filter_append, List.filter_cons, List.append_assoc]
  split_ifs <;> simp_all

theorem fair_split : Fair cap (l₁ ++ r :: l₂) ↔
    (activeRunCount l₁ + activeRunCount l₂ + if r.status.isActive then 1 else 0) ≤ cap ∧
    Numbered 1 (queue l₁ ++ (if r.status = .queued then [r] else []) ++ queue l₂) ∧
    (queue l₁ ++ (if r.status = .queued then [r] else []) ++ queue l₂ ≠ [] →
      cap ≤ activeRunCount l₁ + activeRunCount l₂ + if r.status.isActive then 1 else 0) := by
  rw [← activeRunCount_split, ← queue_split]
  exact ⟨fun h ↦ ⟨h.capped, h.numbered, h.busy⟩, fun ⟨h, h', h''⟩ ↦ ⟨h, h', h''⟩⟩

theorem queue_eq_nil : queue rows = [] ↔
    ∀ (j : ℕ) (q : OrganizationRun), rows[j]? = some q → q.status ≠ .queued := by
  simp only [queue, List.filter_eq_nil_iff, decide_eq_true_eq]
  constructor
  · intro h j q hq
    exact h q (List.mem_of_getElem? hq)
  · intro h q hq
    obtain ⟨j, hj⟩ := List.mem_iff_getElem?.mp hq
    exact h j q hj

theorem queue_after_eq_nil (hi : l₁.length = i) : queue l₂ = [] ↔
    ∀ (j : ℕ) (q : OrganizationRun), i < j → (l₁ ++ r :: l₂)[j]? = some q → q.status ≠ .queued := by
  rw [queue_eq_nil]
  constructor
  · subst hi
    intro h j q hj hq
    rw [List.getElem?_append_right (by omega)] at hq
    obtain ⟨n, rfl⟩ : ∃ n, j = l₁.length + 1 + n := ⟨j - l₁.length - 1, by omega⟩
    refine h n q ?_
    rwa [show l₁.length + 1 + n - l₁.length = n + 1 by omega, List.getElem?_cons_succ] at hq
  · subst hi
    intro h n q hq
    refine h (l₁.length + (n + 1)) q (by omega) ?_
    rwa [List.getElem?_append_right (by omega), Nat.add_sub_cancel_left, List.getElem?_cons_succ]

end Split

variable {cap : ℕ} {rows rows' : RunTable} {e : QueueEvent}

theorem fair_nil (cap : ℕ) : Fair cap [] := ⟨Nat.zero_le cap, numbered_nil, fun h ↦ absurd rfl h⟩

theorem queue_startOldest (rows : RunTable) : rows.startOldest = none ∧ rows.queue = [] ∨
    ∃ rows', rows.startOldest = some rows' ∧ rows'.queue = rows.queue.tail ∧ rows.queue ≠ [] := by
  induction rows with
  | nil => exact .inl ⟨rfl, rfl⟩
  | cons r rows ih =>
    by_cases hr : r.status = .queued
    · refine .inr ⟨⟨.planning, none, true⟩ :: rows, ?_, ?_, ?_⟩ <;> simp [startOldest, queue, hr]
    · rcases ih with ⟨hnone, hnil⟩ | ⟨rows', hsome, htail, hne⟩
      · exact .inl ⟨by simp [startOldest, hr, hnone], by simpa [queue, hr] using hnil⟩
      · refine .inr ⟨r :: rows', by simp [startOldest, hr, hsome], ?_, ?_⟩
        · simpa [queue, hr] using htail
        · simpa [queue, hr] using hne

/-- The loop ends with the slots full or the queue empty. -/
theorem promoteQueued_full (cap : ℕ) (rows : RunTable) :
    cap ≤ (rows.promoteQueued cap).activeRunCount ∨ (rows.promoteQueued cap).queue = [] := by
  have hloop (n : ℕ) (rows : RunTable) (hn : rows.queue.length = n) :
      cap ≤ (promoteLoop cap n rows).activeRunCount ∨ (promoteLoop cap n rows).queue = [] := by
    induction n generalizing rows with
    | zero => exact .inr (List.length_eq_zero_iff.mp hn)
    | succ n ih =>
      simp only [promoteLoop]
      split_ifs with hfree
      · rcases queue_startOldest rows with ⟨hnone, hnil⟩ | ⟨rows', hsome, htail, -⟩
        · rw [hnone]
          exact .inr hnil
        · rw [hsome]
          exact ih rows' (by rw [htail, List.length_tail, hn, Nat.add_sub_cancel])
      · exact .inl (not_lt.mp hfree)
  exact hloop _ rows rfl

theorem Fair.promoteQueued_eq (h : Fair cap rows) : rows.promoteQueued cap = rows := by
  rw [promoteQueued]
  cases hn : rows.queue.length with
  | zero => rfl
  | succ n =>
    have hne : rows.queue ≠ [] := by
      intro hnil
      rw [hnil] at hn
      cases hn
    rw [promoteLoop, if_neg (not_lt.mpr (h.busy hne))]

theorem Fair.createRun (h : Fair cap rows) (autostart : Bool) :
    Fair cap (rows.createRun cap autostart) := by
  obtain ⟨hcapped, hnumbered, hbusy⟩ := h
  have hcount : activeRunCount [] = 0 := rfl
  have hqueue : queue [] = [] := rfl
  rw [RunTable.createRun, fair_split, hcount, hqueue]
  simp only [Nat.add_zero, List.append_nil]
  by_cases hfull : cap ≤ rows.activeRunCount
  · have hinactive : RunStatus.queued.isActive = false := rfl
    simp only [hfull, decide_true, if_true, hinactive, Bool.false_eq_true, if_false, Nat.add_zero]
    refine ⟨hcapped, numbered_append.mpr ⟨hnumbered, ?_⟩, fun _ ↦ trivial⟩
    exact numbered_cons.mpr ⟨congrArg some (Nat.add_comm _ _), numbered_nil⟩
  · have hnil : rows.queue = [] := by
      by_contra hne
      exact hfull (hbusy hne)
    have hactive : RunStatus.planning.isActive = true := rfl
    simp only [hfull, decide_false, Bool.false_eq_true, if_false, hactive, if_true, reduceCtorEq,
      hnil, List.append_nil]
    exact ⟨by omega, numbered_nil, fun hne ↦ absurd rfl hne⟩

theorem fair_write {i : ℕ} {r : OrganizationRun} {st : RunStatus} {w : Writer}
    (h : Fair cap rows) (hr : rows[i]? = some r) (hst : st ≠ .queued) :
    Fair cap (rows.modify i fun r ↦ { r with status := st }) ↔ Keeps cap rows (.write i w st) := by
  obtain ⟨l₁, l₂, rfl, hlen, hmodify⟩ := exists_split hr
  obtain ⟨hcapped, hnumbered, hbusy⟩ := fair_split.mp h
  have hkeeps : Keeps cap (l₁ ++ r :: l₂) (.write i w st) ↔
      (r.status.isActive → st.isActive = false → queue (l₁ ++ r :: l₂) = []) ∧
      (r.status.isActive = false → st.isActive → activeRunCount (l₁ ++ r :: l₂) < cap) ∧
      (r.status = .queued → queue l₂ = []) := by
    simp only [Keeps, hr, Option.some.injEq, forall_eq', ← queue_after_eq_nil (r := r) hlen]
  rw [hmodify, fair_split, hkeeps, activeRunCount_split, queue_split]
  simp only [hst, if_false, List.append_nil]
  by_cases hq : r.status = .queued
  · -- the run leaves the queue: what stands behind it moves up, its position does not
    have hinactive : RunStatus.queued.isActive = false := rfl
    simp only [hq, hinactive, Bool.false_eq_true, if_false, Nat.add_zero,
      if_true] at hcapped hbusy hnumbered ⊢
    have hfull := hbusy (by simp)
    obtain ⟨hfirst, hlast⟩ := numbered_append.mp hnumbered
    obtain ⟨hfirst, -⟩ := numbered_append.mp hfirst
    constructor
    · rintro ⟨hcap, hnum, -⟩
      refine ⟨fun h ↦ absurd h (by decide), fun _ hactive ↦ ?_, fun _ ↦ ?_⟩
      · rw [if_pos hactive] at hcap
        omega
      · refine eq_nil_of_numbered (numbered_append.mp hnum).2 ?_
        simpa [Nat.add_assoc] using hlast
    · rintro ⟨-, hactive, hnil⟩
      have hst' : st.isActive = false := by
        by_contra hne
        have hlt := hactive trivial (by simpa using hne)
        omega
      rw [hnil trivial, List.append_nil]
      simp only [hst', Bool.false_eq_true, if_false, Nat.add_zero]
      exact ⟨hcapped, hfirst, fun _ ↦ hfull⟩
  · simp only [hq, if_false, List.append_nil, false_implies, and_true] at hnumbered hbusy ⊢
    cases hr' : r.status.isActive <;> cases hst' : st.isActive <;>
      simp only [hr', Bool.false_eq_true, if_true, if_false, Nat.add_zero, true_implies,
        false_implies, true_and, and_true, hnumbered, reduceCtorEq] at hcapped hbusy ⊢
    case neg.false.false => exact iff_of_true ⟨hcapped, hbusy⟩ trivial
    case neg.false.true => exact ⟨And.left, fun h ↦ ⟨h, fun hne ↦ (hbusy hne).trans (Nat.le_succ _)⟩⟩
    case neg.true.false =>
      constructor
      · rintro ⟨-, hbusy'⟩
        by_contra hne
        have hfull := hbusy' hne
        omega
      · intro hnil
        exact ⟨by omega, fun hne ↦ absurd hnil hne⟩
    case neg.true.true => exact iff_of_true ⟨hcapped, hbusy⟩ trivial

theorem fair_step (h : Fair cap rows) (hstep : step cap rows e = some rows') :
    Fair cap rows' ↔ Keeps cap rows e := by
  cases e with
  | createRun autostart =>
    obtain rfl := Option.some.inj hstep
    exact iff_of_true (h.createRun autostart) trivial
  | promoteQueued =>
    obtain rfl := Option.some.inj hstep
    rw [h.promoteQueued_eq]
    exact iff_of_true h trivial
  | write i writer st =>
    simp only [step] at hstep
    split at hstep
    · cases hstep
    · next r hr =>
      split_ifs at hstep with hok
      obtain rfl := Option.some.inj hstep
      exact fair_write h hr (Writer.ne_queued_of_assigns hok.2.2.1)

theorem not_isTerminal {st : RunStatus} (h : st.isActive) : st.isTerminal = false := by
  cases st <;> first | rfl | cases h

theorem oldestQueued_eq_none (h : rows.queue = []) : rows.oldestQueued = none := by
  rw [oldestQueued, List.findIdx?_eq_none_iff]
  intro r hr
  obtain ⟨j, hj⟩ := List.mem_iff_getElem?.mp hr
  simpa using queue_eq_nil.mp h j r hj

/-- A step that keeps the queue fair does not end a run that has another one wait for it. -/
theorem startsNext (h : Fair cap rows) (hkeeps : Keeps cap rows e)
    (hstep : step cap rows e = some rows') : StartsNext rows rows' := by
  intro i st st' j hst hactive hst' hterm hold
  obtain ⟨r, hr, rfl⟩ := Option.map_eq_some_iff.mp hst
  -- the run has not ended: its status is what it was
  have hsame (hs : rows'.statusAt i = rows.statusAt i) : rows'.statusAt j = some .planning := by
    rw [hst', hst] at hs
    rw [Option.some.inj hs, not_isTerminal hactive] at hterm
    cases hterm
  cases e with
  | createRun autostart =>
    obtain rfl := Option.some.inj hstep
    refine hsame ?_
    rw [statusAt, createRun, List.getElem?_append_left (List.getElem?_eq_some_iff.mp hr).1]
    rfl
  | promoteQueued =>
    obtain rfl := Option.some.inj hstep
    exact hsame (by rw [h.promoteQueued_eq])
  | write k writer st =>
    simp only [step] at hstep
    split at hstep
    · cases hstep
    · next r' hr' =>
      split_ifs at hstep with hok
      obtain rfl := Option.some.inj hstep
      by_cases hk : k = i
      · subst hk
        obtain rfl := Option.some.inj (hr'.symm.trans hr)
        have he : st = st' := by
          simpa [statusAt, hr] using hst'
        subst he
        have hinactive : st.isActive = false := by
          by_contra hne
          rw [not_isTerminal (by simpa using hne)] at hterm
          cases hterm
        rw [oldestQueued_eq_none ((hkeeps r' hr).1 hactive hinactive)] at hold
        cases hold
      · refine hsame ?_
        simp [statusAt, hk]

/-- In every state of a run of the manager the queue is fair, and each run that ends is followed by
the oldest queued one, exactly if no slot is given up while a run is queued, none is taken beyond
the cap, and no run but the last leaves the queue. -/
theorem queue_fair_iff (cap : ℕ) (ls : List QueueEvent) :
    Along (step cap) (fun rows _ rows' ↦ Fair cap rows' ∧ StartsNext rows rows') [] ls ↔
      Along (step cap) (fun rows e _ ↦ Keeps cap rows e) [] ls := by
  refine along_step_iff (fun rows e rows' h hstep ↦ ?_) (fair_nil cap)
  constructor
  · rintro ⟨hfair, -⟩
    exact (fair_step h hstep).mp hfair
  · intro hkeeps
    exact ⟨(fair_step h hstep).mpr hkeeps, startsNext h hkeeps hstep⟩

/-- Four runs are created, and the first of the three that are under way completes. -/
def oneCompletes : List QueueEvent :=
  [.createRun true, .createRun true, .createRun true, .createRun true,
    .write 0 .runSchedulerLoop .running, .write 0 .finalize .completed]

/-- A slot is free and the fourth run stays queued. -/
theorem queue_left_waiting : ∃ rows, Run (step 3) [] oneCompletes rows ∧
    rows.activeRunCount = 2 ∧ rows.statusAt 3 = some .queued ∧ ¬ Fair 3 rows := by
  refine ⟨_, exec_eq_some.mp (Option.some_get (by decide +kernel)).symm, ?_, ?_, fun h ↦ ?_⟩
  · decide +kernel
  · decide +kernel
  · have hbusy := h.busy (by decide +kernel)
    revert hbusy
    decide +kernel

end RunTable

end TradingOS.Orchestration
