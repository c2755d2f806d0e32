import TradingOS.Lib.Locks
import Mathlib.Data.List.Basic

namespace TradingOS.Orchestration

open Lib Lib.Runs Lib.Locks

abbrev RunId := ℕ

/-- The key of an advisory lock. -/
abbrev LockKey := ℤ

/-- Distinct runs may share a lock: `hashtext` has 32 bits. -/
def eventLockKey (hashtext : String → BitVec 32) (runId : RunId) : LockKey :=
  (hashtext s!"org-event-seq:{runId}").toInt

structure EventContent where
  eventType : String
  subjectType : String
  subjectId : Option ℕ
  payload : String
  occurredAt : ℕ
  deriving DecidableEq

structure OrganizationalEvent where
  runId : RunId
  sequence : ℕ
  content : EventContent
  deriving DecidableEq

def sequencesOf (rows : List OrganizationalEvent) (runId : RunId) : List ℕ :=
  (rows.filter fun e ↦ e.runId = runId).map OrganizationalEvent.sequence

/-- `_next_sequence` once the lock is granted. -/
def nextSequence (rows : List OrganizationalEvent) (runId : RunId) : ℕ :=
  (sequencesOf rows runId).foldl max 0 + 1

/-- Where a transaction stands in `emit`. -/
inductive EmitCall
  | none
  | locked (runId : RunId)
  | counted (runId : RunId) (sequence : ℕ)
  deriving DecidableEq

/-- What a transaction has inserted and no other sees yet, and where its call stands. -/
structure Emitter where
  pending : List OrganizationalEvent
  call : EmitCall

def Emitter.fresh : Emitter := ⟨[], .none⟩

inductive EmitAction
  | lock (runId : RunId)
  | readMax
  | insert (content : EventContent)
  | commit
  | rollback

/-- The committed transactions, in the order of their commits, and the open ones. -/
structure EventStore where
  commits : List (List OrganizationalEvent)
  holders : Holders LockKey ℕ
  emitters : ℕ → Emitter

namespace EventStore

def init : EventStore := ⟨[], .free, fun _ ↦ .fresh⟩

def rows (s : EventStore) : List OrganizationalEvent := s.commits.flatten

def setEmitter (s : EventStore) (w : ℕ) (x : Emitter) : EventStore :=
  { s with emitters := Function.update s.emitters w x }

def step (lockKey : RunId → LockKey) (s : EventStore) : ℕ × EmitAction → Option EventStore
  | (w, action) =>
    let x := s.emitters w
    match action, x.call with
    | .lock runId, .none =>
      (s.holders.acquire w (lockKey runId)).map fun holders ↦
        { s.setEmitter w ⟨x.pending, .locked runId⟩ with holders := holders }
    | .readMax, .locked runId =>
      some (s.setEmitter w ⟨x.pending, .counted runId (nextSequence (s.rows ++ x.pending) runId)⟩)
    | .insert content, .counted runId sequence =>
      some (s.setEmitter w ⟨x.pending ++ [⟨runId, sequence, content⟩], .none⟩)
    | .commit, .none =>
      some
        { s.setEmitter w .fresh with
          commits := s.commits ++ [x.pending]
          holders := s.holders.release w }
    | .rollback, _ => some { s.setEmitter w .fresh with holders := s.holders.release w }
    | _, _ => none

/-- A row with the run and the sequence number exists, committed or not. -/
def Taken (s : EventStore) (runId : RunId) (sequence : ℕ) : Prop :=
  ∃ e, (e ∈ s.rows ∨ ∃ v, e ∈ (s.emitters v).pending) ∧ e.runId = runId ∧ e.sequence = sequence

end EventStore

section Sequences

variable {rows rows' : List OrganizationalEvent} {r : RunId} {n : ℕ}

theorem sequencesOf_append (rows rows' : List OrganizationalEvent) (r : RunId) :
    sequencesOf (rows ++ rows') r = sequencesOf rows r ++ sequencesOf rows' r := by
  rw [sequencesOf, List.filter_append, List.map_append]
  rfl

theorem mem_sequencesOf : n ∈ sequencesOf rows r ↔ ∃ e ∈ rows, e.runId = r ∧ e.sequence = n := by
  simp [sequencesOf, and_assoc]

theorem sequencesOf_eq_nil (h : ∀ e ∈ rows, e.runId ≠ r) : sequencesOf rows r = [] := by
  rw [sequencesOf, List.map_eq_nil_iff, List.filter_eq_nil_iff]
  intro e he
  simpa using h e he

theorem foldl_max_range' (n : ℕ) : (List.range' 1 n).foldl max 0 = n := by
  induction n with
  | zero => rfl
  | succ n ih =>
    rw [List.range'_concat, List.foldl_append, ih]
    simp only [List.foldl_cons, List.foldl_nil]
    omega

/-- The numbers of each run are 1, 2, and so on. -/
def Gapless (rows : List OrganizationalEvent) : Prop :=
  ∀ r, ∃ n, sequencesOf rows r = List.range' 1 n

theorem nextSequence_eq (h : sequencesOf rows r = List.range' 1 n) : nextSequence rows r = n + 1 := by
  rw [nextSequence, h, foldl_max_range']

theorem Gapless.of_append (h : Gapless (rows ++ rows')) : Gapless rows := by
  intro r
  obtain ⟨n, hn⟩ := h r
  rw [sequencesOf_append] at hn
  obtain ⟨m, -, hm, -⟩ := List.range'_eq_append_iff.mp hn.symm
  exact ⟨m, hm⟩

theorem Gapless.append_next (h : Gapless rows) (r : RunId) (content : EventContent) :
    Gapless (rows ++ [⟨r, nextSequence rows r, content⟩]) := by
  intro r'
  obtain ⟨n, hn⟩ := h r'
  by_cases hr : r = r'
  · subst hr
    refine ⟨n + 1, ?_⟩
    rw [sequencesOf_append, hn, nextSequence_eq hn, List.range'_concat]
    simp [sequencesOf, Nat.add_comm]
  · refine ⟨n, ?_⟩
    rw [sequencesOf_append, hn, sequencesOf_eq_nil, List.append_nil]
    simpa using hr

theorem nextSequence_notMem (h : Gapless rows) (r : RunId) :
    nextSequence rows r ∉ sequencesOf rows r := by
  obtain ⟨n, hn⟩ := h r
  rw [nextSequence_eq hn, hn, List.mem_range'_1]
  omega

end Sequences

namespace EventStore

/-- A transaction emits only under its locks; with its own rows the table has no gaps; and the
number it has read is still the next. -/
structure Good (lockKey : RunId → LockKey) (s : EventStore) (w : ℕ) : Prop where
  held : ∀ e ∈ (s.emitters w).pending, s.holders (lockKey e.runId) = some w
  locked : ∀ r, (s.emitters w).call = .locked r → s.holders (lockKey r) = some w
  counted : ∀ r n, (s.emitters w).call = .counted r n →
    s.holders (lockKey r) = some w ∧ n = nextSequence (s.rows ++ (s.emitters w).pending) r
  gapless : Gapless (s.rows ++ (s.emitters w).pending)

variable {lockKey : RunId → LockKey} {s t : EventStore} {v w : ℕ}

theorem setEmitter_self (x : Emitter) : (s.setEmitter w x).emitters w = x :=
  Function.update_self ..

theorem setEmitter_of_ne (h : v ≠ w) (x : Emitter) :
    (s.setEmitter w x).emitters v = s.emitters v := Function.update_of_ne h ..

theorem good_init (w : ℕ) : Good lockKey init w where
  held _ he := absurd he List.not_mem_nil
  locked _ h := by cases h
  counted _ _ h := by cases h
  gapless _ := ⟨0, rfl⟩

/-- A transaction's view lasts while its locks do and the table does not change. -/
theorem Good.frame (h : Good lockKey s v) (hemitter : t.emitters v = s.emitters v)
    (hrows : t.rows = s.rows)
    (hholders : ∀ k, s.holders k = some v → t.holders k = some v) : Good lockKey t v := by
  refine ⟨?_, ?_, ?_, ?_⟩
  · rw [hemitter]
    exact fun e he ↦ hholders _ (h.held e he)
  · rw [hemitter]
    exact fun r hr ↦ hholders _ (h.locked r hr)
  · rw [hemitter, hrows]
    exact fun r n hn ↦ ⟨hholders _ (h.counted r n hn).1, (h.counted r n hn).2⟩
  · rw [hemitter, hrows]
    exact h.gapless

/-- The rows of another transaction are of other runs than those whose lock is held here. -/
theorem Good.runId_ne (hw : Good lockKey s w) (hne : v ≠ w) {r : RunId}
    (hr : s.holders (lockKey r) = some v) : ∀ e ∈ (s.emitters w).pending, e.runId ≠ r := by
  rintro e he rfl
  exact hne (Option.some.inj (hr.symm.trans (hw.held e he)))

theorem gapless_merge (hv : Good lockKey s v) (hw : Good lockKey s w) (hne : v ≠ w) :
    Gapless (s.rows ++ (s.emitters w).pending ++ (s.emitters v).pending) := by
  intro r
  by_cases hr : s.holders (lockKey r) = some v
  · obtain ⟨n, hn⟩ := hv.gapless r
    refine ⟨n, ?_⟩
    rw [sequencesOf_append] at hn
    rw [sequencesOf_append, sequencesOf_append, sequencesOf_eq_nil (hw.runId_ne hne hr),
      List.append_nil, hn]
  · obtain ⟨n, hn⟩ := hw.gapless r
    refine ⟨n, ?_⟩
    rw [sequencesOf_append, hn, sequencesOf_eq_nil, List.append_nil]
    rintro e he rfl
    exact hr (hv.held e he)

/-- What each action does, and where the transaction's call stands then. -/
theorem step_cases {a : EmitAction} (hstep : s.step lockKey (w, a) = some t) :
    match a with
    | .lock r => ∃ holders, s.holders.acquire w (lockKey r) = some holders ∧
        t = { s.setEmitter w ⟨(s.emitters w).pending, .locked r⟩ with holders := holders }
    | .readMax => ∃ r, (s.emitters w).call = .locked r ∧
        t = s.setEmitter w ⟨(s.emitters w).pending,
          .counted r (nextSequence (s.rows ++ (s.emitters w).pending) r)⟩
    | .insert content => ∃ r n, (s.emitters w).call = .counted r n ∧
        t = s.setEmitter w ⟨(s.emitters w).pending ++ [⟨r, n, content⟩], .none⟩
    | .commit => t = { s.setEmitter w .fresh with
        commits := s.commits ++ [(s.emitters w).pending]
        holders := s.holders.release w }
    | .rollback => t = { s.setEmitter w .fresh with holders := s.holders.release w } := by
  cases a with
  | lock r =>
    cases hcall : (s.emitters w).call with
    | none =>
      simp only [step, hcall] at hstep
      obtain ⟨holders, hacq, rfl⟩ := Option.map_eq_some_iff.mp hstep
      exact ⟨holders, hacq, rfl⟩
    | _ => simp [step, hcall] at hstep
  | readMax =>
    cases hcall : (s.emitters w).call with
    | locked r =>
      simp only [step, hcall] at hstep
      exact ⟨r, rfl, (Option.some.inj hstep).symm⟩
    | _ => simp [step, hcall] at hstep
  | insert content =>
    cases hcall : (s.emitters w).call with
    | counted r n =>
      simp only [step, hcall] at hstep
      exact ⟨r, n, rfl, (Option.some.inj hstep).symm⟩
    | _ => simp [step, hcall] at hstep
  | commit =>
    cases hcall : (s.emitters w).call with
    | none =>
      simp only [step, hcall] at hstep
      exact (Option.some.inj hstep).symm
    | _ => simp [step, hcall] at hstep
  | rollback =>
    simp only [step] at hstep
    exact (Option.some.inj hstep).symm

theorem good_lock {r : RunId} (h : ∀ v, Good lockKey s v)
    (hstep : s.step lockKey (w, .lock r) = some t) : ∀ v, Good lockKey t v := by
  obtain ⟨holders, hacq, rfl⟩ := step_cases hstep
  intro v
  by_cases hv : v = w
  · subst hv
    have hkeep (k : LockKey) (hk : s.holders k = some v) : holders k = some v :=
      (Holders.held_of_acquire hacq).mpr (.inl hk)
    refine ⟨?_, ?_, ?_, ?_⟩
    · simp only [setEmitter_self]
      exact fun e he ↦ hkeep _ ((h v).held e he)
    · simp only [setEmitter_self, EmitCall.locked.injEq]
      rintro _ rfl
      exact (Holders.held_of_acquire hacq).mpr (.inr ⟨rfl, rfl⟩)
    · simp only [setEmitter_self]
      intro r' n hn
      cases hn
    · simp only [setEmitter_self]
      exact (h v).gapless
  · refine (h v).frame (setEmitter_of_ne hv _) rfl fun k hk ↦ ?_
    exact (Holders.held_of_acquire hacq).mpr (.inl hk)

theorem good_readMax (h : ∀ v, Good lockKey s v)
    (hstep : s.step lockKey (w, .readMax) = some t) : ∀ v, Good lockKey t v := by
  obtain ⟨r, hcall, rfl⟩ := step_cases hstep
  intro v
  by_cases hv : v = w
  · subst hv
    refine ⟨?_, ?_, ?_, ?_⟩
    · simp only [setEmitter_self]
      exact (h v).held
    · simp only [setEmitter_self]
      intro r' hr'
      cases hr'
    · simp only [setEmitter_self, EmitCall.counted.injEq]
      rintro _ _ ⟨rfl, rfl⟩
      exact ⟨(h v).locked r hcall, rfl⟩
    · simp only [setEmitter_self]
      exact (h v).gapless
  · exact (h v).frame (setEmitter_of_ne hv _) rfl fun _ hk ↦ hk

theorem good_insert {content : EventContent} (h : ∀ v, Good lockKey s v)
    (hstep : s.step lockKey (w, .insert content) = some t) : ∀ v, Good lockKey t v := by
  obtain ⟨r, n, hcall, rfl⟩ := step_cases hstep
  obtain ⟨hlock, rfl⟩ := (h w).counted r n hcall
  intro v
  by_cases hv : v = w
  · subst hv
    refine ⟨?_, ?_, ?_, ?_⟩
    · simp only [setEmitter_self, List.mem_append, List.mem_singleton]
      rintro e (he | rfl)
      · exact (h v).held e he
      · exact hlock
    · simp only [setEmitter_self]
      intro r' hr'
      cases hr'
    · simp only [setEmitter_self]
      intro r' n' hn'
      cases hn'
    · simp only [setEmitter_self, ← List.append_assoc]
      exact (h v).gapless.append_next r content
  · exact (h v).frame (setEmitter_of_ne hv _) rfl fun _ hk ↦ hk

theorem good_fresh (hrows : Gapless t.rows) (hfresh : t.emitters w = .fresh) : Good lockKey t w := by
  refine ⟨?_, ?_, ?_, ?_⟩
  · rw [hfresh]
    exact fun _ he ↦ absurd he List.not_mem_nil
  · rw [hfresh]
    intro r hr
    cases hr
  · rw [hfresh]
    intro r n hn
    cases hn
  · rw [hfresh]
    exact (List.append_nil t.rows).symm ▸ hrows

theorem good_commit (h : ∀ v, Good lockKey s v)
    (hstep : s.step lockKey (w, .commit) = some t) : ∀ v, Good lockKey t v := by
  obtain rfl : t = _ := step_cases hstep
  have hrows (emitters : ℕ → Emitter) (holders : Holders LockKey ℕ) :
      rows ⟨s.commits ++ [(s.emitters w).pending], holders, emitters⟩ =
        s.rows ++ (s.emitters w).pending := by
    simp [rows]
  intro v
  by_cases hv : v = w
  · subst hv
    exact good_fresh ((hrows _ _).symm ▸ (h v).gapless) (setEmitter_self _)
  · have hheld (k : LockKey) : s.holders.release w k = some v ↔ s.holders k = some v := by
      simp [Holders.held_release, hv]
    refine ⟨?_, ?_, ?_, ?_⟩
    · simp only [setEmitter_of_ne hv, hheld]
      exact (h v).held
    · simp only [setEmitter_of_ne hv, hheld]
      exact (h v).locked
    · simp only [setEmitter_of_ne hv, hheld]
      intro r n hn
      obtain ⟨hlock, rfl⟩ := (h v).counted r n hn
      refine ⟨hlock, ?_⟩
      have hout := (h w).runId_ne hv hlock
      simp only [setEmitter, hrows, nextSequence, sequencesOf_append, sequencesOf_eq_nil hout,
        List.append_nil]
    · simp only [setEmitter_of_ne hv]
      simp only [setEmitter, hrows]
      exact gapless_merge (h v) (h w) hv

theorem good_rollback (h : ∀ v, Good lockKey s v)
    (hstep : s.step lockKey (w, .rollback) = some t) : ∀ v, Good lockKey t v := by
  obtain rfl : t = _ := step_cases hstep
  intro v
  by_cases hv : v = w
  · subst hv
    exact good_fresh (h v).gapless.of_append (setEmitter_self _)
  · refine (h v).frame (setEmitter_of_ne hv _) rfl fun k hk ↦ ?_
    exact Holders.held_release.mpr ⟨hk, hv⟩

theorem good_step (h : ∀ v, Good lockKey s v) {e : ℕ × EmitAction}
    (hstep : s.step lockKey e = some t) : ∀ v, Good lockKey t v := by
  obtain ⟨w, a⟩ := e
  cases a with
  | lock r => exact good_lock h hstep
  | readMax => exact good_readMax h hstep
  | insert content => exact good_insert h hstep
  | commit => exact good_commit h hstep
  | rollback => exact good_rollback h hstep

theorem not_taken (h : ∀ v, Good lockKey s v) {r : RunId} {n : ℕ}
    (hcall : (s.emitters w).call = .counted r n) : ¬ s.Taken r n := by
  rintro ⟨e, hmem, hrun, hseq⟩
  obtain ⟨hlock, rfl⟩ := (h w).counted r n hcall
  refine nextSequence_notMem (h w).gapless r (mem_sequencesOf.mpr ⟨e, ?_, hrun, hseq⟩)
  rcases hmem with hmem | ⟨v, hmem⟩
  · exact List.mem_append_left _ hmem
  · by_cases hv : v = w
    · exact List.mem_append_right _ (hv ▸ hmem)
    · exact absurd hrun ((h v).runId_ne (Ne.symm hv) hlock e hmem)

/-- However transactions overlap, the committed events of each run are numbered 1, 2, and so on in
the order of the commits, and no number is taken when an event is inserted under it. -/
theorem sequences_gapless (lockKey : RunId → LockKey) {ls : List (ℕ × EmitAction)} {s : EventStore}
    (h : Run (step lockKey) init ls s) :
    (∀ r, ∃ n, sequencesOf s.commits.flatten r = List.range' 1 n) ∧
      ∀ w r n, (s.emitters w).call = .counted r n → ¬ s.Taken r n := by
  have hgood : ∀ v, Good lockKey s v :=
    h.invariant (fun _ _ _ hs hstep ↦ good_step hs hstep) good_init
  exact ⟨(hgood 0).gapless.of_append, fun w r n hcall ↦ not_taken hgood hcall⟩

/-- A second transaction emits twice for a run whose lock the first gives back at its rollback. -/
def overlap (c : EventContent) : List (ℕ × EmitAction) :=
  [(0, .lock 7), (0, .readMax), (0, .insert c), (1, .lock 8), (1, .readMax), (1, .insert c),
    (0, .rollback), (1, .lock 7), (1, .readMax), (1, .insert c), (1, .lock 7), (1, .readMax),
    (1, .insert c), (1, .commit), (0, .lock 7), (0, .readMax)]

def readyContent : EventContent := ⟨"task.ready", "task", none, "", 0⟩

def sumOfCodes (text : String) : BitVec 32 :=
  BitVec.ofNat 32 (text.toList.foldl (fun n c ↦ n + c.toNat) 0)

def overlapEnd : EventStore :=
  (exec (step (eventLockKey sumOfCodes)) init (overlap readyContent)).get (by decide +kernel)

theorem overlapEnd_gapless :
    (∃ n, sequencesOf overlapEnd.commits.flatten 7 = List.range' 1 n) ∧ ¬ overlapEnd.Taken 7 3 := by
  have hrun : Run (step (eventLockKey sumOfCodes)) init (overlap readyContent) overlapEnd :=
    exec_eq_some.mp (Option.some_get (by decide +kernel)).symm
  obtain ⟨hgapless, htaken⟩ := sequences_gapless (eventLockKey sumOfCodes) hrun
  exact ⟨hgapless 7, htaken 0 7 3 (by decide +kernel)⟩

end EventStore

end TradingOS.Orchestration
