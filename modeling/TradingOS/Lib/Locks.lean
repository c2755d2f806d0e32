import TradingOS.Lib.Runs
import Mathlib.Data.List.TakeWhile
import Mathlib.Logic.Function.Basic

namespace TradingOS.Lib.Locks

open Runs

variable {κ ι : Type*} [DecidableEq κ] [DecidableEq ι]

/-- Who holds each of the exclusive locks; a holder may take its lock again. -/
abbrev Holders (κ ι : Type*) := κ → Option ι

namespace Holders

variable {h h' : Holders κ ι} {k k' : κ} {i j : ι}

def free : Holders κ ι := fun _ ↦ none

def acquire (h : Holders κ ι) (i : ι) (k : κ) : Option (Holders κ ι) :=
  if h k = none ∨ h k = some i then some (Function.update h k (some i)) else none

/-- The locks are the transaction's, and go with it. -/
def release (h : Holders κ ι) (i : ι) : Holders κ ι := fun k ↦ if h k = some i then none else h k

theorem acquire_eq_some :
    h.acquire i k = some h' ↔ (h k = none ∨ h k = some i) ∧ h' = Function.update h k (some i) := by
  simp only [acquire]
  split_ifs with hk
  · simp [hk, eq_comm]
  · simp [hk]

theorem held_of_acquire (hacq : h.acquire i k = some h') :
    h' k' = some j ↔ h k' = some j ∨ k' = k ∧ j = i := by
  obtain ⟨hfree, rfl⟩ := acquire_eq_some.mp hacq
  by_cases hk : k' = k
  · subst hk
    rw [Function.update_self]
    rcases hfree with hfree | hfree <;> simp [hfree, eq_comm]
  · simp [hk]

omit [DecidableEq κ] in
theorem held_release : h.release i k = some j ↔ h k = some j ∧ j ≠ i := by
  simp only [release]
  split_ifs with hk
  · simp [hk, eq_comm]
  · refine ⟨fun hj ↦ ⟨hj, ?_⟩, And.left⟩
    rintro rfl
    exact hk hj

end Holders

/-- A statement of a transaction: one that takes a lock, or any other. -/
inductive Statement (κ : Type*)
  | lock (k : κ)
  | work
  deriving DecidableEq

abbrev Program (κ : Type*) := List (Statement κ)

/-- The locks a transaction has taken when it first asks for `k`. -/
def Program.locksBefore (p : Program κ) (k : κ) : Program κ := p.takeWhile (· ≠ .lock k)

structure System (κ ι : Type*) where
  holders : Holders κ ι
  rest : ι → Program κ

/-- A transaction goes on, to its commit at the end, or is rolled back. -/
inductive Move
  | advance
  | abort
  deriving DecidableEq

namespace System

variable {p : ι → Program κ} {s t : System κ ι} {k k' : κ} {i j : ι}

def init (p : ι → Program κ) : System κ ι := ⟨.free, p⟩

def step (s : System κ ι) : ι × Move → Option (System κ ι)
  | (i, .abort) => some ⟨s.holders.release i, Function.update s.rest i []⟩
  | (i, .advance) =>
    match s.rest i with
    | [] => some { s with holders := s.holders.release i }
    | .work :: l => some { s with rest := Function.update s.rest i l }
    | .lock k :: l => (s.holders.acquire i k).map (⟨·, Function.update s.rest i l⟩)

/-- The transaction has come to take a lock that another one holds. -/
def Waits (s : System κ ι) (i : ι) (k : κ) (j : ι) : Prop :=
  (∃ l, s.rest i = .lock k :: l) ∧ s.holders k = some j ∧ j ≠ i

/-- Two transactions, each holding one of the locks and waiting for the other. -/
def CrossWait (s : System κ ι) (i j : ι) (k k' : κ) : Prop :=
  s.holders k = some i ∧ s.holders k' = some j ∧ s.Waits i k' j ∧ s.Waits j k i

/-- A transaction on its way holds the locks of the statements it has executed. -/
def Tracked (p : ι → Program κ) (s : System κ ι) : Prop :=
  ∀ i, s.rest i ≠ [] → ∃ done, p i = done ++ s.rest i ∧
    ∀ k, s.holders k = some i ↔ Statement.lock k ∈ done

omit [DecidableEq κ] [DecidableEq ι] in
theorem tracked_init (p : ι → Program κ) : Tracked p (init p) := by
  intro i _
  exact ⟨[], rfl, fun k ↦ by simp [init, Holders.free]⟩

/-- What a step of one transaction leaves of the others. -/
theorem step_of_ne {m : Move} (h : s.step (i, m) = some t) (hj : j ≠ i) :
    t.rest j = s.rest j ∧ ∀ k, t.holders k = some j ↔ s.holders k = some j := by
  cases m with
  | abort =>
    obtain rfl := Option.some.inj h
    exact ⟨Function.update_of_ne hj .., fun k ↦ by simp [Holders.held_release, hj]⟩
  | advance =>
    simp only [step] at h
    split at h
    · obtain rfl := Option.some.inj h
      exact ⟨rfl, fun k ↦ by simp [Holders.held_release, hj]⟩
    · obtain rfl := Option.some.inj h
      exact ⟨Function.update_of_ne hj .., fun _ ↦ Iff.rfl⟩
    · obtain ⟨holders, hacq, rfl⟩ := Option.map_eq_some_iff.mp h
      exact ⟨Function.update_of_ne hj .., fun k ↦ by simp [Holders.held_of_acquire hacq, hj]⟩

theorem tracked_step (hs : Tracked p s) {l : ι × Move} (h : s.step l = some t) : Tracked p t := by
  obtain ⟨i, m⟩ := l
  intro j hrest
  by_cases hj : j = i
  · subst hj
    cases m with
    | abort =>
      obtain rfl := Option.some.inj h
      exact absurd (Function.update_self ..) hrest
    | advance =>
      simp only [step] at h
      split at h
      · next hnil =>
        obtain rfl := Option.some.inj h
        exact absurd hnil hrest
      · next l hl =>
        obtain rfl := Option.some.inj h
        obtain ⟨done, hp, hheld⟩ := hs j (by simp [hl])
        refine ⟨done ++ [.work], ?_, fun k ↦ by simp [hheld]⟩
        simp [hp, hl]
      · next k l hl =>
        obtain ⟨holders, hacq, rfl⟩ := Option.map_eq_some_iff.mp h
        obtain ⟨done, hp, hheld⟩ := hs j (by simp [hl])
        refine ⟨done ++ [.lock k], ?_, fun k' ↦ ?_⟩
        · simp [hp, hl]
        · simp [Holders.held_of_acquire hacq, hheld]
  · obtain ⟨hrest', hheld'⟩ := step_of_ne h hj
    rw [hrest'] at hrest
    obtain ⟨done, hp, hheld⟩ := hs j hrest
    exact ⟨done, by rw [hp, hrest'], fun k ↦ (hheld' k).trans (hheld k)⟩

omit [DecidableEq ι] in
/-- A waiting transaction holds the locks that stand before its request. -/
theorem Tracked.held_of_waits (hs : Tracked p s) (hw : s.Waits i k j) :
    Statement.lock k ∈ p i ∧
      ∀ k', s.holders k' = some i ↔ Statement.lock k' ∈ (p i).locksBefore k := by
  obtain ⟨⟨l, hl⟩, hj, hne⟩ := hw
  obtain ⟨done, hp, hheld⟩ := hs i (by simp [hl])
  have hout : Statement.lock k ∉ done := by
    intro hmem
    have hi := (hheld k).mpr hmem
    exact hne (Option.some.inj (hj.symm.trans hi))
  have hdone : (p i).locksBefore k = done := by
    rw [Program.locksBefore, hp, hl, List.takeWhile_append_of_pos fun x hx ↦ ?_]
    · simp
    · simp only [ne_eq, decide_not, Bool.not_eq_eq_eq_not, Bool.not_true, decide_eq_false_iff_not]
      rintro rfl
      exact hout hx
  refine ⟨by simp [hp, hl], fun k' ↦ ?_⟩
  rw [hdone]
  exact hheld k'

/-- The transaction executes the statements of `d`, when no one else holds their locks. -/
theorem run_advance {d l : Program κ} (hrest : s.rest i = d ++ l)
    (hfree : ∀ k, Statement.lock k ∈ d → s.holders k = none ∨ s.holders k = some i) :
    ∃ t, Run step s (List.replicate d.length (i, .advance)) t ∧
      t.rest = Function.update s.rest i l ∧
      ∀ k, t.holders k = if Statement.lock k ∈ d then some i else s.holders k := by
  induction d generalizing s with
  | nil =>
    refine ⟨s, .nil s, ?_, fun k ↦ by simp⟩
    rw [List.nil_append] at hrest
    rw [← hrest, Function.update_eq_self]
  | cons x d ih =>
    rw [List.cons_append] at hrest
    cases x with
    | work =>
      let s' : System κ ι := { s with rest := Function.update s.rest i (d ++ l) }
      have hstep : s.step (i, .advance) = some s' := by simp only [step, hrest, s']
      obtain ⟨t, hrun, hr, hh⟩ := ih (s := s') (Function.update_self ..)
        fun k hk ↦ hfree k (List.mem_cons_of_mem _ hk)
      refine ⟨t, .cons hstep hrun, ?_, fun k ↦ by simp [hh, s']⟩
      simp only [hr, s', Function.update_idem]
    | lock k₀ =>
      let s' : System κ ι :=
        ⟨Function.update s.holders k₀ (some i), Function.update s.rest i (d ++ l)⟩
      have hstep : s.step (i, .advance) = some s' := by
        have hacq := Holders.acquire_eq_some.mpr ⟨hfree k₀ List.mem_cons_self, rfl⟩
        simp only [step, hrest, hacq, Option.map_some, s']
      have hfree' : ∀ k, Statement.lock k ∈ d → s'.holders k = none ∨ s'.holders k = some i := by
        intro k hk
        by_cases he : k = k₀
        · subst he
          exact .inr (Function.update_self ..)
        · simpa only [s', Function.update_of_ne he] using hfree k (List.mem_cons_of_mem _ hk)
      obtain ⟨t, hrun, hr, hh⟩ := ih (s := s') (Function.update_self ..) hfree'
      refine ⟨t, .cons hstep hrun, ?_, fun k ↦ ?_⟩
      · simp only [hr, s', Function.update_idem]
      · rw [hh]
        by_cases he : k = k₀
        · subst he
          simp [s']
        · simp [s', he]

/-- The programs take the two locks in opposite orders, and no lock they share before that keeps
them apart. -/
structure Crosses (p q : Program κ) (k k' : κ) : Prop where
  first : Statement.lock k ∈ p.locksBefore k'
  second : Statement.lock k' ∈ p
  first' : Statement.lock k' ∈ q.locksBefore k
  second' : Statement.lock k ∈ q
  apart : ∀ k₀, Statement.lock k₀ ∈ p.locksBefore k' → Statement.lock k₀ ∉ q.locksBefore k

omit [DecidableEq ι] in
theorem Tracked.crosses (hs : Tracked p s) (h : s.CrossWait i j k k') :
    i ≠ j ∧ Crosses (p i) (p j) k k' := by
  obtain ⟨hk, hk', hi, hj⟩ := h
  obtain ⟨hmem, hheld⟩ := hs.held_of_waits hi
  obtain ⟨hmem', hheld'⟩ := hs.held_of_waits hj
  refine ⟨hj.2.2, (hheld k).mp hk, hmem, (hheld' k').mp hk', hmem', fun k₀ h₀ h₀' ↦ ?_⟩
  have he := ((hheld k₀).mpr h₀).symm.trans ((hheld' k₀).mpr h₀')
  exact hj.2.2 (Option.some.inj he)

omit [DecidableEq ι] in
theorem exists_eq_locksBefore {p : Program κ} (h : Statement.lock k ∈ p) :
    ∃ l, p = p.locksBefore k ++ .lock k :: l := by
  induction p with
  | nil => cases h
  | cons x p ih =>
    by_cases hx : x = .lock k
    · subst hx
      exact ⟨p, by simp [Program.locksBefore]⟩
    · obtain ⟨l, hl⟩ := ih ((List.mem_cons.mp h).resolve_left fun he ↦ hx he.symm)
      refine ⟨l, ?_⟩
      simp only [Program.locksBefore, List.takeWhile_cons, ne_eq, hx, not_false_eq_true,
        decide_true, if_true, List.cons_append, List.cons.injEq, true_and]
      exact hl

omit [DecidableEq ι] in
theorem lock_notMem_locksBefore (p : Program κ) (k : κ) : Statement.lock k ∉ p.locksBefore k := by
  intro h
  simpa using List.mem_takeWhile_imp h

/-- Two transactions that cross are brought to wait for each other by running each one up to
its second lock. -/
theorem exists_run_crossWait (hij : i ≠ j) (h : Crosses (p i) (p j) k k') :
    ∃ ls s, Run step (init p) ls s ∧ s.CrossWait i j k k' := by
  obtain ⟨l, hl⟩ := exists_eq_locksBefore h.second
  obtain ⟨l', hl'⟩ := exists_eq_locksBefore h.second'
  obtain ⟨s, hrun, hrest, hheld⟩ := run_advance (s := init p) hl fun _ _ ↦ .inl rfl
  have hrestj : s.rest j = (p j).locksBefore k ++ .lock k :: l' := by
    rw [hrest, Function.update_of_ne hij.symm]
    exact hl'
  have hfree : ∀ k₀, Statement.lock k₀ ∈ (p j).locksBefore k →
      s.holders k₀ = none ∨ s.holders k₀ = some j := by
    intro k₀ h₀
    rw [hheld, if_neg fun hi ↦ h.apart k₀ hi h₀]
    exact .inl rfl
  obtain ⟨t, hrun', hrest', hheld'⟩ := run_advance hrestj hfree
  have hk : t.holders k = some i := by
    rw [hheld', if_neg (lock_notMem_locksBefore _ _), hheld, if_pos h.first]
  have hk' : t.holders k' = some j := by
    rw [hheld', if_pos h.first']
  refine ⟨_, t, hrun.append hrun', hk, hk', ⟨⟨l, ?_⟩, hk', hij.symm⟩, ⟨l', ?_⟩, hk, hij⟩
  · rw [hrest', Function.update_of_ne hij, hrest, Function.update_self]
  · rw [hrest', Function.update_self]

/-- No two transactions ever wait for each other exactly if no two of them cross. -/
theorem no_crossWait_iff (p : ι → Program κ) (k k' : κ) :
    (∀ ls s, Run step (init p) ls s → ∀ i j, ¬ s.CrossWait i j k k') ↔
      ∀ i j, i ≠ j → ¬ Crosses (p i) (p j) k k' := by
  constructor
  · intro h i j hij hcross
    obtain ⟨ls, s, hrun, hwait⟩ := exists_run_crossWait hij hcross
    exact h ls s hrun i j hwait
  · intro h ls s hrun i j hwait
    have htracked := hrun.invariant (fun _ _ _ hs hstep ↦ tracked_step hs hstep) (tracked_init p)
    obtain ⟨hij, hcross⟩ := htracked.crosses hwait
    exact h i j hij hcross

end System

end TradingOS.Lib.Locks
