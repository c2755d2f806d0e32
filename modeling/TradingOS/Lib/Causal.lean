import Mathlib.Data.List.Basic
import Mathlib.Order.Lattice

namespace TradingOS.Lib

variable {α β γ δ σ : Type*}

/-- A series computed from another, a value for each value, none of which depends on a later one. -/
structure Causal (f : List α → List β) : Prop where
  length_eq : ∀ l, (f l).length = l.length
  take_eq : ∀ l n, f (l.take n) = (f l).take n

namespace Causal

variable {f : List α → List β} {g : List α → List γ}

theorem append (hf : Causal f) (l m : List α) : f l <+: f (l ++ m) := by
  have h := hf.take_eq (l ++ m) l.length
  rw [List.take_left] at h
  rw [h]
  exact List.take_prefix _ _

theorem refl : Causal fun l : List α ↦ l where
  length_eq _ := rfl
  take_eq _ _ := rfl

theorem map (h : α → β) : Causal (List.map h) where
  length_eq _ := List.length_map h
  take_eq _ _ := List.map_take

theorem comp {g : List β → List γ} (hg : Causal g) (hf : Causal f) : Causal fun l ↦ g (f l) where
  length_eq l := (hg.length_eq _).trans (hf.length_eq l)
  take_eq l n := by rw [hf.take_eq, hg.take_eq]

theorem zipWith (hf : Causal f) (hg : Causal g) (h : β → γ → δ) :
    Causal fun l ↦ List.zipWith h (f l) (g l) where
  length_eq l := by rw [List.length_zipWith, hf.length_eq, hg.length_eq, Nat.min_self]
  take_eq l n := by rw [hf.take_eq, hg.take_eq, List.take_zipWith]

end Causal

/-- The outputs of a machine that reads a series. -/
def running (step : σ → α → σ × β) : σ → List α → List β
  | _, [] => []
  | s, a :: l => (step s a).2 :: running step (step s a).1 l

theorem length_running (step : σ → α → σ × β) (s : σ) (l : List α) :
    (running step s l).length = l.length := by
  induction l generalizing s with
  | nil => rfl
  | cons a l ih => rw [running, List.length_cons, List.length_cons, ih]

theorem causal_running (step : σ → α → σ × β) (s : σ) : Causal (running step s) where
  length_eq l := length_running step s l
  take_eq l n := by
    induction l generalizing s n with
    | nil => simp [running]
    | cons a l ih =>
      cases n with
      | zero => rfl
      | succ n => rw [List.take_succ_cons, running, running, List.take_succ_cons, ih]

/-- What the inputs and an invariant of the machine say of each output, says so of all of them. -/
theorem forall_mem_running (Inv : σ → Prop) (P : α → Prop) (Q : β → Prop) {step : σ → α → σ × β}
    (hstep : ∀ s a, Inv s → P a → Inv (step s a).1 ∧ Q (step s a).2) {s : σ} (hs : Inv s)
    {l : List α} (hl : ∀ a ∈ l, P a) : ∀ b ∈ running step s l, Q b := by
  induction l generalizing s with
  | nil => simp [running]
  | cons a l ih =>
    obtain ⟨ha, hl⟩ := List.forall_mem_cons.mp hl
    obtain ⟨hinv, hout⟩ := hstep s a hs ha
    rw [running]
    exact List.forall_mem_cons.mpr ⟨hout, ih hinv hl⟩

/-- `shift(1)`. -/
def delayed : List α → List (Option α) := running (fun previous a ↦ (some a, previous)) none

theorem causal_delayed : Causal (delayed (α := α)) := causal_running _ _

/-- A value of everything that has been read. -/
def ofHistory (g : List α → β) (l : List α) : List β :=
  running (fun past a ↦ (past ++ [a], g (past ++ [a]))) [] l

theorem causal_ofHistory (g : List α → β) : Causal (ofHistory g) := causal_running _ _

theorem getElem?_ofHistory (g : List α → β) (l : List α) (i : ℕ) :
    (ofHistory g l)[i]? = if i < l.length then some (g (l.take (i + 1))) else none := by
  have hrun (past : List α) : (running (fun past a ↦ (past ++ [a], g (past ++ [a]))) past l)[i]? =
      if i < l.length then some (g (past ++ l.take (i + 1))) else none := by
    induction l generalizing past i with
    | nil => rfl
    | cons a l ih =>
      cases i with
      | zero => simp [running]
      | succ i =>
        rw [running, List.getElem?_cons_succ, ih]
        simp
  exact hrun []

/-- The last `w` values up to each one, once there are as many. -/
def rolling (w : ℕ) (g : List α → β) : List α → List (Option β) :=
  ofHistory fun past ↦ if past.length < w then none else some (g (past.drop (past.length - w)))

theorem causal_rolling (w : ℕ) (g : List α → β) : Causal (rolling w g) := causal_ofHistory _

theorem getElem?_rolling (w : ℕ) (g : List α → β) (l : List α) (i : ℕ) :
    (rolling w g l)[i]? = if i < l.length then
      some (if i + 1 < w then none else some (g ((l.take (i + 1)).drop (i + 1 - w)))) else none := by
  rw [rolling, getElem?_ofHistory]
  split
  · next h =>
    have hlength : (l.take (i + 1)).length = i + 1 := by
      rw [List.length_take]
      omega
    rw [hlength]
  · rfl

/-- Cutting a series in order at a value is taking its first so many. -/
theorem filter_le_eq_take {τ : Type*} [LinearOrder τ] {key : α → τ} {l : List α}
    (h : l.Pairwise fun a b ↦ key a < key b) (stop : τ) :
    l.filter (key · ≤ stop) = l.take (l.countP (key · ≤ stop)) := by
  induction l with
  | nil => rfl
  | cons a l ih =>
    obtain ⟨ha, hl⟩ := List.pairwise_cons.mp h
    by_cases hstop : key a ≤ stop
    · rw [List.filter_cons_of_pos (by simpa using hstop), ih hl,
        List.countP_cons_of_pos (by simpa using hstop), List.take_succ_cons]
    · have hrest : ∀ b ∈ l, ¬ decide (key b ≤ stop) = true := by
        intro b hb hle
        exact hstop (le_of_lt (lt_of_lt_of_le (ha b hb) (of_decide_eq_true hle)))
      rw [List.filter_cons_of_neg (by simpa using hstop), List.filter_eq_nil_iff.mpr hrest,
        List.countP_cons_of_neg (by simpa using hstop), List.countP_eq_zero.mpr hrest,
        List.take_zero]

end TradingOS.Lib
