import Mathlib.Data.List.Count

namespace TradingOS.Lib.Quota

variable {α κ : Type*} [DecidableEq κ] (slot : α → Option κ) (limit : ℕ)

/-- How many requests so far were counted under a key. -/
def used (past : List α) (k : κ) : ℕ := past.countP (slot · = some k)

/-- Whether a request is within the quota of its key. One without a key is not counted. -/
def admits (past : List α) (a : α) : Bool := (slot a).all (used slot past · < limit)

/-- The verdicts on a history that follows another. -/
def verdicts : List α → List α → List (α × Bool)
  | _, [] => []
  | past, a :: rest => (a, admits slot limit past a) :: verdicts (past ++ [a]) rest

variable {slot limit} {past rest : List α} {a : α} {k : κ} {p : α → Bool}

theorem used_append : used slot (past ++ rest) k = used slot past k + used slot rest k :=
  List.countP_append

theorem used_singleton : used slot [a] k = if slot a = some k then 1 else 0 := by
  simp [used, List.countP_singleton]

theorem used_replicate {n : ℕ} (h : slot a = some k) : used slot (List.replicate n a) k = n := by
  simp [used, List.countP_replicate, h]

theorem used_replicate_of_ne {n : ℕ} (h : slot a ≠ some k) :
    used slot (List.replicate n a) k = 0 := by
  simp [used, List.countP_replicate, h]

theorem used_filter (h : ∀ b ∈ past, ¬ p b → slot b ≠ some k) :
    used slot (past.filter p) k = used slot past k := by
  rw [used, List.countP_filter]
  refine List.countP_congr fun b hb ↦ ?_
  by_cases hp : p b
  · simp [hp]
  · simp [hp, h b hb hp]

theorem admits_of_slot (h : slot a = some k) :
    admits slot limit past a = decide (used slot past k < limit) := by
  simp [admits, h]

theorem verdicts_append {rest' : List α} : verdicts slot limit past (rest ++ rest') =
    verdicts slot limit past rest ++ verdicts slot limit (past ++ rest) rest' := by
  induction rest generalizing past with
  | nil => simp [verdicts]
  | cons a rest ih => simp [verdicts, ih]

/-- Requests that share no key with the rest are judged as if they were alone. -/
theorem filter_verdicts (h : ∀ b ∈ past ++ rest, ¬ p b → ∀ a ∈ rest, p a → ∀ k, slot a = some k →
      slot b ≠ some k) :
    (verdicts slot limit past rest).filter (p ·.1) =
      verdicts slot limit (past.filter p) (rest.filter p) := by
  induction rest generalizing past with
  | nil => rfl
  | cons a rest ih =>
    have htail : (verdicts slot limit (past ++ [a]) rest).filter (p ·.1) =
        verdicts slot limit ((past ++ [a]).filter p) (rest.filter p) := by
      refine ih fun b hb hpb a' ha' ↦ ?_
      rw [List.append_assoc] at hb
      exact h b hb hpb a' (List.mem_cons_of_mem _ ha')
    simp only [List.filter_append, List.filter_cons, List.filter_nil] at htail
    cases hp : p a with
    | true =>
      have hadmits : admits slot limit past a = admits slot limit (past.filter p) a := by
        cases hslot : slot a with
        | none => simp [admits, hslot]
        | some k =>
          have hused := used_filter fun b hb hpb ↦
            h b (List.mem_append_left _ hb) hpb a List.mem_cons_self hp k hslot
          rw [admits_of_slot hslot, admits_of_slot hslot, hused]
      simp only [hp, if_true] at htail
      simp only [verdicts, List.filter_cons, hp, if_true, hadmits, htail]
    | false =>
      simp only [hp, Bool.false_eq_true, if_false, List.append_nil] at htail
      simp only [verdicts, List.filter_cons, hp, Bool.false_eq_true, if_false, htail]

/-- A quota of nothing refuses whatever has a key. -/
theorem verdicts_zero :
    verdicts slot 0 past rest = rest.map fun a ↦ (a, decide (slot a = none)) := by
  induction rest generalizing past with
  | nil => rfl
  | cons a rest ih =>
    rw [verdicts, ih, List.map_cons]
    cases hslot : slot a <;> simp [admits, hslot]

theorem filter_verdicts_zero : (verdicts slot 0 past rest).filter (p ·.1) =
    verdicts slot 0 (past.filter p) (rest.filter p) := by
  rw [verdicts_zero, verdicts_zero, List.filter_map]
  rfl

theorem verdicts_singleton : verdicts slot limit past [a] = [(a, admits slot limit past a)] := rfl

theorem mem_of_mem_verdicts {x : α × Bool} (h : x ∈ verdicts slot limit past rest) : x.1 ∈ rest := by
  induction rest generalizing past with
  | nil => cases h
  | cons a rest ih =>
    rcases List.mem_cons.mp h with rfl | h
    · exact List.mem_cons_self
    · exact List.mem_cons_of_mem _ (ih h)

/-- No more requests of a key are admitted than its quota leaves. -/
theorem countP_admitted_le :
    (verdicts slot limit past rest).countP (fun (a, admitted) ↦ slot a = some k ∧ admitted) ≤
      limit - used slot past k := by
  induction rest generalizing past with
  | nil => simp [verdicts]
  | cons a rest ih =>
    have htail := @ih (past ++ [a])
    rw [used_append, used_singleton] at htail
    rw [verdicts]
    by_cases hslot : slot a = some k
    · rw [if_pos hslot] at htail
      by_cases hadmits : used slot past k < limit
      · rw [List.countP_cons_of_pos (by simp [hslot, admits_of_slot hslot, hadmits])]
        omega
      · rw [List.countP_cons_of_neg (by simp [hslot, admits_of_slot hslot, hadmits])]
        omega
    · rw [if_neg hslot] at htail
      rw [List.countP_cons_of_neg (by simp [hslot])]
      exact htail

theorem verdicts_replicate {n : ℕ} (hslot : slot a = some k) (h : used slot past k + n ≤ limit) :
    verdicts slot limit past (List.replicate n a) = List.replicate n (a, true) := by
  induction n generalizing past with
  | zero => rfl
  | succ n ih =>
    have hrest : used slot (past ++ [a]) k + n ≤ limit := by
      rw [used_append, used_singleton, if_pos hslot]
      omega
    have hadmits : admits slot limit past a = true := by
      rw [admits_of_slot hslot, decide_eq_true_iff]
      omega
    rw [List.replicate_succ, List.replicate_succ, verdicts, ih hrest, hadmits]

end TradingOS.Lib.Quota
