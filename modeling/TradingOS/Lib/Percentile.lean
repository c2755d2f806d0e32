import Mathlib.Algebra.Order.Floor.Semiring
import Mathlib.Data.List.GetD
import Mathlib.Data.List.Sort
import Mathlib.Tactic.Linarith
import Mathlib.Tactic.Ring

namespace TradingOS.Lib

section Entry

variable {α : Type*} [Zero α] {s : List α}

/-- The entry of a list at a position, the last one past its end. -/
def entry (s : List α) (k : ℕ) : α := s.getD (min k (s.length - 1)) 0

theorem entry_eq_getElem {k : ℕ} (hk : k < s.length) : entry s k = s[k] := by
  have hmin : min k (s.length - 1) = k := by omega
  rw [entry, hmin, List.getD_eq_getElem _ _ hk]

theorem entry_mem (hs : s ≠ []) (k : ℕ) : entry s k ∈ s := by
  have hpos := List.length_pos_iff.mpr hs
  have hlt : min k (s.length - 1) < s.length := by omega
  rw [entry, List.getD_eq_getElem _ _ hlt]
  exact List.getElem_mem hlt

theorem entry_mono [Preorder α] (hs : s.Pairwise (· ≤ ·)) {k k' : ℕ} (hk : k ≤ k') :
    entry s k ≤ entry s k' := by
  rcases eq_or_ne s [] with rfl | hne
  · exact le_refl _
  · have hpos := List.length_pos_iff.mpr hne
    have hlt : min k (s.length - 1) < s.length := by omega
    have hlt' : min k' (s.length - 1) < s.length := by omega
    have hle : min k (s.length - 1) ≤ min k' (s.length - 1) := by omega
    rw [entry, entry, List.getD_eq_getElem _ _ hlt, List.getD_eq_getElem _ _ hlt']
    rcases hle.eq_or_lt with he | hlt
    · simp only [he, le_refl]
    · exact List.pairwise_iff_getElem.mp hs _ _ _ _ hlt

end Entry

variable {𝕜 : Type*} [Field 𝕜] [LinearOrder 𝕜] [IsStrictOrderedRing 𝕜] [FloorSemiring 𝕜]
  {s l l' : List 𝕜} {v w q q' : 𝕜}

/-- The value at a fractional position of a sorted list, on the line between its neighbours. -/
def quantile (s : List 𝕜) (v : 𝕜) : 𝕜 :=
  entry s ⌊v⌋₊ + (v - ⌊v⌋₊) * (entry s (⌊v⌋₊ + 1) - entry s ⌊v⌋₊)

theorem entry_le_quantile (hs : s.Pairwise (· ≤ ·)) (hv : 0 ≤ v) :
    entry s ⌊v⌋₊ ≤ quantile s v := by
  have hrest : 0 ≤ v - ⌊v⌋₊ := sub_nonneg.mpr (Nat.floor_le hv)
  have hstep : 0 ≤ entry s (⌊v⌋₊ + 1) - entry s ⌊v⌋₊ :=
    sub_nonneg.mpr (entry_mono hs (Nat.le_succ _))
  exact le_add_of_nonneg_right (mul_nonneg hrest hstep)

theorem quantile_le_entry (hs : s.Pairwise (· ≤ ·)) : quantile s v ≤ entry s (⌊v⌋₊ + 1) := by
  have hrest : v - ⌊v⌋₊ ≤ 1 := by
    have hlt := Nat.lt_floor_add_one v
    linarith
  have hstep : 0 ≤ entry s (⌊v⌋₊ + 1) - entry s ⌊v⌋₊ :=
    sub_nonneg.mpr (entry_mono hs (Nat.le_succ _))
  have hmul := mul_le_mul_of_nonneg_right hrest hstep
  rw [quantile]
  linarith

theorem quantile_mono (hs : s.Pairwise (· ≤ ·)) (hv : 0 ≤ v) (hvw : v ≤ w) :
    quantile s v ≤ quantile s w := by
  rcases (Nat.floor_le_floor hvw).eq_or_lt with he | hlt
  · have hstep : 0 ≤ entry s (⌊w⌋₊ + 1) - entry s ⌊w⌋₊ :=
      sub_nonneg.mpr (entry_mono hs (Nat.le_succ _))
    have hmul := mul_le_mul_of_nonneg_right (sub_le_sub_right hvw (⌊w⌋₊ : 𝕜)) hstep
    rw [quantile, quantile, he]
    linarith
  · calc
      quantile s v ≤ entry s (⌊v⌋₊ + 1) := quantile_le_entry hs
      _ ≤ entry s ⌊w⌋₊ := entry_mono hs hlt
      _ ≤ quantile s w := entry_le_quantile hs (hv.trans hvw)

/-- Past the position, at most the entries that are left exceed the value. -/
theorem countP_quantile_lt_le (hs : s.Pairwise (· ≤ ·)) (hv : 0 ≤ v) :
    s.countP (quantile s v < ·) ≤ s.length - (⌊v⌋₊ + 1) := by
  have hfirst : (s.take (⌊v⌋₊ + 1)).countP (quantile s v < ·) = 0 := by
    rw [List.countP_eq_zero]
    intro a ha
    obtain ⟨k, hk, rfl⟩ := List.mem_iff_getElem.mp ha
    rw [List.length_take] at hk
    have hlt : k < s.length := by omega
    rw [List.getElem_take, ← entry_eq_getElem hlt, decide_eq_true_iff, not_lt]
    exact (entry_mono hs (by omega)).trans (entry_le_quantile hs hv)
  have hsplit : s.countP (quantile s v < ·) = (s.drop (⌊v⌋₊ + 1)).countP (quantile s v < ·) := by
    generalize quantile s v = c at hfirst ⊢
    conv_lhs => rw [← List.take_append_drop (⌊v⌋₊ + 1) s, List.countP_append, hfirst, zero_add]
  rw [hsplit, ← List.length_drop]
  exact List.countP_le_length

/-- `np.percentile` with its linear method. -/
def percentile (q : 𝕜) (l : List 𝕜) : Option 𝕜 :=
  if l = [] then none
  else some (quantile (l.mergeSort fun a b ↦ a ≤ b) ((l.length - 1 : ℕ) * q / 100))

omit [FloorSemiring 𝕜] in
theorem position_nonneg (hq : 0 ≤ q) (n : ℕ) : 0 ≤ (n : 𝕜) * q / 100 :=
  div_nonneg (mul_nonneg n.cast_nonneg hq) (by norm_num)

omit [IsStrictOrderedRing 𝕜] in
theorem percentile_eq_none : percentile q l = none ↔ l = [] := by
  rw [percentile]
  split <;> simp_all

omit [IsStrictOrderedRing 𝕜] in
theorem percentile_perm (h : l.Perm l') : percentile q l = percentile q l' := by
  have hsort : l.mergeSort (fun a b ↦ a ≤ b) = l'.mergeSort fun a b ↦ a ≤ b :=
    List.Perm.eq_of_pairwise' (List.pairwise_mergeSort' (· ≤ ·) l)
      (List.pairwise_mergeSort' (· ≤ ·) l')
      ((List.mergeSort_perm _ _).trans (h.trans (List.mergeSort_perm _ _).symm))
  rw [percentile, percentile, hsort, h.length_eq]
  by_cases hnil : l = []
  · subst hnil
    rw [if_pos rfl, if_pos h.nil_eq.symm]
  · have hnil' : l' ≠ [] := fun he ↦ hnil (he ▸ h).eq_nil
    rw [if_neg hnil, if_neg hnil']

theorem percentile_mono {p p' : 𝕜} (hq : 0 ≤ q) (hqq : q ≤ q') (h : percentile q l = some p)
    (h' : percentile q' l = some p') : p ≤ p' := by
  rw [percentile] at h h'
  split at h
  · cases h
  · next hne =>
    rw [if_neg hne] at h'
    cases h
    cases h'
    apply quantile_mono (List.pairwise_mergeSort' (· ≤ ·) l) (position_nonneg hq _)
    exact div_le_div_of_nonneg_right (mul_le_mul_of_nonneg_left hqq (Nat.cast_nonneg _))
      (by norm_num)

theorem percentile_mem_Icc {lo hi p : 𝕜} (hl : ∀ a ∈ l, lo ≤ a ∧ a ≤ hi) (hq : 0 ≤ q)
    (h : percentile q l = some p) : lo ≤ p ∧ p ≤ hi := by
  have hsorted : (l.mergeSort fun a b ↦ a ≤ b).Pairwise (· ≤ ·) := List.pairwise_mergeSort' _ l
  rw [percentile] at h
  split at h
  · cases h
  · next hne =>
    cases h
    have hne' : l.mergeSort (fun a b ↦ a ≤ b) ≠ [] := by
      intro he
      have hlen := (List.mergeSort_perm l fun a b ↦ a ≤ b).length_eq
      rw [he] at hlen
      exact hne (List.length_eq_zero_iff.mp hlen.symm)
    have hentry (k : ℕ) := hl _ ((List.mergeSort_perm _ _).mem_iff.mp (entry_mem hne' k))
    exact ⟨(hentry _).1.trans (entry_le_quantile hsorted (position_nonneg hq _)),
      (quantile_le_entry hsorted).trans (hentry _).2⟩

/-- How many members of a sample may exceed its percentile. -/
theorem countP_percentile_lt_le {p : 𝕜} (hq : 0 ≤ q) (h : percentile q l = some p) :
    l.countP (p < ·) ≤ l.length - 1 - ⌊((l.length - 1 : ℕ) : 𝕜) * q / 100⌋₊ := by
  rw [percentile] at h
  split at h
  · cases h
  · cases h
    have hperm := List.mergeSort_perm l fun a b ↦ a ≤ b
    have hsorted : (l.mergeSort fun a b ↦ a ≤ b).Pairwise (· ≤ ·) := List.pairwise_mergeSort' _ l
    have hcount := countP_quantile_lt_le hsorted (position_nonneg hq (l.length - 1))
    rw [hperm.countP_eq, hperm.length_eq] at hcount
    omega

end TradingOS.Lib
