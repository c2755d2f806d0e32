import Mathlib.Algebra.BigOperators.Ring.List
import Mathlib.Algebra.Order.BigOperators.Group.List
import Mathlib.Algebra.Order.Field.Basic
import Mathlib.Data.List.Forall2
import Mathlib.Data.List.MinMax
import Mathlib.Tactic.Linarith

namespace TradingOS.Lib

/-- The first entries of a sorted list are, one by one, no worse than any others. -/
theorem forall₂_take_of_sublist {α : Type*} {r : α → α → Prop} [Std.Refl r] {l s : List α}
    (hsorted : l.Pairwise r) (hs : s.Sublist l) : List.Forall₂ r (l.take s.length) s := by
  induction l generalizing s with
  | nil =>
    rw [List.sublist_nil.mp hs]
    exact .nil
  | cons a l ih =>
    cases s with
    | nil => exact .nil
    | cons x s =>
      have hx : x ∈ a :: l := hs.subset List.mem_cons_self
      have hax : r a x := by
        rcases List.mem_cons.mp hx with rfl | hx
        · exact Std.Refl.refl x
        · exact List.rel_of_pairwise_cons hsorted hx
      exact .cons hax (ih hsorted.of_cons hs.tail)

variable {𝕜 : Type*} [Field 𝕜]

def mean (l : List 𝕜) : 𝕜 := l.sum / l.length

theorem mean_map_mul (c : 𝕜) (l : List 𝕜) : mean (l.map (c * ·)) = c * mean l := by
  unfold mean
  rw [List.sum_map_mul_left, List.map_id', List.length_map, mul_div_assoc]

variable [LinearOrder 𝕜] [IsStrictOrderedRing 𝕜]

theorem sum_take_le_of_subperm {l s : List 𝕜} (hsorted : l.Pairwise (· ≤ ·)) (hs : s.Subperm l) :
    (l.take s.length).sum ≤ s.sum := by
  obtain ⟨t, hperm, ht⟩ := hs
  rw [← hperm.sum_eq, ← hperm.length_eq]
  exact (forall₂_take_of_sublist hsorted ht).sum_le_sum

theorem minimum_le_mean {l : List 𝕜} (h : l ≠ []) : l.minimum ≤ ((mean l : 𝕜) : WithTop 𝕜) := by
  obtain ⟨lo, hlo⟩ := WithTop.ne_top_iff_exists.mp (List.minimum_ne_top_of_ne_nil h)
  have hle : ∀ x ∈ l, lo ≤ x := fun x hx ↦ List.minimum_le_of_mem hx hlo.symm
  have hlength : (0 : 𝕜) < l.length := Nat.cast_pos.mpr (List.length_pos_iff.mpr h)
  have hsum := List.card_nsmul_le_sum l lo hle
  rw [nsmul_eq_mul] at hsum
  rw [← hlo, WithTop.coe_le_coe, mean, le_div_iff₀ hlength]
  linarith

theorem mean_le_maximum {l : List 𝕜} (h : l ≠ []) : ((mean l : 𝕜) : WithBot 𝕜) ≤ l.maximum := by
  obtain ⟨hi, hhi⟩ := WithBot.ne_bot_iff_exists.mp (List.maximum_ne_bot_of_ne_nil h)
  have hle : ∀ x ∈ l, x ≤ hi := fun x hx ↦ List.le_maximum_of_mem hx hhi.symm
  have hlength : (0 : 𝕜) < l.length := Nat.cast_pos.mpr (List.length_pos_iff.mpr h)
  have hsum := List.sum_le_card_nsmul l hi hle
  rw [nsmul_eq_mul] at hsum
  rw [← hhi, WithBot.coe_le_coe, mean, div_le_iff₀ hlength]
  linarith

/-- Where every entry of the second part is at least every entry of the first, so are the
means. -/
theorem mean_le_mean_append {l l' : List 𝕜} (h : l ≠ []) (hle : ∀ x ∈ l, ∀ y ∈ l', x ≤ y) :
    mean l ≤ mean (l ++ l') := by
  obtain ⟨hi, hhi⟩ := WithBot.ne_bot_iff_exists.mp (List.maximum_ne_bot_of_ne_nil h)
  have hmem : hi ∈ l := List.maximum_mem hhi.symm
  have hleft : mean l ≤ hi := by
    rw [← WithBot.coe_le_coe, hhi]
    exact mean_le_maximum h
  have hright := List.card_nsmul_le_sum l' hi fun y hy ↦ hle hi hmem y hy
  have hlength : (0 : 𝕜) < l.length := Nat.cast_pos.mpr (List.length_pos_iff.mpr h)
  have hlength' : (0 : 𝕜) ≤ l'.length := Nat.cast_nonneg _
  have hsum : l.sum = mean l * l.length := by
    rw [mean, div_mul_cancel₀ _ hlength.ne']
  have hmul : mean l * l'.length ≤ hi * l'.length := mul_le_mul_of_nonneg_right hleft hlength'
  rw [nsmul_eq_mul] at hright
  have happend : mean (l ++ l') = (l.sum + l'.sum) / (l.length + l'.length) := by
    rw [mean, List.sum_append, List.length_append, Nat.cast_add]
  rw [happend, le_div_iff₀ (by linarith)]
  linarith

/-- Taking more of a sorted list cannot lower the mean. -/
theorem mean_take_mono {l : List 𝕜} (hsorted : l.Pairwise (· ≤ ·)) {j k : ℕ} (hj : 0 < j)
    (hjk : j ≤ k) (hl : l ≠ []) : mean (l.take j) ≤ mean (l.take k) := by
  have htake : l.take k = l.take j ++ (l.drop j).take (k - j) := by
    rw [← List.take_add, Nat.add_sub_cancel' hjk]
  have hne : l.take j ≠ [] := by
    simp [List.take_eq_nil_iff, hl, hj.ne']
  rw [htake]
  refine mean_le_mean_append hne fun x hx y hy ↦ ?_
  rw [← List.take_append_drop j l] at hsorted
  exact (List.pairwise_append.mp hsorted).2.2 x hx y (List.mem_of_mem_take hy)

end TradingOS.Lib
