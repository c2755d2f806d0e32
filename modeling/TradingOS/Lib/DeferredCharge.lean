import Mathlib.Algebra.Order.Ring.Int
import Mathlib.Tactic.Linarith

namespace TradingOS.Lib

/-- The state of a budget that is looked at before the work and charged when the work is done:
`waiting` jobs have been let in and not been charged, each for `m` at most, and `n` jobs at most
are under way at once. -/
def DeferredCharge (budget m n used waiting : ℤ) : Prop :=
  0 ≤ used ∧ 0 ≤ waiting ∧
    (used = 0 ∧ waiting = 0 ∨ 0 < budget ∧ used + m * waiting ≤ budget - 1 + m * n)

namespace DeferredCharge

variable {budget m n used waiting c : ℤ}

theorem start : DeferredCharge budget m n 0 0 := ⟨le_rfl, le_rfl, .inl ⟨rfl, rfl⟩⟩

theorem wait (h : DeferredCharge budget m n used waiting) (hm : 0 ≤ m) (hleft : used < budget)
    (hn : waiting + 1 ≤ n) : DeferredCharge budget m n used (waiting + 1) := by
  obtain ⟨hused, hwaiting, -⟩ := h
  have hcost : m * (waiting + 1) ≤ m * n := mul_le_mul_of_nonneg_left hn hm
  exact ⟨hused, by omega, .inr ⟨by omega, by omega⟩⟩

theorem charge (h : DeferredCharge budget m n used (waiting + 1)) (hc : 0 ≤ c) (hcm : c ≤ m)
    (hwaiting : 0 ≤ waiting) : DeferredCharge budget m n (used + c) waiting := by
  obtain ⟨hused, -, h⟩ := h
  refine ⟨by omega, hwaiting, ?_⟩
  rcases h with ⟨-, hnone⟩ | ⟨hbudget, hsum⟩
  · omega
  · rw [mul_add, mul_one] at hsum
    exact .inr ⟨hbudget, by omega⟩

theorem mono {waiting' : ℤ} (h : DeferredCharge budget m n used waiting) (hm : 0 ≤ m)
    (hle : waiting' ≤ waiting) (hwaiting : 0 ≤ waiting') :
    DeferredCharge budget m n used waiting' := by
  obtain ⟨hused, -, h⟩ := h
  refine ⟨hused, hwaiting, ?_⟩
  rcases h with ⟨hzero, hnone⟩ | ⟨hbudget, hsum⟩
  · exact .inl ⟨hzero, by omega⟩
  · have hcost : m * waiting' ≤ m * waiting := mul_le_mul_of_nonneg_left hle hm
    exact .inr ⟨hbudget, by omega⟩

/-- A new day. -/
theorem reset (h : DeferredCharge budget m n used waiting) (hm : 0 ≤ m) (hn : waiting ≤ n) :
    DeferredCharge budget m n 0 waiting := by
  obtain ⟨-, hwaiting, h⟩ := h
  refine ⟨le_rfl, hwaiting, ?_⟩
  rcases h with ⟨-, hnone⟩ | ⟨hbudget, -⟩
  · exact .inl ⟨rfl, hnone⟩
  · have hcost : m * waiting ≤ m * n := mul_le_mul_of_nonneg_left hn hm
    exact .inr ⟨hbudget, by omega⟩

/-- The budget is overdrawn by less than what the jobs under way may cost. -/
theorem used_le (h : DeferredCharge budget m n used waiting) (hm : 0 ≤ m) :
    used ≤ max 0 (budget - 1 + m * n) := by
  obtain ⟨-, hwaiting, ⟨hused, -⟩ | ⟨-, hsum⟩⟩ := h
  · exact hused ▸ le_max_left _ _
  · have hcost : 0 ≤ m * waiting := mul_nonneg hm hwaiting
    exact le_max_of_le_right (by omega)

end DeferredCharge

end TradingOS.Lib
