import Mathlib.Algebra.BigOperators.Group.List.Basic
import Mathlib.Algebra.Order.Field.Basic
import Mathlib.Order.Bounds.Basic
import Mathlib.Tactic.FieldSimp
import Mathlib.Tactic.Linarith
import Mathlib.Tactic.Ring

namespace TradingOS.Lib

/-- A weighted hinge: flat on one side of its kink, of slope one on the other. -/
structure Hinge (𝕜 : Type*) where
  rising : Bool
  kink : 𝕜
  weight : 𝕜

namespace Hinge

variable {𝕜 : Type*} [Field 𝕜] [LinearOrder 𝕜]

def value (h : Hinge 𝕜) (x : 𝕜) : 𝕜 :=
  h.weight * if h.rising then max (x - h.kink) 0 else max (h.kink - x) 0

/-- The slope towards infinity. -/
def slope (h : Hinge 𝕜) : 𝕜 := if h.rising then h.weight else 0

def sumValue (hs : List (Hinge 𝕜)) (x : 𝕜) : 𝕜 := (hs.map fun h ↦ h.value x).sum

def sumSlope (hs : List (Hinge 𝕜)) : 𝕜 := (hs.map slope).sum

def deviation (hs : List (Hinge 𝕜)) : 𝕜 := (hs.map fun h ↦ |h.weight| * |h.kink|).sum

variable [IsStrictOrderedRing 𝕜] {x : 𝕜}

theorem abs_value_sub_le (h : Hinge 𝕜) (hx : 0 ≤ x) :
    |h.value x - h.slope * x| ≤ |h.weight| * |h.kink| := by
  have hk := abs_nonneg h.kink
  have hle := le_abs_self h.kink
  have hge := neg_abs_le h.kink
  simp only [value, slope]
  split
  · rw [← mul_sub, abs_mul]
    refine mul_le_mul_of_nonneg_left (abs_le.mpr ?_) (abs_nonneg _)
    rcases le_total (x - h.kink) 0 with hneg | hpos
    · rw [max_eq_right hneg]
      constructor <;> linarith
    · rw [max_eq_left hpos]
      constructor <;> linarith
  · rw [zero_mul, sub_zero, abs_mul]
    refine mul_le_mul_of_nonneg_left (abs_le.mpr ?_) (abs_nonneg _)
    rcases le_total (h.kink - x) 0 with hneg | hpos
    · rw [max_eq_right hneg]
      constructor <;> linarith
    · rw [max_eq_left hpos]
      constructor <;> linarith

theorem abs_sumValue_sub_le (hs : List (Hinge 𝕜)) (hx : 0 ≤ x) :
    |sumValue hs x - sumSlope hs * x| ≤ deviation hs := by
  induction hs with
  | nil => simp [sumValue, sumSlope, deviation]
  | cons h hs ih =>
    have hsplit : sumValue (h :: hs) x - sumSlope (h :: hs) * x =
        (h.value x - h.slope * x) + (sumValue hs x - sumSlope hs * x) := by
      simp only [sumValue, sumSlope, List.map_cons, List.sum_cons]
      ring
    calc |sumValue (h :: hs) x - sumSlope (h :: hs) * x|
        ≤ |h.value x - h.slope * x| + |sumValue hs x - sumSlope hs * x| := by
          rw [hsplit]
          exact abs_add_le _ _
      _ ≤ deviation (h :: hs) := by
          rw [deviation, List.map_cons, List.sum_cons]
          exact add_le_add (h.abs_value_sub_le hx) ih

/-- A sum of hinges is bounded below on the half-line exactly if its slope is not negative. -/
theorem bddBelow_sumValue_iff (hs : List (Hinge 𝕜)) :
    BddBelow (Set.image (sumValue hs) (Set.Ici 0)) ↔ 0 ≤ sumSlope hs := by
  constructor
  · rintro ⟨b, hb⟩
    by_contra hneg
    have hslope : sumSlope hs < 0 := not_le.mp hneg
    -- far enough out the line has fallen below the bound
    let x := (|b| + |deviation hs| + 1) / -sumSlope hs
    have hpos : 0 ≤ |b| + |deviation hs| + 1 := by
      have := abs_nonneg b
      have := abs_nonneg (deviation hs)
      linarith
    have hx : 0 ≤ x := div_nonneg hpos (by linarith)
    have hline : sumSlope hs * x = -(|b| + |deviation hs| + 1) := by
      have hne : sumSlope hs ≠ 0 := hslope.ne
      simp only [x]
      field_simp
    have hbound : b ≤ sumValue hs x := hb ⟨x, hx, rfl⟩
    have hdev := (abs_le.mp (abs_sumValue_sub_le hs hx)).2
    have hle := le_abs_self (deviation hs)
    have hge := neg_abs_le b
    linarith
  · intro hslope
    refine ⟨-deviation hs, ?_⟩
    rintro _ ⟨x, hx, rfl⟩
    have hdev := (abs_le.mp (abs_sumValue_sub_le hs hx)).1
    have hline : 0 ≤ sumSlope hs * x := mul_nonneg hslope hx
    linarith

end Hinge

end TradingOS.Lib
