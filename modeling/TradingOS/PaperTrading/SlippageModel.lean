import Mathlib.Algebra.Order.BigOperators.Group.List
import TradingOS.PaperTrading.PositionAccounting

namespace TradingOS.PaperTrading

structure DepthLevel where
  price : ℚ
  quantity : ℤ
  deriving DecidableEq

structure FillResult where
  filledQuantity : ℤ
  averageFillPrice : Option ℚ
  slippageBps : Option ℚ
  fullyFilled : Bool
  deriving DecidableEq

structure BookWalk where
  touchPrice : Option ℚ
  remaining : ℤ
  totalCost : ℚ
  filled : ℤ
  deriving DecidableEq

/-- A broker reports a thin book with empty levels. -/
def DepthLevel.isUsable (level : DepthLevel) : Bool := 0 < level.quantity ∧ 0 < level.price

namespace BookWalk

def consume (w : BookWalk) (level : DepthLevel) : BookWalk :=
  let take := min w.remaining level.quantity
  { touchPrice := some (w.touchPrice.getD level.price)
    remaining := w.remaining - take
    totalCost := w.totalCost + take * level.price
    filled := w.filled + take }

def walk (w : BookWalk) : List DepthLevel → BookWalk
  | [] => w
  | level :: depth =>
    if w.remaining ≤ 0 then w
    else if level.isUsable then (w.consume level).walk depth
    else w.walk depth

end BookWalk

def FillResult.unfilled : FillResult := ⟨0, none, none, false⟩

def simulateFill (side : Side) (quantity : ℤ) (depth : List DepthLevel) :
    Except String FillResult :=
  if quantity ≤ 0 then .error s!"quantity must be positive, got {quantity}"
  else
    let w := BookWalk.walk ⟨none, quantity, 0, 0⟩ depth
    match w.touchPrice with
    | none => .ok .unfilled
    | some touchPrice =>
      if w.filled = 0 then .ok .unfilled
      else
        let averageFillPrice := w.totalCost / w.filled
        let impact :=
          match side with
          | .buy => averageFillPrice - touchPrice
          | .sell => touchPrice - averageFillPrice
        .ok
          { filledQuantity := w.filled
            averageFillPrice := some averageFillPrice
            slippageBps := some (max (impact / touchPrice * 10000) 0)
            fullyFilled := w.filled = quantity }

def usableDepth (depth : List DepthLevel) : ℤ :=
  ((depth.filter DepthLevel.isUsable).map DepthLevel.quantity).sum

theorem DepthLevel.quantity_pos {level : DepthLevel} (h : level.isUsable) : 0 < level.quantity := by
  have husable : 0 < level.quantity ∧ 0 < level.price := by simpa [isUsable] using h
  exact husable.1

theorem usableDepth_cons (level : DepthLevel) (depth : List DepthLevel) :
    usableDepth (level :: depth) =
      (if level.isUsable then level.quantity else 0) + usableDepth depth := by
  unfold usableDepth
  rw [List.filter_cons]
  split
  · rw [List.map_cons, List.sum_cons]
  · rw [zero_add]

theorem usableDepth_nonneg (depth : List DepthLevel) : 0 ≤ usableDepth depth := by
  apply List.sum_nonneg
  intro q hq
  obtain ⟨level, hlevel, rfl⟩ := List.mem_map.mp hq
  exact (DepthLevel.quantity_pos (List.mem_filter.mp hlevel).2).le

namespace BookWalk

/-- The walk takes what is asked for, as far as the book goes. -/
theorem filled_walk (w : BookWalk) (depth : List DepthLevel) (h : 0 ≤ w.remaining) :
    (w.walk depth).filled = w.filled + min w.remaining (usableDepth depth) := by
  induction depth generalizing w with
  | nil => simp [walk, usableDepth, h]
  | cons level depth ih =>
    have hdepth := usableDepth_nonneg depth
    rw [walk, usableDepth_cons]
    split
    · have hlevel : 0 ≤ if level.isUsable then level.quantity else 0 := by
        split
        · next husable => exact (DepthLevel.quantity_pos husable).le
        · exact le_rfl
      omega
    · split
      · next husable =>
        have hpos := DepthLevel.quantity_pos husable
        have hrest : 0 ≤ (w.consume level).remaining := by
          simp only [consume]
          omega
        rw [ih _ hrest]
        simp only [consume]
        omega
      · rw [ih w h, zero_add]

theorem touchPrice_walk (w : BookWalk) (depth : List DepthLevel)
    (h : w.touchPrice = none → w.filled = 0) :
    (w.walk depth).touchPrice = none → (w.walk depth).filled = 0 := by
  induction depth generalizing w with
  | nil => exact h
  | cons level depth ih =>
    rw [walk]
    split
    · exact h
    · split
      · exact ih _ nofun
      · exact ih w h

end BookWalk

theorem filledQuantity_simulateFill (side : Side) {quantity : ℤ} (hquantity : 0 < quantity)
    (depth : List DepthLevel) : ∃ result, simulateFill side quantity depth = .ok result ∧
      result.filledQuantity = min quantity (usableDepth depth) := by
  have hfilled := BookWalk.filled_walk ⟨none, quantity, 0, 0⟩ depth hquantity.le
  have htouch := BookWalk.touchPrice_walk ⟨none, quantity, 0, 0⟩ depth fun _ ↦ rfl
  rw [zero_add] at hfilled
  unfold simulateFill
  rw [if_neg (not_le.mpr hquantity)]
  dsimp only
  split
  · next hnone => exact ⟨_, rfl, (htouch hnone).symm.trans hfilled⟩
  · split
    · next hzero => exact ⟨_, rfl, hzero.symm.trans hfilled⟩
    · exact ⟨_, rfl, hfilled⟩

end TradingOS.PaperTrading
