import Mathlib.Algebra.Order.Field.Rat
import Mathlib.Data.Rat.Floor

namespace TradingOS.Risk

structure PositionSizeResult where
  weight : ℚ
  capitalAllocation : ℚ
  shares : ℤ
  deriving DecidableEq

/-- A volatility that is not finite is `none`. -/
def computeInverseVolatilityWeights (volatilities : List (String × Option ℚ)) : List (String × ℚ) :=
  let inverseVols := volatilities.filterMap fun row ↦
    (row.2.filter (0 < ·)).map fun vol ↦ (row.1, 1 / vol)
  let total := (inverseVols.map Prod.snd).sum
  if total = 0 then volatilities.map fun row ↦ (row.1, 0)
  else inverseVols.map fun row ↦ (row.1, row.2 / total)

def computePositionSizes (volatilities : List (String × Option ℚ)) (prices : String → ℚ)
    (totalCapital : ℚ) : List (String × PositionSizeResult) :=
  (computeInverseVolatilityWeights volatilities).map fun row ↦
    let capitalAllocation := row.2 * totalCapital
    (row.1, ⟨row.2, capitalAllocation,
      if 0 < prices row.1 then ⌊capitalAllocation / prices row.1⌋ else 0⟩)

/-- A symbol on its own gets the whole capital, or nothing. -/
theorem computePositionSizes_singleton (symbol : String) (volatility : Option ℚ)
    (prices : String → ℚ) (totalCapital : ℚ) :
    computePositionSizes [(symbol, volatility)] prices totalCapital =
      if volatility.any (0 < ·) then
        [(symbol, ⟨1, totalCapital,
          if 0 < prices symbol then ⌊totalCapital / prices symbol⌋ else 0⟩)]
      else [(symbol, ⟨0, 0, 0⟩)] := by
  cases volatility with
  | none => simp [computePositionSizes, computeInverseVolatilityWeights]
  | some vol =>
    by_cases hvol : 0 < vol
    · simp [computePositionSizes, computeInverseVolatilityWeights, Option.filter, hvol, hvol.ne']
    · simp [computePositionSizes, computeInverseVolatilityWeights, Option.filter, hvol]

end TradingOS.Risk
