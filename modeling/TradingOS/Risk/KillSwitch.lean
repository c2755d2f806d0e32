import Mathlib.Algebra.Order.Field.Rat

namespace TradingOS.Risk

structure MaxDrawdownKillSwitch where
  threshold : ℚ
  peakEquity : Option ℚ
  triggered : Bool
  deriving DecidableEq

namespace MaxDrawdownKillSwitch

/-- `DEFAULT_KILL_SWITCH_THRESHOLD`. -/
def defaultThreshold : ℚ := 15 / 100

def init : MaxDrawdownKillSwitch := ⟨defaultThreshold, none, false⟩

variable (switch : MaxDrawdownKillSwitch)

def update (equity : ℚ) : MaxDrawdownKillSwitch :=
  let peak := match switch.peakEquity with
    | none => equity
    | some peak => if peak < equity then equity else peak
  let drawdown := if peak = 0 then 0 else (peak - equity) / peak
  { switch with
    peakEquity := some peak
    triggered := switch.triggered ∨ switch.threshold ≤ drawdown }

def trip : MaxDrawdownKillSwitch := { switch with triggered := true }

def reset : MaxDrawdownKillSwitch := { switch with peakEquity := none, triggered := false }

end MaxDrawdownKillSwitch

end TradingOS.Risk
