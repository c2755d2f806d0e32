import Mathlib.Algebra.Order.Field.Rat
import TradingOS.Lib.Hinge

namespace TradingOS.Risk

open Lib

inductive OptionType
  | ce | pe
  deriving DecidableEq

/-- The two documented sides, and whatever else a proposal may have put in the field. -/
inductive Side
  | buy | sell
  | other (text : String)
  deriving DecidableEq

structure OptionLeg where
  symbol : String
  optionType : OptionType
  strike : ℚ
  side : Side
  quantity : ℤ
  deriving DecidableEq

def OptionLeg.beyond (other soldLeg : OptionLeg) : Bool :=
  match soldLeg.optionType with
  | .ce => soldLeg.strike < other.strike
  | .pe => other.strike < soldLeg.strike

/-- The test `other is sold_leg` of the source decides nothing: a sold leg is not bought. -/
def hasHedge (soldLeg : OptionLeg) (legs : List OptionLeg) : Bool :=
  legs.any fun other ↦ other.symbol = soldLeg.symbol ∧ other.side = .buy ∧
    other.optionType = soldLeg.optionType ∧ other.beyond soldLeg

structure NakedOptionsScanResult where
  nakedLegs : List OptionLeg
  deriving DecidableEq

def NakedOptionsScanResult.passed (r : NakedOptionsScanResult) : Bool := r.nakedLegs.length = 0

def scanForNakedOptions (legs : List OptionLeg) : NakedOptionsScanResult :=
  ⟨legs.filter fun leg ↦ leg.side = .sell ∧ ¬ hasHedge leg legs⟩

theorem passed_scan_iff (legs : List OptionLeg) : (scanForNakedOptions legs).passed ↔
    ∀ leg ∈ legs, leg.side = .sell → hasHedge leg legs := by
  simp only [NakedOptionsScanResult.passed, scanForNakedOptions, decide_eq_true_eq,
    List.length_eq_zero_iff, List.filter_eq_nil_iff, not_and, not_not]

def HasWing (soldLeg : OptionLeg) (legs : List OptionLeg) : Prop :=
  ∃ other ∈ legs, other.symbol = soldLeg.symbol ∧ other.side = .buy ∧
    other.optionType = soldLeg.optionType ∧ other.beyond soldLeg

theorem hasHedge_iff {soldLeg : OptionLeg} {legs : List OptionLeg} :
    hasHedge soldLeg legs ↔ HasWing soldLeg legs := by
  simp only [hasHedge, HasWing, List.any_eq_true, decide_eq_true_eq]

def OptionLeg.signedQuantity (leg : OptionLeg) : ℤ :=
  match leg.side with
  | .buy => leg.quantity
  | .sell => -leg.quantity
  | .other _ => 0

/-- What the leg pays at expiry, premiums aside. -/
def OptionLeg.payoff (leg : OptionLeg) (spot : ℚ) : ℚ :=
  leg.signedQuantity * match leg.optionType with
    | .ce => max (spot - leg.strike) 0
    | .pe => max (leg.strike - spot) 0

def payoff (legs : List OptionLeg) (spot : ℚ) : ℚ := (legs.map fun leg ↦ leg.payoff spot).sum

def LossBounded (legs : List OptionLeg) : Prop := ∃ b, ∀ spot, 0 ≤ spot → b ≤ payoff legs spot

def callQuantity (side : Side) (legs : List OptionLeg) : ℤ :=
  ((legs.filter fun leg ↦ leg.side = side ∧ leg.optionType = .ce).map OptionLeg.quantity).sum

def OptionLeg.hinge (leg : OptionLeg) : Hinge ℚ := ⟨leg.optionType = .ce, leg.strike, leg.signedQuantity⟩

theorem hinge_value (leg : OptionLeg) (spot : ℚ) : leg.hinge.value spot = leg.payoff spot := by
  cases h : leg.optionType <;> simp [OptionLeg.hinge, Hinge.value, OptionLeg.payoff, h]

theorem sumSlope_hinge (legs : List OptionLeg) : Hinge.sumSlope (legs.map OptionLeg.hinge) =
    ((callQuantity .buy legs - callQuantity .sell legs : ℤ) : ℚ) := by
  induction legs with
  | nil => rfl
  | cons leg legs ih =>
    have hcons : Hinge.sumSlope ((leg :: legs).map OptionLeg.hinge) =
        leg.hinge.slope + Hinge.sumSlope (legs.map OptionLeg.hinge) := by
      simp only [Hinge.sumSlope, List.map_cons, List.sum_cons]
    rw [hcons, ih]
    cases hs : leg.side <;> cases ht : leg.optionType <;>
      simp [OptionLeg.hinge, Hinge.slope, OptionLeg.signedQuantity, callQuantity, hs, ht] <;> ring

/-- The combined loss is bounded exactly if no sold call quantity is left uncovered. -/
theorem lossBounded_iff (legs : List OptionLeg) :
    LossBounded legs ↔ callQuantity .sell legs ≤ callQuantity .buy legs := by
  have hvalue : ∀ spot, Hinge.sumValue (legs.map OptionLeg.hinge) spot = payoff legs spot := by
    intro spot
    simp only [Hinge.sumValue, payoff, List.map_map, Function.comp_def, hinge_value]
  have hbdd : LossBounded legs ↔
      BddBelow (Set.image (Hinge.sumValue (legs.map OptionLeg.hinge)) (Set.Ici 0)) := by
    refine exists_congr fun b ↦ ?_
    simp only [lowerBounds, Set.mem_image, Set.mem_Ici, Set.mem_ofPred_eq, forall_exists_index,
      and_imp, forall_apply_eq_imp_iff₂, hvalue]
  rw [hbdd, Hinge.bddBelow_sumValue_iff, sumSlope_hinge, Int.cast_nonneg_iff, sub_nonneg]

/-- For every list of legs: the loss is bounded exactly if the sold calls are covered in
quantity, and a passing scan implies that exactly if they are, or a sold leg without a wing
makes the scan fail. -/
theorem passed_scan_bounds_loss_iff (legs : List OptionLeg) :
    (LossBounded legs ↔ callQuantity .sell legs ≤ callQuantity .buy legs) ∧
    (((scanForNakedOptions legs).passed → LossBounded legs) ↔
      callQuantity .sell legs ≤ callQuantity .buy legs ∨
        ∃ leg ∈ legs, leg.side = .sell ∧ ¬ HasWing leg legs) := by
  refine ⟨lossBounded_iff legs, ?_⟩
  rw [passed_scan_iff, lossBounded_iff]
  simp only [hasHedge_iff]
  constructor
  · intro h
    by_contra hno
    obtain ⟨huncovered, hall⟩ := not_or.mp hno
    refine huncovered (h fun leg hleg hsell ↦ ?_)
    by_contra hwing
    exact hall ⟨leg, hleg, hsell, hwing⟩
  · rintro (hle | ⟨leg, hleg, hsell, hwing⟩) hpassed
    · exact hle
    · exact absurd (hpassed leg hleg hsell) hwing

/-- Two calls sold against one bought further out: a passing ratio spread. -/
theorem ratio_spread_unbounded :
    let legs : List OptionLeg := [⟨"NIFTY", .ce, 100, .sell, 2⟩, ⟨"NIFTY", .ce, 110, .buy, 1⟩]
    (scanForNakedOptions legs).passed ∧ ¬ LossBounded legs := by
  intro legs
  refine ⟨by decide +kernel, fun h ↦ ?_⟩
  have hle := (lossBounded_iff legs).mp h
  revert hle
  decide +kernel

end TradingOS.Risk
