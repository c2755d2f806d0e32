import Mathlib.Algebra.BigOperators.Ring.List
import Mathlib.Algebra.Order.BigOperators.Group.List
import Mathlib.Algebra.Order.Field.Rat
import Mathlib.Tactic.Linarith
import Mathlib.Tactic.NormNum
import Mathlib.Tactic.Ring

namespace TradingOS.Backtest.Friction

inductive Segment
  | delivery | intraday
  deriving DecidableEq

inductive Side
  | buy | sell
  deriving DecidableEq

def brokerageRate : ℚ := 3 / 10000
def brokerageCap : ℚ := 20
def sttRateDelivery : ℚ := 1 / 1000
def sttRateIntradaySell : ℚ := 25 / 100000
def exchangeChargeRate : ℚ := 297 / 10000000
def sebiChargeRate : ℚ := 1 / 1000000
def stampDutyRateDelivery : ℚ := 15 / 100000
def stampDutyRateIntraday : ℚ := 3 / 100000
def gstRate : ℚ := 18 / 100

structure TradeCostBreakdown where
  turnover : ℚ
  brokerage : ℚ
  stt : ℚ
  exchangeCharges : ℚ
  sebiCharges : ℚ
  stampDuty : ℚ
  gst : ℚ
  deriving DecidableEq

namespace TradeCostBreakdown

def total (cost : TradeCostBreakdown) : ℚ :=
  cost.brokerage + cost.stt + cost.exchangeCharges + cost.sebiCharges + cost.stampDuty + cost.gst

end TradeCostBreakdown

def computeBrokerage (turnover : ℚ) : ℚ := min (turnover * brokerageRate) brokerageCap

def computeStt (turnover : ℚ) (segment : Segment) (side : Side) : ℚ :=
  if segment = .delivery then turnover * sttRateDelivery
  else if side = .sell then turnover * sttRateIntradaySell else 0

def computeExchangeCharges (turnover : ℚ) : ℚ := turnover * exchangeChargeRate

def computeSebiCharges (turnover : ℚ) : ℚ := turnover * sebiChargeRate

def computeStampDuty (turnover : ℚ) (segment : Segment) (side : Side) : ℚ :=
  if side ≠ .buy then 0
  else turnover * if segment = .delivery then stampDutyRateDelivery else stampDutyRateIntraday

def computeTradeCost (price quantity : ℚ) (segment : Segment) (side : Side) : TradeCostBreakdown :=
  let turnover := price * quantity
  let brokerage := computeBrokerage turnover
  let exchangeCharges := computeExchangeCharges turnover
  let sebiCharges := computeSebiCharges turnover
  { turnover := turnover
    brokerage := brokerage
    stt := computeStt turnover segment side
    exchangeCharges := exchangeCharges
    sebiCharges := sebiCharges
    stampDuty := computeStampDuty turnover segment side
    gst := gstRate * (brokerage + exchangeCharges + sebiCharges) }

example : (computeTradeCost 2500 100 .delivery .buy).total = 3201565 / 10000 := by decide +kernel

section Split

variable {segment : Segment} {side : Side} {price : ℚ} {quantities xs : List ℚ} {cap x : ℚ}

theorem sum_map_min_nonneg (hcap : 0 ≤ cap) (h : ∀ x ∈ xs, 0 ≤ x) :
    0 ≤ (xs.map (min · cap)).sum := by
  apply List.sum_nonneg
  intro y hy
  obtain ⟨x, hx, rfl⟩ := List.mem_map.mp hy
  exact le_min (h x hx) hcap

theorem min_sum_le (hcap : 0 ≤ cap) (h : ∀ x ∈ xs, 0 ≤ x) :
    min xs.sum cap ≤ (xs.map (min · cap)).sum := by
  induction xs with
  | nil => simp [hcap]
  | cons x xs ih =>
    obtain ⟨hx, hxs⟩ := List.forall_mem_cons.mp h
    have hrest := ih hxs
    have hnonneg := sum_map_min_nonneg hcap hxs
    rw [List.map_cons, List.sum_cons, List.sum_cons]
    rcases le_total x cap with hle | hge
    · rw [min_eq_left hle]
      rcases le_total xs.sum cap with hle' | hge'
      · rw [min_eq_left hle'] at hrest
        exact (min_le_left _ _).trans (by linarith)
      · rw [min_eq_right hge'] at hrest
        exact (min_le_right _ _).trans (by linarith)
    · rw [min_eq_right hge]
      exact (min_le_right _ _).trans (by linarith)

theorem sum_erase_of_mem (hx : x ∈ xs) : xs.sum = x + (xs.erase x).sum := by
  rw [(List.perm_cons_erase hx).sum_eq, List.sum_cons]

/-- Cutting the parts is cutting the sum exactly if the sum is not cut or is one of the parts. -/
theorem min_sum_eq_iff (hcap : 0 < cap) (h : ∀ x ∈ xs, 0 ≤ x) :
    min xs.sum cap = (xs.map (min · cap)).sum ↔ xs.sum ≤ cap ∨ ∃ x ∈ xs, x = xs.sum := by
  have hsplit {x : ℚ} (hx : x ∈ xs) :
      (xs.map (min · cap)).sum = min x cap + ((xs.erase x).map (min · cap)).sum := by
    rw [((List.perm_cons_erase hx).map (min · cap)).sum_eq, List.map_cons, List.sum_cons]
  have hrest {x : ℚ} : ∀ y ∈ xs.erase x, 0 ≤ y := fun y hy ↦ h y (List.mem_of_mem_erase hy)
  have huncut (hle : ∀ x ∈ xs, x ≤ cap) : (xs.map (min · cap)).sum = xs.sum := by
    have hself : xs.map (min · cap) = xs.map id :=
      List.map_congr_left fun x hx ↦ min_eq_left (hle x hx)
    rw [hself, List.map_id]
  constructor
  · intro heq
    by_contra hboth
    obtain ⟨hgt, hone⟩ := not_or.mp hboth
    rw [min_eq_right (not_le.mp hgt).le] at heq
    by_cases hall : ∀ x ∈ xs, x ≤ cap
    · rw [huncut hall] at heq
      exact hgt heq.ge
    · -- one part takes the whole cap, so none of the others costs anything
      push Not at hall
      obtain ⟨x, hx, hlt⟩ := hall
      rw [hsplit hx, min_eq_right hlt.le] at heq
      have hzero : ∀ y ∈ xs.erase x, y = 0 := by
        intro y hy
        have hle : min y cap ≤ ((xs.erase x).map (min · cap)).sum := by
          refine List.single_le_sum ?_ _ (List.mem_map_of_mem (f := (min · cap)) hy)
          intro z hz
          obtain ⟨z', hz', rfl⟩ := List.mem_map.mp hz
          exact le_min (hrest z' hz') hcap.le
        have hmin : min y cap ≤ 0 := by linarith
        rcases min_le_iff.mp hmin with hy' | hcap'
        · exact le_antisymm hy' (hrest y hy)
        · exact absurd hcap' (not_le.mpr hcap)
      refine hone ⟨x, hx, ?_⟩
      rw [sum_erase_of_mem hx, List.sum_eq_zero hzero, add_zero]
  · rintro (hle | ⟨x, hx, hsum⟩)
    · have hall : ∀ x ∈ xs, x ≤ cap := fun x hx ↦ (List.single_le_sum h x hx).trans hle
      rw [huncut hall, min_eq_left hle]
    · have hzero : (xs.erase x).sum = 0 := by linarith [sum_erase_of_mem hx]
      have hcut := min_sum_le hcap.le (hrest (x := x))
      have hbound : ((xs.erase x).map (min · cap)).sum ≤ (xs.erase x).sum := by
        have hle := List.sum_le_sum (f := (min · cap)) (g := id) (l := xs.erase x)
          fun y _ ↦ min_le_left y cap
        rwa [List.map_id] at hle
      rw [hzero, min_eq_left hcap.le] at hcut
      rw [hsplit hx, ← hsum, le_antisymm (hbound.trans hzero.le) hcut, add_zero]

/-- What each rupee of turnover costs beside the brokerage. -/
def linearRate (segment : Segment) (side : Side) : ℚ :=
  computeStt 1 segment side + computeStampDuty 1 segment side +
    (1 + gstRate) * (exchangeChargeRate + sebiChargeRate)

theorem total_computeTradeCost (price quantity : ℚ) (segment : Segment) (side : Side) :
    (computeTradeCost price quantity segment side).total =
      (1 + gstRate) * computeBrokerage (price * quantity) +
        linearRate segment side * (price * quantity) := by
  have hstt : computeStt (price * quantity) segment side =
      computeStt 1 segment side * (price * quantity) := by
    simp only [computeStt]
    split_ifs <;> ring
  have hstamp : computeStampDuty (price * quantity) segment side =
      computeStampDuty 1 segment side * (price * quantity) := by
    simp only [computeStampDuty]
    split_ifs <;> ring
  simp only [computeTradeCost, TradeCostBreakdown.total, hstt, hstamp, computeExchangeCharges,
    computeSebiCharges, linearRate]
  ring

/-- An order split into parts never costs less, and costs the same exactly if the brokerage of the
whole is not capped or the whole is in one part. -/
theorem splitting_never_saves (hprice : 0 ≤ price) (hquantities : ∀ q ∈ quantities, 0 ≤ q)
    (segment : Segment) (side : Side) :
    let whole := (computeTradeCost price quantities.sum segment side).total
    let parts := (quantities.map fun q ↦ (computeTradeCost price q segment side).total).sum
    whole ≤ parts ∧ (whole = parts ↔ price * quantities.sum * brokerageRate ≤ brokerageCap ∨
      ∃ q ∈ quantities, price * q = price * quantities.sum) := by
  intro whole parts
  have hgst : (0 : ℚ) < 1 + gstRate := by norm_num [gstRate]
  have hrate : (0 : ℚ) < brokerageRate := by norm_num [brokerageRate]
  have hcap : (0 : ℚ) < brokerageCap := by norm_num [brokerageCap]
  generalize hxs : (quantities.map fun q ↦ price * q * brokerageRate) = xs
  have hsum : xs.sum = price * quantities.sum * brokerageRate := by
    rw [← hxs, List.sum_map_mul_right, List.sum_map_mul_left, List.map_id']
  have hnonneg : ∀ x ∈ xs, 0 ≤ x := by
    intro x hx
    rw [← hxs] at hx
    obtain ⟨q, hq, rfl⟩ := List.mem_map.mp hx
    exact mul_nonneg (mul_nonneg hprice (hquantities q hq)) hrate.le
  have hwhole : whole = (1 + gstRate) * min xs.sum brokerageCap +
      linearRate segment side * (price * quantities.sum) := by
    rw [hsum]
    exact total_computeTradeCost _ _ _ _
  have hparts : parts = (1 + gstRate) * (xs.map (min · brokerageCap)).sum +
      linearRate segment side * (price * quantities.sum) := by
    have hbrokerage : xs.map (min · brokerageCap) =
        quantities.map fun q ↦ computeBrokerage (price * q) := by
      rw [← hxs, List.map_map]
      rfl
    have hlinear : price * quantities.sum = (quantities.map fun q ↦ price * q).sum := by
      rw [List.sum_map_mul_left, List.map_id']
    rw [hbrokerage, hlinear, ← List.sum_map_mul_left, ← List.sum_map_mul_left, ← List.sum_map_add]
    simp only [parts, total_computeTradeCost]
  rw [hwhole, hparts]
  constructor
  · have hle := mul_le_mul_of_nonneg_left (min_sum_le hcap.le hnonneg) hgst.le
    linarith
  · rw [add_left_inj, mul_right_inj' hgst.ne', min_sum_eq_iff hcap hnonneg, hsum]
    apply or_congr_right
    rw [← hxs]
    simp only [List.mem_map, exists_exists_and_eq_and, mul_left_inj' hrate.ne']

theorem splitting_never_saves_twoOrders :
    let whole := (computeTradeCost 2500 ([60, 40] : List ℚ).sum .delivery .buy).total
    let parts := (([60, 40] : List ℚ).map fun q ↦
      (computeTradeCost 2500 q .delivery .buy).total).sum
    whole ≤ parts ∧
      (whole = parts ↔ 2500 * ([60, 40] : List ℚ).sum * brokerageRate ≤ brokerageCap ∨
        ∃ q ∈ ([60, 40] : List ℚ), 2500 * q = 2500 * ([60, 40] : List ℚ).sum) :=
  splitting_never_saves (by norm_num) (by decide +kernel) .delivery .buy

end Split

end TradingOS.Backtest.Friction
