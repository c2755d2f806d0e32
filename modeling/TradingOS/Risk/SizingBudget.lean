import Mathlib.Algebra.BigOperators.Ring.List
import Mathlib.Algebra.Order.BigOperators.Group.List
import Mathlib.Tactic.FieldSimp
import TradingOS.Lib.Fallible
import TradingOS.Lib.Table
import TradingOS.Risk.PositionSizing

namespace TradingOS.Risk.SizingBudget

open Lib (Table)

/-- What the arithmetic and the lookups could raise. -/
inductive SizingError
  | zeroDivision
  | missingKey (symbol : String)
  deriving DecidableEq

def divide (a b : ℚ) : Except SizingError ℚ := if b = 0 then .error .zeroDivision else .ok (a / b)

/-- `//`. -/
def floorDivide (a b : ℚ) : Except SizingError ℤ :=
  if b = 0 then .error .zeroDivision else .ok ⌊a / b⌋

/-- The rows that the filter of `compute_inverse_volatility_weights` lets through. -/
def usable (volatilities : List (String × Option ℚ)) : List (String × ℚ) :=
  volatilities.filterMap fun row ↦ (row.2.filter (0 < ·)).map fun vol ↦ (row.1, vol)

/-- `compute_inverse_volatility_weights`, each division made as it stands. -/
def weights (volatilities : Table String (Option ℚ)) : Except SizingError (List (String × ℚ)) := do
  let inverseVols ← (usable volatilities.rows).mapM fun row ↦ (divide 1 row.2).map (row.1, ·)
  let total := (inverseVols.map Prod.snd).sum
  if total = 0 then .ok (volatilities.rows.map fun row ↦ (row.1, 0))
  else inverseVols.mapM fun row ↦ (divide row.2 total).map (row.1, ·)

/-- The shares that an allocation buys at a price. -/
def shareCount (capitalAllocation price : ℚ) : Except SizingError ℤ :=
  if 0 < price then floorDivide capitalAllocation price else .ok 0

def lookup (prices : Table String ℚ) (symbol : String) : Except SizingError ℚ :=
  match prices.get? symbol with
  | some price => .ok price
  | none => .error (.missingKey symbol)

/-- `compute_position_sizes`, from the volatilities of the series. -/
def sizes (volatilities : Table String (Option ℚ)) (prices : Table String ℚ) (totalCapital : ℚ) :
    Except SizingError (List (String × PositionSizeResult)) := do
  (← weights volatilities).mapM fun row ↦ do
    let capitalAllocation := row.2 * totalCapital
    let price ← lookup prices row.1
    let shares ← shareCount capitalAllocation price
    .ok (row.1, ⟨row.2, capitalAllocation, shares⟩)

section Weights

variable {rows : List (String × Option ℚ)} {s : String} {vol w : ℚ}

theorem mem_usable : (s, vol) ∈ usable rows ↔ (s, some vol) ∈ rows ∧ 0 < vol := by
  simp only [usable, List.mem_filterMap, Option.map_eq_some_iff, Prod.mk.injEq, Prod.exists,
    Option.filter_eq_some_iff, decide_eq_true_eq]
  constructor
  · rintro ⟨_, _, hrow, _, ⟨rfl, hpos⟩, rfl, rfl⟩
    exact ⟨hrow, hpos⟩
  · rintro ⟨hrow, hpos⟩
    exact ⟨s, some vol, hrow, vol, ⟨rfl, hpos⟩, rfl, rfl⟩

/-- The sum of the inverse volatilities. -/
def total (rows : List (String × Option ℚ)) : ℚ := ((usable rows).map fun row ↦ 1 / row.2).sum

theorem total_pos (h : usable rows ≠ []) : 0 < total rows := by
  apply List.sum_pos
  · intro x hx
    obtain ⟨row, hrow, rfl⟩ := List.mem_map.mp hx
    exact one_div_pos.mpr (mem_usable.mp hrow).2
  · simpa using h

theorem total_of_none_usable (h : usable rows = []) : total rows = 0 := by simp [total, h]

theorem total_eq_zero_iff : total rows = 0 ↔ usable rows = [] :=
  ⟨fun h ↦ by_contra fun hne ↦ (total_pos hne).ne' h, total_of_none_usable⟩

theorem computeInverseVolatilityWeights_eq :
    computeInverseVolatilityWeights rows =
      if total rows = 0 then rows.map fun row ↦ (row.1, 0)
      else (usable rows).map fun row ↦ (row.1, 1 / row.2 / total rows) := by
  have hinverse : (rows.filterMap fun row ↦
      (row.2.filter (0 < ·)).map fun vol ↦ (row.1, 1 / vol)) =
      (usable rows).map fun row ↦ (row.1, 1 / row.2) := by
    rw [usable, List.map_filterMap]
    congr 1
    funext row
    rw [Option.map_map]
    rfl
  simp only [computeInverseVolatilityWeights, hinverse, List.map_map, Function.comp_def, total]
  rfl

/-- No division by zero is met. -/
theorem weights_eq (volatilities : Table String (Option ℚ)) :
    weights volatilities = .ok (computeInverseVolatilityWeights volatilities.rows) := by
  have hinverse : (usable volatilities.rows).mapM (fun row ↦ (divide 1 row.2).map (row.1, ·)) =
      .ok ((usable volatilities.rows).map fun row ↦ (row.1, 1 / row.2)) := by
    apply Lib.mapM_eq_ok
    intro row hrow
    rw [divide, if_neg (mem_usable.mp hrow).2.ne']
    rfl
  rw [weights, hinverse, computeInverseVolatilityWeights_eq]
  simp only [bind, Except.bind, List.map_map, Function.comp_def]
  change (if total volatilities.rows = 0 then _ else _) = _
  split
  · rfl
  · next htotal =>
    refine (Lib.mapM_eq_ok (g := fun row ↦ (row.1, row.2 / total volatilities.rows)) ?_).trans ?_
    · intro row _
      change (divide row.2 (total volatilities.rows)).map _ = _
      rw [divide, if_neg htotal]
      rfl
    · rw [List.map_map]
      rfl

theorem weight_nonneg (h : (s, w) ∈ computeInverseVolatilityWeights rows) : 0 ≤ w := by
  rw [computeInverseVolatilityWeights_eq] at h
  split at h
  · obtain ⟨row, -, heq⟩ := List.mem_map.mp h
    exact (congrArg Prod.snd heq).le
  · next htotal =>
    obtain ⟨row, hrow, heq⟩ := List.mem_map.mp h
    rw [← show 1 / row.2 / total rows = w from congrArg Prod.snd heq]
    have hpos := total_pos fun hnone ↦ htotal (total_of_none_usable hnone)
    exact (div_pos (one_div_pos.mpr (mem_usable.mp hrow).2) hpos).le

theorem sum_weights : ((computeInverseVolatilityWeights rows).map Prod.snd).sum =
    if usable rows = [] then 0 else 1 := by
  rw [computeInverseVolatilityWeights_eq]
  split
  · next htotal =>
    rw [if_pos (total_eq_zero_iff.mp htotal), List.map_map]
    exact List.sum_eq_zero fun x hx ↦ by
      obtain ⟨row, -, rfl⟩ := List.mem_map.mp hx
      rfl
  · next htotal =>
    rw [if_neg fun hnone ↦ htotal (total_of_none_usable hnone), List.map_map]
    calc
      ((usable rows).map fun row ↦ 1 / row.2 / total rows).sum =
          ((usable rows).map fun row ↦ 1 / row.2 * (total rows)⁻¹).sum := by
        simp only [div_eq_mul_inv]
      _ = total rows * (total rows)⁻¹ := List.sum_map_mul_right ..
      _ = 1 := mul_inv_cancel₀ htotal

/-- Equal contributions: a usable symbol's weight times its volatility does not depend on it. -/
theorem mem_weights_of_usable (h : (s, vol) ∈ usable rows) :
    (s, 1 / vol / total rows) ∈ computeInverseVolatilityWeights rows := by
  rw [computeInverseVolatilityWeights_eq, if_neg (total_pos (List.ne_nil_of_mem h)).ne']
  exact List.mem_map.mpr ⟨_, h, rfl⟩

theorem weight_mul_volatility (h : 0 < vol) : 1 / vol / total rows * vol = 1 / total rows := by
  field_simp

/-- What has no usable volatility is left out, or weighs nothing. -/
theorem weight_eq_zero
    (h : (s, w) ∈ computeInverseVolatilityWeights rows) (hs : ∀ vol, (s, vol) ∉ usable rows) :
    w = 0 := by
  rw [computeInverseVolatilityWeights_eq] at h
  split at h
  · obtain ⟨row, -, heq⟩ := List.mem_map.mp h
    exact (congrArg Prod.snd heq).symm
  · obtain ⟨row, hrow, heq⟩ := List.mem_map.mp h
    obtain rfl : row.1 = s := congrArg Prod.fst heq
    exact absurd hrow (hs row.2)

theorem map_fst_usable_sublist : ((usable rows).map Prod.fst).Sublist (rows.map Prod.fst) := by
  induction rows with
  | nil => exact List.Sublist.slnil
  | cons row rows ih =>
    rw [usable, List.filterMap_cons]
    split
    · exact ih.cons _
    · next heq =>
      obtain ⟨vol, -, rfl⟩ := Option.map_eq_some_iff.mp heq
      exact ih.cons_cons _

theorem map_fst_weights_sublist :
    ((computeInverseVolatilityWeights rows).map Prod.fst).Sublist (rows.map Prod.fst) := by
  rw [computeInverseVolatilityWeights_eq]
  split
  · rw [List.map_map]
    exact List.Sublist.refl _
  · rw [List.map_map]
    exact map_fst_usable_sublist

end Weights

section Sizes

variable {volatilities : Table String (Option ℚ)} {prices : Table String ℚ} {totalCapital : ℚ}

theorem shareCount_eq (capitalAllocation price : ℚ) : shareCount capitalAllocation price =
    .ok (if 0 < price then ⌊capitalAllocation / price⌋ else 0) := by
  rw [shareCount]
  split
  · next hpos => rw [floorDivide, if_neg hpos.ne']
  · rfl

/-- With a price for each symbol, the sizes are computed without an exception. -/
theorem sizes_eq (hprices : ∀ s ∈ volatilities.keys, (prices.get? s).isSome) :
    sizes volatilities prices totalCapital = .ok (computePositionSizes volatilities.rows
      (fun s ↦ (prices.get? s).getD 0) totalCapital) := by
  rw [sizes, weights_eq]
  apply Lib.mapM_eq_ok
  intro row hrow
  have hkey : row.1 ∈ volatilities.keys :=
    map_fst_weights_sublist.subset (List.mem_map_of_mem hrow)
  obtain ⟨price, hprice⟩ := Option.isSome_iff_exists.mp (hprices row.1 hkey)
  simp only [lookup, hprice, Option.getD_some, shareCount_eq]
  rfl

theorem mem_computePositionSizes {rows : List (String × Option ℚ)} {price : String → ℚ}
    {s : String} {r : PositionSizeResult} :
    (s, r) ∈ computePositionSizes rows price totalCapital ↔
      (s, r.weight) ∈ computeInverseVolatilityWeights rows ∧
        r.capitalAllocation = r.weight * totalCapital ∧
        r.shares = if 0 < price s then ⌊r.weight * totalCapital / price s⌋ else 0 := by
  simp only [computePositionSizes, List.mem_map, Prod.exists, Prod.mk.injEq]
  constructor
  · rintro ⟨_, w, hw, rfl, rfl⟩
    exact ⟨hw, rfl, rfl⟩
  · rintro ⟨hw, hallocation, hshares⟩
    refine ⟨s, r.weight, hw, rfl, ?_⟩
    rw [← hshares, ← hallocation]

variable {rows : List (String × Option ℚ)} {price : String → ℚ} {s : String}
  {r : PositionSizeResult}

theorem shares_nonneg (hcapital : 0 ≤ totalCapital)
    (h : (s, r) ∈ computePositionSizes rows price totalCapital) : 0 ≤ r.shares := by
  obtain ⟨hw, -, hshares⟩ := mem_computePositionSizes.mp h
  rw [hshares]
  split
  · next hpos =>
    exact Int.floor_nonneg.mpr (div_nonneg (mul_nonneg (weight_nonneg hw) hcapital) hpos.le)
  · exact le_rfl

/-- A position costs no more than what it was allotted. -/
theorem cost_le (hcapital : 0 ≤ totalCapital)
    (h : (s, r) ∈ computePositionSizes rows price totalCapital) :
    r.shares * price s ≤ r.weight * totalCapital := by
  obtain ⟨hw, -, hshares⟩ := mem_computePositionSizes.mp h
  rw [hshares]
  split
  · next hpos => exact (le_div_iff₀ hpos).mp (Int.floor_le _)
  · simpa using mul_nonneg (weight_nonneg hw) hcapital

theorem map_weight_sizes :
    (computePositionSizes rows price totalCapital).map (fun r ↦ r.2.weight) =
      (computeInverseVolatilityWeights rows).map Prod.snd := by
  simp only [computePositionSizes, List.map_map, Function.comp_def]

theorem sum_cost_le (rows : List (String × Option ℚ)) (price : String → ℚ)
    (hcapital : 0 ≤ totalCapital) :
    ((computePositionSizes rows price totalCapital).map fun r ↦ r.2.shares * price r.1).sum ≤
      totalCapital := by
  calc
    ((computePositionSizes rows price totalCapital).map fun r ↦ r.2.shares * price r.1).sum ≤
        ((computePositionSizes rows price totalCapital).map
          fun r ↦ r.2.weight * totalCapital).sum := List.sum_le_sum fun _ hr ↦ cost_le hcapital hr
    _ = ((computePositionSizes rows price totalCapital).map fun r ↦ r.2.weight).sum *
        totalCapital := List.sum_map_mul_right ..
    _ ≤ totalCapital := by
      rw [map_weight_sizes, sum_weights]
      split
      · simpa using hcapital
      · rw [one_mul]

end Sizes

/-- A symbol has a volatility to size it by. -/
def Usable (volatilities : Table String (Option ℚ)) (s : String) (vol : ℚ) : Prop :=
  volatilities.get? s = some (some vol) ∧ 0 < vol

/-- What sizing owes to the portfolio. -/
structure WithinBudget (volatilities : Table String (Option ℚ)) (prices : Table String ℚ)
    (totalCapital : ℚ) (sizes : List (String × PositionSizeResult)) : Prop where
  symbols : (sizes.map Prod.fst).Sublist volatilities.keys
  nonneg : ∀ r ∈ sizes, 0 ≤ r.2.weight
  sum_one : (∃ s vol, Usable volatilities s vol) → (sizes.map fun r ↦ r.2.weight).sum = 1
  equal_risk : ∃ contribution, ∀ s vol, Usable volatilities s vol →
    ∃ r, (s, r) ∈ sizes ∧ r.weight * vol = contribution
  unusable : ∀ s r, (s, r) ∈ sizes → (¬ ∃ vol, Usable volatilities s vol) → r.shares = 0
  unpriced : ∀ s r price, (s, r) ∈ sizes → prices.get? s = some price → price ≤ 0 → r.shares = 0
  shares_nonneg : ∀ r ∈ sizes, 0 ≤ r.2.shares
  budget : (sizes.map fun r ↦ r.2.shares * (prices.get? r.1).getD 0).sum ≤ totalCapital

theorem mem_usable_iff {volatilities : Table String (Option ℚ)} {s : String} {vol : ℚ} :
    Usable volatilities s vol ↔ (s, vol) ∈ usable volatilities.rows := by
  rw [Usable, Table.get?_eq_some, mem_usable]

/-- Sizing meets no division by zero and spends no more than there is. -/
theorem sizes_within_budget (volatilities : Table String (Option ℚ)) (prices : Table String ℚ)
    (totalCapital : ℚ) (hprices : ∀ s ∈ volatilities.keys, (prices.get? s).isSome)
    (hcapital : 0 ≤ totalCapital) :
    ∃ result, sizes volatilities prices totalCapital = .ok result ∧
      WithinBudget volatilities prices totalCapital result := by
  refine ⟨_, sizes_eq hprices, ?_⟩
  constructor
  case symbols =>
    rw [computePositionSizes, List.map_map]
    exact map_fst_weights_sublist
  case nonneg => exact fun r hr ↦ weight_nonneg (mem_computePositionSizes.mp hr).1
  case sum_one =>
    rintro ⟨s, vol, hs⟩
    rw [map_weight_sizes, sum_weights, if_neg (List.ne_nil_of_mem (mem_usable_iff.mp hs))]
  case equal_risk =>
    refine ⟨1 / total volatilities.rows, fun s vol hs ↦ ?_⟩
    have hmem := mem_weights_of_usable (mem_usable_iff.mp hs)
    exact ⟨_, List.mem_map.mpr ⟨_, hmem, rfl⟩, weight_mul_volatility hs.2⟩
  case unusable =>
    intro s r hr hs
    obtain ⟨hw, -, hshares⟩ := mem_computePositionSizes.mp hr
    have hzero : r.weight = 0 := weight_eq_zero hw fun vol hvol ↦ hs ⟨vol, mem_usable_iff.mpr hvol⟩
    simp [hshares, hzero]
  case unpriced =>
    intro s r price hr hprice hle
    obtain ⟨-, -, hshares⟩ := mem_computePositionSizes.mp hr
    rw [hshares, hprice, Option.getD_some, if_neg hle.not_gt]
  case shares_nonneg => exact fun r hr ↦ shares_nonneg hcapital hr
  case budget => exact sum_cost_le volatilities.rows (fun s ↦ (prices.get? s).getD 0) hcapital

/-- Of three symbols one has a flat series and one a price of zero. -/
def flatAndFree : Table String (Option ℚ) :=
  ⟨[("A", some 0), ("B", some (1 / 50)), ("C", some (1 / 25))], by decide⟩

def flatAndFreePrices : Table String ℚ := ⟨[("A", 10), ("B", 0), ("C", 30)], by decide⟩

theorem flatAndFree_within_budget :
    ∃ result, sizes flatAndFree flatAndFreePrices 1000 = .ok result ∧
      WithinBudget flatAndFree flatAndFreePrices 1000 result ∧
      result.map (fun r ↦ (r.1, r.2.shares)) = [("B", 0), ("C", 11)] := by
  obtain ⟨result, hresult, hwithin⟩ := sizes_within_budget flatAndFree flatAndFreePrices 1000
    (by simp [flatAndFree, flatAndFreePrices, Table.keys, Table.get?]) (by norm_num)
  refine ⟨result, hresult, hwithin, ?_⟩
  have hshares : (sizes flatAndFree flatAndFreePrices 1000).map
      (·.map fun r ↦ (r.1, r.2.shares)) = .ok [("B", 0), ("C", 11)] := by decide +kernel
  rw [hresult] at hshares
  exact Except.ok.inj hshares

end TradingOS.Risk.SizingBudget
