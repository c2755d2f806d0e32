import Mathlib.Algebra.Field.Rat
import Mathlib.Algebra.Order.Field.Basic
import Mathlib.Algebra.Order.Ring.Rat
import TradingOS.Lib.Accumulate
import TradingOS.Lib.Fallible

namespace TradingOS.Optimization

open Lib

/-- The division of arrays; `none` where it gives `nan` or an infinity. -/
def divide (a b : ℚ) : Option ℚ := if b = 0 then none else some (a / b)

def maxDrawdownFromReturns (tradeReturns : List ℚ) : Option ℚ :=
  if tradeReturns.length = 0 then some 0
  else
    let equityCurve := 1 :: accumulate (· * ·) (tradeReturns.map (1 + ·))
    let runningPeak := accumulate max equityCurve
    let drawdowns := (runningPeak.zip equityCurve).mapM fun (peak, equity) ↦
      divide (peak - equity) peak
    drawdowns.bind List.max?

/-- The equity after the first `k` trades. -/
def equityAfter (tradeReturns : List ℚ) (k : ℕ) : ℚ :=
  ((tradeReturns.take k).map (1 + ·)).foldl (· * ·) 1

/-- The greatest fall of an equity curve, relative to any positive equity before it. -/
structure IsMaxDrawdown (equity : ℕ → ℚ) (n : ℕ) (d : ℚ) : Prop where
  attained : ∃ i j, i ≤ j ∧ j ≤ n ∧ 0 < equity i ∧ d = (equity i - equity j) / equity i
  bound : ∀ i j, i ≤ j → j ≤ n → 0 < equity i → (equity i - equity j) / equity i ≤ d

namespace IsMaxDrawdown

variable {equity : ℕ → ℚ} {n : ℕ} {d : ℚ}

theorem nonneg (h : IsMaxDrawdown equity n d) (hstart : 0 < equity 0) : 0 ≤ d := by
  have hnone := h.bound 0 0 le_rfl n.zero_le hstart
  rwa [sub_self, zero_div] at hnone

theorem le_one (h : IsMaxDrawdown equity n d) (hequity : ∀ k, 0 ≤ equity k) : d ≤ 1 := by
  obtain ⟨i, j, -, -, hpos, rfl⟩ := h.attained
  exact div_le_one_of_le₀ (sub_le_self _ (hequity j)) hpos.le

theorem eq_zero_iff (h : IsMaxDrawdown equity n d) (hstart : 0 < equity 0)
    (hequity : ∀ k, 0 ≤ equity k) :
    d = 0 ↔ ∀ i j, i ≤ j → j ≤ n → equity i ≤ equity j := by
  constructor
  · rintro rfl i j hij hj
    rcases (hequity i).eq_or_lt with hzero | hpos
    · exact hzero ▸ hequity j
    · have hfall := h.bound i j hij hj hpos
      have hsub : equity i - equity j ≤ 0 := by
        rwa [div_le_iff₀ hpos, zero_mul] at hfall
      exact sub_nonpos.mp hsub
  · intro hrises
    obtain ⟨i, j, hij, hj, hpos, hd⟩ := h.attained
    refine le_antisymm (hd ▸ ?_) (h.nonneg hstart)
    exact div_nonpos_of_nonpos_of_nonneg (sub_nonpos.mpr (hrises i j hij hj)) hpos.le

end IsMaxDrawdown

variable {tradeReturns : List ℚ}

theorem equityAfter_zero (tradeReturns : List ℚ) : equityAfter tradeReturns 0 = 1 := rfl

theorem equityAfter_nonneg (h : ∀ r ∈ tradeReturns, -1 ≤ r) (k : ℕ) :
    0 ≤ equityAfter tradeReturns k := by
  have hfold : ∀ l : List ℚ, (∀ q ∈ l, 0 ≤ q) → ∀ e : ℚ, 0 ≤ e → 0 ≤ l.foldl (· * ·) e := by
    intro l hl
    induction l with
    | nil => exact fun e he ↦ he
    | cons q l ih =>
      obtain ⟨hq, hl⟩ := List.forall_mem_cons.mp hl
      exact fun e he ↦ ih hl (e * q) (mul_nonneg he hq)
  refine hfold _ (List.forall_mem_map.mpr fun r hr ↦ ?_) 1 zero_le_one
  exact neg_le_iff_add_nonneg'.mp (h r (List.mem_of_mem_take hr))

def equityCurve (tradeReturns : List ℚ) : List ℚ :=
  1 :: accumulate (· * ·) (tradeReturns.map (1 + ·))

theorem getElem?_equityCurve (tradeReturns : List ℚ) (k : ℕ) : (equityCurve tradeReturns)[k]? =
    if k ≤ tradeReturns.length then some (equityAfter tradeReturns k) else none := by
  rw [equityCurve, cons_accumulate one_mul, List.getElem?_scanl, List.length_map, equityAfter,
    List.map_take]

theorem length_equityCurve (tradeReturns : List ℚ) :
    (equityCurve tradeReturns).length = tradeReturns.length + 1 := by
  rw [equityCurve, List.length_cons, length_accumulate, List.length_map]

/-- The peak at a bar is an equity so far, and none before was greater. -/
theorem peak_of_getElem? {p : ℚ} {j : ℕ}
    (h : (accumulate max (equityCurve tradeReturns))[j]? = some p) :
    (∃ i ≤ j, p = equityAfter tradeReturns i) ∧ ∀ i ≤ j, equityAfter tradeReturns i ≤ p := by
  have hj : j ≤ tradeReturns.length := by
    obtain ⟨hlt, -⟩ := List.getElem?_eq_some_iff.mp h
    rw [length_accumulate, length_equityCurve] at hlt
    exact Nat.lt_succ_iff.mp hlt
  obtain ⟨⟨i, hi, hget⟩, hupper⟩ := accumulate_max h
  rw [getElem?_equityCurve, if_pos (hi.trans hj)] at hget
  refine ⟨⟨i, hi, (Option.some.inj hget).symm⟩, fun i hi ↦ hupper i hi _ ?_⟩
  rw [getElem?_equityCurve, if_pos (hi.trans hj)]

/-- The start is no loss, so nothing is divided by zero. -/
theorem peak_pos {p : ℚ} {j : ℕ}
    (h : (accumulate max (equityCurve tradeReturns))[j]? = some p) : 0 < p := by
  have hone : equityAfter tradeReturns 0 ≤ p := (peak_of_getElem? h).2 0 j.zero_le
  rw [equityAfter_zero] at hone
  exact zero_lt_one.trans_le hone

/-- What the function computes on no trades is what the empty result stands for. -/
theorem maxDrawdownFromReturns_eq (tradeReturns : List ℚ) : maxDrawdownFromReturns tradeReturns =
    (((accumulate max (equityCurve tradeReturns)).zip (equityCurve tradeReturns)).mapM
      fun (peak, equity) ↦ divide (peak - equity) peak).bind List.max? := by
  cases tradeReturns with
  | nil =>
    have hcurve : equityCurve [] = [1] := rfl
    have hpeak : accumulate max [(1 : ℚ)] = [1] := by simp [accumulate]
    rw [hcurve, hpeak]
    simp [maxDrawdownFromReturns, divide]
  | cons r rest => rfl

theorem mem_zip_peak {p e : ℚ}
    (h : (p, e) ∈ (accumulate max (equityCurve tradeReturns)).zip (equityCurve tradeReturns)) :
    ∃ j ≤ tradeReturns.length, (accumulate max (equityCurve tradeReturns))[j]? = some p ∧
      e = equityAfter tradeReturns j := by
  obtain ⟨j, hj⟩ := List.mem_iff_getElem?.mp h
  obtain ⟨hp, he⟩ := List.getElem?_zip_eq_some.mp hj
  rw [getElem?_equityCurve] at he
  split at he
  · exact ⟨j, by assumption, hp, (Option.some.inj he).symm⟩
  · cases he

theorem maxDrawdown_isMaxDrawdown (h : ∀ r ∈ tradeReturns, -1 ≤ r) :
    ∃ d, maxDrawdownFromReturns tradeReturns = some d ∧
      IsMaxDrawdown (equityAfter tradeReturns) tradeReturns.length d := by
  have hmap : ((accumulate max (equityCurve tradeReturns)).zip (equityCurve tradeReturns)).mapM
      (fun (peak, equity) ↦ divide (peak - equity) peak) =
      some (((accumulate max (equityCurve tradeReturns)).zip (equityCurve tradeReturns)).map
        fun (peak, equity) ↦ (peak - equity) / peak) := by
    refine mapM_eq_some ?_
    rintro ⟨p, e⟩ hmem
    obtain ⟨j, -, hp, -⟩ := mem_zip_peak hmem
    exact if_neg (peak_pos hp).ne'
  have hat : ∀ j ≤ tradeReturns.length,
      ∃ p, (accumulate max (equityCurve tradeReturns))[j]? = some p ∧
        (p, equityAfter tradeReturns j) ∈
          (accumulate max (equityCurve tradeReturns)).zip (equityCurve tradeReturns) := by
    intro j hj
    have hlt : j < (accumulate max (equityCurve tradeReturns)).length := by
      rw [length_accumulate, length_equityCurve]
      exact Nat.lt_succ_of_le hj
    have hget := List.getElem?_eq_getElem hlt
    refine ⟨_, hget, List.mem_iff_getElem?.mpr ⟨j, List.getElem?_zip_eq_some.mpr ⟨hget, ?_⟩⟩⟩
    rw [getElem?_equityCurve, if_pos hj]
  rw [maxDrawdownFromReturns_eq, hmap, Option.bind_some]
  obtain ⟨p₀, -, hmem₀⟩ := hat 0 (Nat.zero_le _)
  obtain ⟨d, hd⟩ := Option.isSome_iff_exists.mp
    (List.isSome_max?_of_ne_nil (List.ne_nil_of_mem
      (List.mem_map_of_mem (f := fun (peak, equity) ↦ (peak - equity) / peak) hmem₀)))
  obtain ⟨hattained, hupper⟩ := max?_eq_some.mp hd
  refine ⟨d, hd, ?_, ?_⟩
  · obtain ⟨⟨p, e⟩, hmem, rfl⟩ := List.mem_map.mp hattained
    obtain ⟨j, hj, hp, rfl⟩ := mem_zip_peak hmem
    obtain ⟨i, hi, rfl⟩ := (peak_of_getElem? hp).1
    exact ⟨i, j, hi, hj, peak_pos hp, rfl⟩
  · intro i j hij hj hpos
    obtain ⟨p, hp, hmem⟩ := hat j hj
    have hle := (peak_of_getElem? hp).2 i hij
    have hdown := div_le_div_of_nonneg_left (equityAfter_nonneg h j) hpos hle
    calc (equityAfter tradeReturns i - equityAfter tradeReturns j) / equityAfter tradeReturns i
        = 1 - equityAfter tradeReturns j / equityAfter tradeReturns i := by
          rw [sub_div, div_self hpos.ne']
      _ ≤ 1 - equityAfter tradeReturns j / p := sub_le_sub_left hdown 1
      _ = (p - equityAfter tradeReturns j) / p := by rw [sub_div, div_self (peak_pos hp).ne']
      _ ≤ d := hupper _ (List.mem_map_of_mem hmem)

theorem maxDrawdown_eq_definition (tradeReturns : List ℚ) (h : ∀ r ∈ tradeReturns, -1 ≤ r) :
    ∃ d, maxDrawdownFromReturns tradeReturns = some d ∧
      IsMaxDrawdown (equityAfter tradeReturns) tradeReturns.length d ∧ 0 ≤ d ∧ d ≤ 1 ∧
      (d = 0 ↔ ∀ i j, i ≤ j → j ≤ tradeReturns.length →
        ¬ equityAfter tradeReturns j < equityAfter tradeReturns i) := by
  obtain ⟨d, hd, hmax⟩ := maxDrawdown_isMaxDrawdown h
  have hstart : 0 < equityAfter tradeReturns 0 := zero_lt_one
  have hequity := equityAfter_nonneg h
  refine ⟨d, hd, hmax, hmax.nonneg hstart, hmax.le_one hequity, ?_⟩
  simp only [not_lt]
  exact hmax.eq_zero_iff hstart hequity

/-- A gain, a total loss, and a trade on nothing. -/
theorem maxDrawdown_eq_definition_total_loss :
    ∃ d, maxDrawdownFromReturns [1, -1, 1 / 2] = some d ∧
      IsMaxDrawdown (equityAfter [1, -1, 1 / 2]) 3 d ∧ 0 ≤ d ∧ d ≤ 1 ∧
      (d = 0 ↔ ∀ i j, i ≤ j → j ≤ 3 →
        ¬ equityAfter [1, -1, 1 / 2] j < equityAfter [1, -1, 1 / 2] i) :=
  maxDrawdown_eq_definition [1, -1, 1 / 2] (by decide +kernel)

end TradingOS.Optimization
