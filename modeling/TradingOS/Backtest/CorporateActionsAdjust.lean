import Mathlib.Algebra.Field.Rat
import Mathlib.Algebra.Order.Ring.Rat
import Mathlib.Data.List.Perm.Basic
import Mathlib.Data.List.Sort
import Mathlib.Tactic.NormNum

namespace TradingOS.Backtest

inductive ActionType
  | split
  | bonus
  | dividend
  deriving DecidableEq

structure CorporateAction where
  exDate : ℤ
  actionType : ActionType
  ratioNumerator : Option ℚ
  ratioDenominator : Option ℚ
  deriving DecidableEq

/-- A data frame indexed by date: its columns, and for each row the cell of each of them. -/
structure Frame where
  columns : List String
  rows : List (ℤ × (String → ℚ))

def splitBonusTypes : List ActionType := [.split, .bonus]

/-- What an action multiplies prices by, if it is one of the `relevant_actions`. -/
def CorporateAction.factor (a : CorporateAction) : Option ℚ :=
  if a.actionType ∈ splitBonusTypes then
    match a.ratioNumerator, a.ratioDenominator with
    | some numerator, some denominator =>
      if denominator = 0 then none else some (numerator / denominator)
    | _, _ => none
  else none

/-- The relevant actions' dates and factors, the newest first. -/
def relevantActions (actions : List CorporateAction) : List (ℤ × ℚ) :=
  (actions.filterMap fun a ↦ a.factor.map (a.exDate, ·)).mergeSort fun a b ↦ b.1 ≤ a.1

def Frame.priceColumns (df : Frame) : List String :=
  ["open", "high", "low", "close"].filter (· ∈ df.columns)

def scaleBefore (prices : List String) (action : ℤ × ℚ) (row : ℤ × (String → ℚ)) :
    ℤ × (String → ℚ) :=
  if row.1 < action.1 then
    (row.1, fun c ↦ if c ∈ prices then row.2 c * action.2 else row.2 c)
  else row

def adjustOhlcvForCorporateActions (df : Frame) (actions : List CorporateAction) : Frame :=
  if df.rows = [] ∨ df.columns = [] then df
  else
    { df with
      rows := (relevantActions actions).foldl
        (fun rows action ↦ rows.map (scaleBefore df.priceColumns action)) df.rows }

/-- The product of the factors of the actions after a date. -/
def factorAfter (actions : List CorporateAction) (date : ℤ) : ℚ :=
  ((actions.filter (date < ·.exDate)).filterMap CorporateAction.factor).foldr (· * ·) 1

/-- The product law for one row. -/
def productLaw (df : Frame) (actions : List CorporateAction) (row : ℤ × (String → ℚ)) :
    ℤ × (String → ℚ) :=
  (row.1, fun c ↦
    if c ∈ df.priceColumns then row.2 c * factorAfter actions row.1 else row.2 c)

/-- The return from one price to the next, where there is one. -/
def simpleReturn (p q : ℚ) : Option ℚ := if p = 0 then none else some ((q - p) / p)

variable {df : Frame} {actions : List CorporateAction} {row : ℤ × (String → ℚ)}

theorem foldl_map_rows {α β : Type} (f : α → β → β) (l : List α) (rows : List β) :
    l.foldl (fun rows a ↦ rows.map (f a)) rows =
      rows.map fun row ↦ l.foldl (fun row a ↦ f a row) row := by
  induction l generalizing rows with
  | nil => exact (List.map_id rows).symm
  | cons a l ih =>
    rw [List.foldl_cons, ih, List.map_map]
    rfl

/-- Each action multiplies what the ones before have left. -/
theorem foldl_scaleBefore (prices : List String) (l : List (ℤ × ℚ)) (row : ℤ × (String → ℚ)) :
    l.foldl (fun row action ↦ scaleBefore prices action row) row =
      (row.1, fun c ↦ if c ∈ prices
        then row.2 c * ((l.filter (row.1 < ·.1)).map Prod.snd).foldr (· * ·) 1 else row.2 c) := by
  induction l generalizing row with
  | nil =>
    refine Prod.ext rfl (funext fun c ↦ ?_)
    simp
  | cons action l ih =>
    rw [List.foldl_cons, ih]
    by_cases hbefore : row.1 < action.1
    · have hscaled : scaleBefore prices action row =
          (row.1, fun c ↦ if c ∈ prices then row.2 c * action.2 else row.2 c) := if_pos hbefore
      rw [hscaled]
      refine Prod.ext rfl (funext fun c ↦ ?_)
      by_cases hprice : c ∈ prices
      · simp only [hprice, if_true, List.filter_cons, hbefore, decide_true, List.map_cons,
          List.foldr_cons, mul_assoc]
      · simp only [hprice, if_false]
    · have hkept : scaleBefore prices action row = row := if_neg hbefore
      simp only [hkept, List.filter_cons, hbefore, decide_false, Bool.false_eq_true, if_false]

theorem foldr_mul_perm {l l' : List ℚ} (h : l.Perm l') :
    l.foldr (· * ·) 1 = l'.foldr (· * ·) 1 :=
  h.foldr_eq 1

theorem factors_filterMap (actions : List CorporateAction) (date : ℤ) :
    ((actions.filterMap fun a ↦ a.factor.map (a.exDate, ·)).filter (date < ·.1)).map Prod.snd =
      (actions.filter (date < ·.exDate)).filterMap CorporateAction.factor := by
  induction actions with
  | nil => rfl
  | cons a actions ih =>
    cases hfactor : a.factor with
    | none =>
      by_cases hafter : date < a.exDate
      · simp [hfactor, hafter, ih]
      · simp [hfactor, hafter, ih]
    | some factor =>
      by_cases hafter : date < a.exDate
      · simp [hfactor, hafter, ih]
      · simp [hfactor, hafter, ih]

/-- The order in which the actions are applied does not matter. -/
theorem relevantActions_product (actions : List CorporateAction) (date : ℤ) :
    (((relevantActions actions).filter (date < ·.1)).map Prod.snd).foldr (· * ·) 1 =
      factorAfter actions date := by
  rw [factorAfter, ← factors_filterMap]
  exact foldr_mul_perm (((List.mergeSort_perm _ _).filter _).map _)

theorem adjust_eq (df : Frame) (actions : List CorporateAction) :
    adjustOhlcvForCorporateActions df actions =
      { df with rows := df.rows.map (productLaw df actions) } := by
  by_cases hempty : df.rows = [] ∨ df.columns = []
  · have hkept : df.rows.map (productLaw df actions) = df.rows := by
      rcases hempty with hrows | hcolumns
      · rw [hrows, List.map_nil]
      · have hprices : df.priceColumns = [] := by simp [Frame.priceColumns, hcolumns]
        refine (List.map_congr_left fun row _ ↦ ?_).trans (List.map_id df.rows)
        simp [productLaw, hprices]
    rw [adjustOhlcvForCorporateActions, if_pos hempty, hkept]
  · rw [adjustOhlcvForCorporateActions, if_neg hempty, foldl_map_rows]
    simp only [foldl_scaleBefore, relevantActions_product]
    rfl

theorem factorAfter_perm {actions' : List CorporateAction} (h : actions'.Perm actions) (date : ℤ) :
    factorAfter actions' date = factorAfter actions date :=
  foldr_mul_perm ((h.filter _).filterMap _)

theorem factorAfter_of_le {date : ℤ} (h : ∀ a ∈ actions, a.factor ≠ none → a.exDate ≤ date) :
    factorAfter actions date = 1 := by
  have hnone : (actions.filter (date < ·.exDate)).filterMap CorporateAction.factor = [] := by
    refine List.filterMap_eq_nil_iff.mpr fun a ha ↦ ?_
    obtain ⟨hmem, hafter⟩ := List.mem_filter.mp ha
    by_contra hfactor
    exact not_lt.mpr (h a hmem hfactor) (of_decide_eq_true hafter)
  rw [factorAfter, hnone]
  rfl

/-- Nothing changes between two dates that no relevant action falls between. -/
theorem factorAfter_congr {date later : ℤ} (hle : date ≤ later)
    (h : ∀ a ∈ actions, a.factor ≠ none → ¬ (date < a.exDate ∧ a.exDate ≤ later)) :
    factorAfter actions date = factorAfter actions later := by
  have hsame : (actions.filter (date < ·.exDate)).filterMap CorporateAction.factor =
      (actions.filter (later < ·.exDate)).filterMap CorporateAction.factor := by
    rw [List.filterMap_filter, List.filterMap_filter]
    refine List.filterMap_congr fun a ha ↦ ?_
    by_cases hfactor : a.factor = none
    · simp [hfactor]
    · have hiff : date < a.exDate ↔ later < a.exDate :=
        ⟨fun hafter ↦ not_le.mp fun hnot ↦ h a ha hfactor ⟨hafter, hnot⟩, fun hafter ↦ hle.trans_lt hafter⟩
      simp [hiff]
  rw [factorAfter, factorAfter, hsame]

theorem foldr_mul_ne_zero {l : List ℚ} (h : ∀ q ∈ l, q ≠ 0) : l.foldr (· * ·) 1 ≠ 0 := by
  induction l with
  | nil => exact one_ne_zero
  | cons q l ih =>
    obtain ⟨hq, hl⟩ := List.forall_mem_cons.mp h
    exact mul_ne_zero hq (ih hl)

theorem factorAfter_ne_zero {date : ℤ}
    (h : ∀ a ∈ actions, date < a.exDate → a.factor ≠ some 0) : factorAfter actions date ≠ 0 := by
  refine foldr_mul_ne_zero fun q hq ↦ ?_
  obtain ⟨a, ha, hfactor⟩ := List.mem_filterMap.mp hq
  obtain ⟨hmem, hafter⟩ := List.mem_filter.mp ha
  rintro rfl
  exact h a hmem (of_decide_eq_true hafter) hfactor

theorem simpleReturn_mul {k : ℚ} (hk : k ≠ 0) (p q : ℚ) :
    simpleReturn (p * k) (q * k) = simpleReturn p q := by
  unfold simpleReturn
  by_cases hp : p = 0
  · rw [if_pos hp, if_pos (mul_eq_zero.mpr (.inl hp))]
  · rw [if_neg hp, if_neg (mul_ne_zero hp hk), ← sub_mul, mul_div_mul_right _ _ hk]

theorem productLaw_of_le (h : ∀ a ∈ actions, a.factor ≠ none → a.exDate ≤ row.1) :
    productLaw df actions row = row := by
  refine Prod.ext rfl (funext fun c ↦ ?_)
  simp only [productLaw, factorAfter_of_le h, mul_one, ite_self]

theorem adjustment_product_law (df : Frame) (actions : List CorporateAction) :
    adjustOhlcvForCorporateActions df actions =
        { df with rows := df.rows.map (productLaw df actions) } ∧
      (∀ actions', actions'.Perm actions →
        adjustOhlcvForCorporateActions df actions' = adjustOhlcvForCorporateActions df actions) ∧
      (∀ row, (∀ a ∈ actions, a.factor ≠ none → a.exDate ≤ row.1) →
        productLaw df actions row = row) ∧
      ∀ row later c, row.1 ≤ later.1 →
        (∀ a ∈ actions, a.factor ≠ none → ¬ (row.1 < a.exDate ∧ a.exDate ≤ later.1)) →
        (∀ a ∈ actions, later.1 < a.exDate → a.factor ≠ some 0) →
        simpleReturn ((productLaw df actions row).2 c) ((productLaw df actions later).2 c) =
          simpleReturn (row.2 c) (later.2 c) := by
  refine ⟨adjust_eq df actions, fun actions' hperm ↦ ?_, fun row ↦ productLaw_of_le, ?_⟩
  · have hlaw : productLaw df actions' = productLaw df actions := by
      refine funext fun row ↦ Prod.ext rfl (funext fun c ↦ ?_)
      simp only [productLaw, factorAfter_perm hperm]
    rw [adjust_eq, adjust_eq, hlaw]
  · intro row later c hle hbetween hzero
    by_cases hprice : c ∈ df.priceColumns
    · simp only [productLaw, hprice, if_true, factorAfter_congr hle hbetween]
      exact simpleReturn_mul (factorAfter_ne_zero hzero) _ _
    · simp only [productLaw, hprice, if_false]

/-- An action with no old shares takes every earlier price to 0, and the return with it. -/
theorem return_lost_by_zero_ratio : ∃ df actions row later,
    df.rows = [row, later] ∧ row.1 ≤ later.1 ∧
      (∀ a ∈ actions, ¬ (row.1 < a.exDate ∧ a.exDate ≤ later.1)) ∧
      simpleReturn (row.2 "close") (later.2 "close") = some (1 / 10) ∧
      ∃ row' later', (adjustOhlcvForCorporateActions df actions).rows = [row', later'] ∧
        simpleReturn (row'.2 "close") (later'.2 "close") = none := by
  refine ⟨⟨["close"], [(0, fun _ ↦ 100), (1, fun _ ↦ 110)]⟩, [⟨2, .split, some 0, some 1⟩], _, _,
    rfl, by decide, by decide, ?_, ?_⟩
  · norm_num [simpleReturn]
  · rw [adjust_eq]
    exact ⟨_, _, rfl, if_pos (by decide +kernel)⟩

end TradingOS.Backtest
