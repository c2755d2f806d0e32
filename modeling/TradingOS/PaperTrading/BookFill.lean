import TradingOS.Lib.SortedSums
import TradingOS.PaperTrading.SlippageModel

namespace TradingOS.PaperTrading

open Lib

/-- The book unit by unit, in the order of the walk. -/
def unitPrices (depth : List DepthLevel) : List ℚ :=
  (depth.filter DepthLevel.isUsable).flatMap fun level ↦
    List.replicate level.quantity.toNat level.price

theorem unitPrices_cons (level : DepthLevel) (depth : List DepthLevel) :
    unitPrices (level :: depth) =
      (if level.isUsable then List.replicate level.quantity.toNat level.price else []) ++
        unitPrices depth := by
  unfold unitPrices
  rw [List.filter_cons]
  split
  · rw [List.flatMap_cons]
  · rw [List.nil_append]

theorem length_unitPrices (depth : List DepthLevel) :
    ((unitPrices depth).length : ℤ) = usableDepth depth := by
  induction depth with
  | nil => rfl
  | cons level depth ih =>
    rw [unitPrices_cons, usableDepth_cons, List.length_append, Nat.cast_add, ih]
    split
    · next husable =>
      rw [List.length_replicate, Int.toNat_of_nonneg (DepthLevel.quantity_pos husable).le]
    · rfl

theorem DepthLevel.price_pos {level : DepthLevel} (h : level.isUsable) : 0 < level.price := by
  have husable : 0 < level.quantity ∧ 0 < level.price := by simpa [isUsable] using h
  exact husable.2

theorem pos_of_mem_unitPrices {depth : List DepthLevel} {p : ℚ} (h : p ∈ unitPrices depth) :
    0 < p := by
  obtain ⟨level, hlevel, hp⟩ := List.mem_flatMap.mp h
  rw [List.eq_of_mem_replicate hp]
  exact DepthLevel.price_pos (List.mem_filter.mp hlevel).2

namespace BookWalk

/-- What the walk has paid is the price of the first units of the book. -/
theorem totalCost_walk (w : BookWalk) (depth : List DepthLevel) (h : 0 ≤ w.remaining) :
    (w.walk depth).totalCost =
      w.totalCost + ((unitPrices depth).take w.remaining.toNat).sum := by
  induction depth generalizing w with
  | nil => simp [walk, unitPrices]
  | cons level depth ih =>
    rw [walk, unitPrices_cons]
    split
    · next hdone =>
      have hzero : w.remaining.toNat = 0 := by omega
      rw [hzero, List.take_zero, List.sum_nil, add_zero]
    · split
      · next husable =>
        have hpos := DepthLevel.quantity_pos husable
        have hrest : 0 ≤ (w.consume level).remaining := by
          simp only [consume]
          omega
        have hleft : (w.consume level).remaining.toNat =
            w.remaining.toNat - level.quantity.toNat := by
          simp only [consume]
          omega
        have htake : (min w.remaining level.quantity : ℤ) =
            ((min w.remaining.toNat level.quantity.toNat : ℕ) : ℤ) := by omega
        rw [ih _ hrest, hleft, List.take_append, List.take_replicate, List.length_replicate,
          List.sum_append, List.sum_replicate, nsmul_eq_mul, ← add_assoc]
        simp only [consume, htake, Int.cast_natCast]
      · rw [ih w h, List.nil_append]

theorem touchPrice_walk_of_some {w : BookWalk} {touch : ℚ} (h : w.touchPrice = some touch)
    (depth : List DepthLevel) : (w.walk depth).touchPrice = some touch := by
  induction depth generalizing w with
  | nil => exact h
  | cons level depth ih =>
    rw [walk]
    split
    · exact h
    · split
      · refine ih ?_
        simp only [consume, h, Option.getD_some]
      · exact ih h

/-- The touch price is the price of the first unit. -/
theorem touchPrice_walk_of_none {w : BookWalk} (h : w.touchPrice = none) (hw : 0 < w.remaining)
    (depth : List DepthLevel) : (w.walk depth).touchPrice = (unitPrices depth).head? := by
  induction depth with
  | nil => exact h
  | cons level depth ih =>
    rw [walk, if_neg (not_le.mpr hw), unitPrices_cons]
    split
    · next husable =>
      have hpos := DepthLevel.quantity_pos husable
      obtain ⟨n, hn⟩ : ∃ n, level.quantity.toNat = n + 1 := ⟨level.quantity.toNat - 1, by omega⟩
      rw [hn, List.replicate_succ, List.cons_append, List.head?_cons]
      refine touchPrice_walk_of_some ?_ depth
      simp only [consume, h, Option.getD_none]
    · exact ih

end BookWalk

/-- The division of the language fails on zero. -/
def trueDiv (a b : ℚ) : Except String ℚ :=
  if b = 0 then .error "float division by zero" else .ok (a / b)

theorem trueDiv_eq_ok {a b : ℚ} (h : b ≠ 0) : trueDiv a b = .ok (a / b) := if_neg h

def Side.impact (side : Side) (touchPrice averageFillPrice : ℚ) : ℚ :=
  match side with
  | .buy => averageFillPrice - touchPrice
  | .sell => touchPrice - averageFillPrice

/-- `simulateFill` with its divisions as the language has them. -/
def simulateFillRaising (side : Side) (quantity : ℤ) (depth : List DepthLevel) :
    Except String FillResult :=
  if quantity ≤ 0 then .error s!"quantity must be positive, got {quantity}"
  else
    let w := BookWalk.walk ⟨none, quantity, 0, 0⟩ depth
    match w.touchPrice with
    | none => .ok .unfilled
    | some touchPrice =>
      if w.filled = 0 then .ok .unfilled
      else do
        let averageFillPrice ← trueDiv w.totalCost w.filled
        let impact ← trueDiv (side.impact touchPrice averageFillPrice) touchPrice
        return {
          filledQuantity := w.filled
          averageFillPrice := some averageFillPrice
          slippageBps := some (max (impact * 10000) 0)
          fullyFilled := w.filled = quantity }

/-- What a quantity comes to that is taken from the front of a list of units. -/
def FillResult.ofUnits (side : Side) (quantity : ℤ) (prices : List ℚ) : FillResult :=
  match prices.head? with
  | none => .unfilled
  | some touchPrice =>
    let consumed := prices.take quantity.toNat
    { filledQuantity := consumed.length
      averageFillPrice := some (mean consumed)
      slippageBps := some (max (side.impact touchPrice (mean consumed) / touchPrice * 10000) 0)
      fullyFilled := (consumed.length : ℤ) = quantity }

section Walk

variable {side : Side} {quantity : ℤ} {depth : List DepthLevel}

theorem filled_walk_eq_length (hquantity : 0 < quantity) :
    (BookWalk.walk ⟨none, quantity, 0, 0⟩ depth).filled =
      ((unitPrices depth).take quantity.toNat).length := by
  have hfilled := BookWalk.filled_walk ⟨none, quantity, 0, 0⟩ depth hquantity.le
  have hlength := length_unitPrices depth
  rw [hfilled, List.length_take]
  simp only
  omega

theorem totalCost_walk_eq_sum (hquantity : 0 < quantity) :
    (BookWalk.walk ⟨none, quantity, 0, 0⟩ depth).totalCost =
      ((unitPrices depth).take quantity.toNat).sum := by
  rw [BookWalk.totalCost_walk _ _ hquantity.le, zero_add]

theorem take_ne_nil (hquantity : 0 < quantity) {touch : ℚ}
    (h : (unitPrices depth).head? = some touch) : (unitPrices depth).take quantity.toNat ≠ [] := by
  have hne : unitPrices depth ≠ [] := by
    intro hnil
    rw [hnil] at h
    cases h
  have hpos : quantity.toNat ≠ 0 := by omega
  rw [Ne, List.take_eq_nil_iff, not_or]
  exact ⟨hpos, hne⟩

theorem filled_walk_ne_zero (hquantity : 0 < quantity) {touch : ℚ}
    (h : (unitPrices depth).head? = some touch) :
    (BookWalk.walk ⟨none, quantity, 0, 0⟩ depth).filled ≠ 0 := by
  have hlength := List.length_pos_iff.mpr (take_ne_nil hquantity h)
  rw [filled_walk_eq_length hquantity]
  omega

/-- The walk takes its units from the front of the book. -/
theorem simulateFill_eq (hquantity : 0 < quantity) :
    simulateFill side quantity depth = .ok (.ofUnits side quantity (unitPrices depth)) := by
  have htouch := BookWalk.touchPrice_walk_of_none (w := ⟨none, quantity, 0, 0⟩) rfl hquantity depth
  unfold simulateFill FillResult.ofUnits
  rw [if_neg (not_le.mpr hquantity)]
  dsimp only
  rw [htouch]
  cases hhead : (unitPrices depth).head? with
  | none => rfl
  | some touch =>
    dsimp only
    rw [if_neg (filled_walk_ne_zero hquantity hhead), filled_walk_eq_length hquantity,
      totalCost_walk_eq_sum hquantity, Int.cast_natCast]
    cases side <;> rfl

/-- No division of the walk is by zero. -/
theorem simulateFillRaising_eq :
    simulateFillRaising side quantity depth = simulateFill side quantity depth := by
  unfold simulateFillRaising simulateFill
  split
  · rfl
  · next hquantity =>
    have hquantity := not_le.mp hquantity
    have htouch :=
      BookWalk.touchPrice_walk_of_none (w := ⟨none, quantity, 0, 0⟩) rfl hquantity depth
    dsimp only
    rw [htouch]
    cases hhead : (unitPrices depth).head? with
    | none => rfl
    | some touch =>
      have hfilled : ((BookWalk.walk ⟨none, quantity, 0, 0⟩ depth).filled : ℚ) ≠ 0 :=
        Int.cast_ne_zero.mpr (filled_walk_ne_zero hquantity hhead)
      have hpos : touch ≠ 0 := (pos_of_mem_unitPrices (List.mem_of_head? hhead)).ne'
      dsimp only
      rw [if_neg (filled_walk_ne_zero hquantity hhead), if_neg (filled_walk_ne_zero hquantity hhead)]
      simp only [trueDiv_eq_ok hfilled, trueDiv_eq_ok hpos]
      cases side <;> rfl

end Walk

/-- What the taker of a side would rather pay, or receive. -/
def Side.noWorse (side : Side) (a b : ℚ) : Prop :=
  match side with
  | .buy => a ≤ b
  | .sell => b ≤ a

namespace Side

def sign : Side → ℚ
  | .buy => 1
  | .sell => -1

variable {side : Side} {a b : ℚ}

theorem noWorse_iff : side.noWorse a b ↔ side.sign * a ≤ side.sign * b := by
  cases side <;> simp [noWorse, sign]

instance : DecidableRel side.noWorse := fun _ _ ↦ decidable_of_iff _ noWorse_iff.symm

theorem impact_nonneg (h : side.noWorse a b) : 0 ≤ side.impact a b := by
  cases side
  · exact sub_nonneg.mpr h
  · exact sub_nonneg.mpr h

theorem pairwise_sign_mul {prices : List ℚ} (h : prices.Pairwise side.noWorse) :
    (prices.map (side.sign * ·)).Pairwise (· ≤ ·) :=
  List.pairwise_map.mpr (h.imp noWorse_iff.mp)

theorem noWorse_sum_take {prices other : List ℚ} (h : prices.Pairwise side.noWorse)
    (hother : other.Subperm prices) : side.noWorse (prices.take other.length).sum other.sum := by
  obtain ⟨taken, hperm, hsub⟩ := hother
  have hmap : (other.map (side.sign * ·)).Subperm (prices.map (side.sign * ·)) :=
    ⟨taken.map _, hperm.map _, hsub.map _⟩
  have hle := sum_take_le_of_subperm (pairwise_sign_mul h) hmap
  rw [List.length_map, ← List.map_take, List.sum_map_mul_left, List.sum_map_mul_left, List.map_id',
    List.map_id'] at hle
  exact noWorse_iff.mpr hle

theorem noWorse_mean_take {prices : List ℚ} (h : prices.Pairwise side.noWorse) {j k : ℕ}
    (hj : 0 < j) (hjk : j ≤ k) (hne : prices ≠ []) :
    side.noWorse (mean (prices.take j)) (mean (prices.take k)) := by
  have hle := mean_take_mono (pairwise_sign_mul h) hj hjk (by simpa using hne)
  rw [← List.map_take, ← List.map_take, mean_map_mul, mean_map_mul] at hle
  exact noWorse_iff.mpr hle

end Side

/-- The levels that the walk consumes, best first. -/
def BestFirst (side : Side) (depth : List DepthLevel) : Prop :=
  ((depth.filter DepthLevel.isUsable).map DepthLevel.price).Pairwise side.noWorse

theorem BestFirst.pairwise_unitPrices {side : Side} {depth : List DepthLevel}
    (h : BestFirst side depth) : (unitPrices depth).Pairwise side.noWorse := by
  rw [BestFirst, List.pairwise_map] at h
  refine List.pairwise_flatMap.mpr ⟨fun level _ ↦ ?_, h.imp ?_⟩
  · exact List.pairwise_replicate.mpr (.inr (Side.noWorse_iff.mpr le_rfl))
  · intro level level' hle p hp p' hp'
    rw [List.eq_of_mem_replicate hp, List.eq_of_mem_replicate hp']
    exact hle

namespace FillResult

variable {side : Side} {quantity : ℤ} {prices : List ℚ}

theorem filledQuantity_ofUnits :
    (ofUnits side quantity prices).filledQuantity = (prices.take quantity.toNat).length := by
  cases prices with
  | nil => simp [ofUnits, unfilled]
  | cons _ _ => rfl

theorem averageFillPrice_ofUnits : (ofUnits side quantity prices).averageFillPrice =
    prices.head?.map fun _ ↦ mean (prices.take quantity.toNat) := by
  cases prices with
  | nil => rfl
  | cons _ _ => rfl

theorem averageFillPrice_ofUnits_eq_some {average : ℚ}
    (h : (ofUnits side quantity prices).averageFillPrice = some average) :
    prices ≠ [] ∧ average = mean (prices.take quantity.toNat) := by
  cases prices with
  | nil => cases h
  | cons price prices => exact ⟨List.cons_ne_nil _ _, (Option.some.inj h).symm⟩

/-- On a book sorted best first the clamp of the slippage never acts. -/
theorem slippageBps_ofUnits (hquantity : 0 < quantity) (hpos : ∀ p ∈ prices, 0 < p)
    (hsorted : prices.Pairwise side.noWorse) {average : ℚ}
    (h : (ofUnits side quantity prices).averageFillPrice = some average) :
    ∃ touch, prices.head? = some touch ∧ 0 < touch ∧ 0 ≤ side.impact touch average ∧
      (ofUnits side quantity prices).slippageBps =
        some (side.impact touch average / touch * 10000) := by
  obtain ⟨hne, rfl⟩ := averageFillPrice_ofUnits_eq_some h
  cases prices with
  | nil => exact absurd rfl hne
  | cons touch prices =>
    have htouch : 0 < touch := hpos touch List.mem_cons_self
    have hone : mean ((touch :: prices).take 1) = touch := by simp [mean]
    have hworse := Side.noWorse_mean_take hsorted one_pos (k := quantity.toNat) (by omega) hne
    rw [hone] at hworse
    have himpact := Side.impact_nonneg hworse
    refine ⟨touch, rfl, htouch, himpact, ?_⟩
    have hclamp : 0 ≤ side.impact touch (mean ((touch :: prices).take quantity.toNat)) / touch *
        10000 := by positivity
    simp only [ofUnits, List.head?_cons, max_eq_left hclamp]

theorem noWorse_averageFillPrice (hquantity : 0 < quantity)
    (hsorted : prices.Pairwise side.noWorse) {larger : ℤ} (hle : quantity ≤ larger) :
    Option.Rel side.noWorse (ofUnits side quantity prices).averageFillPrice
      (ofUnits side larger prices).averageFillPrice := by
  rw [averageFillPrice_ofUnits, averageFillPrice_ofUnits]
  cases prices with
  | nil => exact .none
  | cons price prices =>
    exact .some (Side.noWorse_mean_take hsorted (by omega) (by omega) (List.cons_ne_nil _ _))

end FillResult

/-- The walk takes the first units of the book and prices them right; from a book sorted best
first no other units are better, and more units are no better on average. -/
theorem simulateFill_walks_book (side : Side) (quantity : ℤ) (hquantity : 0 < quantity)
    (depth : List DepthLevel) :
    let filled := min quantity (usableDepth depth)
    let consumed := (unitPrices depth).take quantity.toNat
    simulateFillRaising side quantity depth = simulateFill side quantity depth ∧
      ∃ result, simulateFill side quantity depth = .ok result ∧
        result.filledQuantity = filled ∧ (consumed.length : ℤ) = filled ∧
        (BookWalk.walk ⟨none, quantity, 0, 0⟩ depth).totalCost = consumed.sum ∧
        (result.averageFillPrice.isSome ↔ filled ≠ 0) ∧
        (∀ average, result.averageFillPrice = some average →
          average * filled = consumed.sum ∧
            consumed.minimum ≤ (average : WithTop ℚ) ∧ (average : WithBot ℚ) ≤ consumed.maximum) ∧
        (BestFirst side depth →
          (∀ other : List ℚ, other.Subperm (unitPrices depth) → other.length = consumed.length →
            side.noWorse consumed.sum other.sum) ∧
          (∀ larger result', quantity ≤ larger → simulateFill side larger depth = .ok result' →
            Option.Rel side.noWorse result.averageFillPrice result'.averageFillPrice) ∧
          (∀ average, result.averageFillPrice = some average →
            ∃ touch, (unitPrices depth).head? = some touch ∧ 0 < touch ∧
              0 ≤ side.impact touch average ∧
              result.slippageBps = some (side.impact touch average / touch * 10000))) := by
  intro filled consumed
  have hlength : (consumed.length : ℤ) = filled := by
    have hall := length_unitPrices depth
    simp only [consumed, filled, List.length_take]
    omega
  have hfilled : (consumed.length : ℚ) = filled := by exact_mod_cast hlength
  have hempty : consumed = [] ↔ unitPrices depth = [] :=
    List.take_eq_nil_iff.trans (or_iff_right (by omega))
  refine ⟨simulateFillRaising_eq, _, simulateFill_eq hquantity, ?_, hlength,
    totalCost_walk_eq_sum hquantity, ?_, ?_, ?_⟩
  · rw [FillResult.filledQuantity_ofUnits, hlength]
  · have hzero : filled = 0 ↔ unitPrices depth = [] := by
      rw [← hlength, Int.natCast_eq_zero, List.length_eq_zero_iff, hempty]
    rw [FillResult.averageFillPrice_ofUnits, Option.isSome_map, List.isSome_head?]
    exact hzero.not.symm
  · intro average haverage
    obtain ⟨hne, rfl⟩ := FillResult.averageFillPrice_ofUnits_eq_some haverage
    have hconsumed := hempty.not.mpr hne
    have hnat : (consumed.length : ℚ) ≠ 0 := by simpa using hconsumed
    refine ⟨?_, minimum_le_mean hconsumed, mean_le_maximum hconsumed⟩
    rw [← hfilled]
    exact div_mul_cancel₀ _ hnat
  · intro hbest
    have hsorted := hbest.pairwise_unitPrices
    refine ⟨?_, ?_, ?_⟩
    · intro other hother hcount
      have htake : (unitPrices depth).take other.length = consumed := by
        rw [hcount, List.length_take, ← List.take_eq_take_min]
      rw [← htake]
      exact Side.noWorse_sum_take hsorted hother
    · intro larger result' hle hresult'
      rw [simulateFill_eq (hquantity.trans_le hle)] at hresult'
      cases hresult'
      exact FillResult.noWorse_averageFillPrice hquantity hsorted hle
    · intro average haverage
      exact FillResult.slippageBps_ofUnits hquantity (fun p ↦ pos_of_mem_unitPrices) hsorted
        haverage

theorem simulateFill_thin_book :
    0 < (7 : ℤ) ∧ ∃ result,
      simulateFill .buy 7 [⟨0, 0⟩, ⟨100, 5⟩, ⟨103, 4⟩] = .ok result ∧ result.filledQuantity = 7 := by
  refine ⟨by decide, ?_⟩
  obtain ⟨-, result, hresult, hfilled, -⟩ :=
    simulateFill_walks_book .buy 7 (by decide) [⟨0, 0⟩, ⟨100, 5⟩, ⟨103, 4⟩]
  exact ⟨result, hresult, hfilled.trans (by decide)⟩

end TradingOS.PaperTrading
