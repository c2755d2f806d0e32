import Mathlib.Algebra.BigOperators.Group.Finset.Basic
import Mathlib.Algebra.BigOperators.Group.Finset.Piecewise
import Mathlib.Algebra.Order.BigOperators.Group.Finset
import Mathlib.Algebra.Order.BigOperators.Group.List
import Mathlib.Data.Rat.Floor
import Mathlib.Tactic.Linarith
import TradingOS.Lib.JsonLoads
import TradingOS.PaperTrading.AccountEquity

namespace TradingOS.Lib

/-- The sum over a table, as a sum over any set that has its keys. -/
theorem Table.total_eq_sum {κ ρ M : Type*} [DecidableEq κ] [AddCommGroup M] (T : Table κ ρ)
    {w : κ → ρ → M} {f : κ → M} {S : Finset κ} (hkeys : ∀ k ∈ T.keys, k ∈ S)
    (hzero : ∀ k ∈ S, T.get? k = none → f k = 0) (hw : ∀ k v, T.get? k = some v → w k v = f k) :
    T.total w = ∑ k ∈ S, f k := by
  have hrows : T.total w = (T.keys.map f).sum := by
    rw [total, keys, List.map_map]
    congr 1
    apply List.map_congr_left
    intro r hr
    exact hw r.1 r.2 (T.get?_eq_some.mpr hr)
  have hsum : ∑ k ∈ T.keys.toFinset, f k = (T.keys.map f).sum := List.sum_toFinset f T.nodup
  rw [hrows, ← hsum]
  apply Finset.sum_subset
  · intro k hk
    exact hkeys k (List.mem_toFinset.mp hk)
  · intro k hk hnot
    rw [List.mem_toFinset] at hnot
    exact hzero k hk (T.get?_eq_none.mpr hnot)

/-- A sum over a list, by the keys of its members. -/
theorem sum_map_eq_sum_filter {α κ M : Type*} [DecidableEq κ] [AddCommMonoid M] (key : α → κ)
    (f : α → M) {l : List α} {K : Finset κ} (hK : ∀ a ∈ l, key a ∈ K) :
    (l.map f).sum = ∑ k ∈ K, ((l.filter (key · = k)).map f).sum := by
  induction l with
  | nil => simp
  | cons a l ih =>
    obtain ⟨ha, hl⟩ := List.forall_mem_cons.mp hK
    have hsplit (k : κ) : (((a :: l).filter (key · = k)).map f).sum =
        (if key a = k then f a else 0) + ((l.filter (key · = k)).map f).sum := by
      by_cases h : key a = k <;> simp [h]
    rw [List.map_cons, List.sum_cons, ih hl]
    simp only [hsplit]
    rw [Finset.sum_add_distrib, Finset.sum_ite_eq, if_pos ha]

theorem abs_roundHalfEven_sub_le (x : ℚ) : |(JsonLoads.roundHalfEven x : ℚ) - x| ≤ 1 / 2 := by
  have hbelow := Int.floor_le x
  have habove := Int.lt_floor_add_one x
  simp only [JsonLoads.roundHalfEven]
  split
  · next h =>
    have hrest : x - ⌊x⌋ ≤ 1 / 2 := by
      rcases h with h | ⟨h, -⟩
      · exact h.le
      · exact h.le
    rw [abs_sub_comm, abs_of_nonneg (by linarith)]
    exact hrest
  · next h =>
    have hrest : 1 / 2 ≤ x - ⌊x⌋ := by
      by_contra hlt
      exact h (.inl (by linarith))
    push_cast
    rw [abs_of_nonneg (by linarith)]
    linarith

end TradingOS.Lib

namespace TradingOS.PaperTrading

open Lib

section Margin

/-- What a position of a size blocks. -/
def marginFor (instrumentType : InstrumentType) (net : ℤ) (price : ℚ) : ℚ :=
  (computeMarginLine ⟨"", net, 0, 0, 0, instrumentType⟩ price).marginRequired

theorem marginFor_zero (instrumentType : InstrumentType) (price : ℚ) :
    marginFor instrumentType 0 price = 0 := by
  simp [marginFor, computeMarginLine]

/-- An option blocks its notional if it is written. -/
theorem marginFor_option {instrumentType : InstrumentType}
    (h : instrumentType = .ce ∨ instrumentType = .pe) (net : ℤ) (price : ℚ) :
    marginFor instrumentType net price = (max (-net) 0 : ℤ) * price := by
  have hsame : marginFor instrumentType net price =
      if net = 0 then 0 else if 0 < net then 0 else ((|net| : ℤ) : ℚ) * price := by
    rcases h with rfl | rfl <;> rfl
  rw [hsame]
  split
  · next hz => simp [hz]
  · split
    · next hpos => rw [max_eq_right (by omega), Int.cast_zero, zero_mul]
    · next hneg => rw [max_eq_left (by omega), abs_of_nonpos (by omega)]

theorem marginFor_future (net : ℤ) (price : ℚ) :
    marginFor .future net price = (|net| : ℤ) * price * futuresMarginPct := by
  by_cases h : net = 0
  · rw [h, marginFor_zero]
    simp
  · simp only [marginFor, computeMarginLine, if_neg h]

/-- Positions held together block no more than held apart. -/
theorem marginFor_add_le (instrumentType : InstrumentType) (a b : ℤ) {price : ℚ}
    (hp : 0 ≤ price) : marginFor instrumentType (a + b) price ≤
      marginFor instrumentType a price + marginFor instrumentType b price := by
  have hoption (h : instrumentType = .ce ∨ instrumentType = .pe) :
      marginFor instrumentType (a + b) price ≤
        marginFor instrumentType a price + marginFor instrumentType b price := by
    have hmax : max (-(a + b)) 0 ≤ max (-a) 0 + max (-b) 0 := by omega
    rw [marginFor_option h, marginFor_option h, marginFor_option h, ← add_mul]
    exact mul_le_mul_of_nonneg_right (by exact_mod_cast hmax) hp
  cases instrumentType with
  | equity =>
    have hzero (net : ℤ) : marginFor .equity net price = 0 := by
      simp [marginFor, computeMarginLine]
    simp [hzero]
  | future =>
    have habs : |a + b| ≤ |a| + |b| := abs_add_le a b
    rw [marginFor_future, marginFor_future, marginFor_future, ← add_mul, ← add_mul]
    have hsum : ((|a + b| : ℤ) : ℚ) ≤ (|a| : ℤ) + (|b| : ℤ) := by exact_mod_cast habs
    exact mul_le_mul_of_nonneg_right (mul_le_mul_of_nonneg_right hsum hp)
      (by norm_num [futuresMarginPct])
  | ce => exact hoption (.inl rfl)
  | pe => exact hoption (.inr rfl)

theorem marginFor_sum_le {σ : Type*} (instrumentType : InstrumentType) (K : Finset σ)
    (net : σ → ℤ) {price : ℚ} (hp : 0 ≤ price) :
    marginFor instrumentType (∑ k ∈ K, net k) price ≤
      ∑ k ∈ K, marginFor instrumentType (net k) price := by
  classical
  induction K using Finset.induction_on with
  | empty => simp [marginFor_zero]
  | insert k K hk ih =>
    rw [Finset.sum_insert hk, Finset.sum_insert hk]
    have hadd := marginFor_add_le instrumentType (net k) (∑ k ∈ K, net k) hp
    linarith

end Margin

section Ledgers

variable {trades trades' : List PaperTrade} {lastPrices : String → Option ℚ}
  {price : String → ℚ} {typeOf : String → InstrumentType}

def netOf (s : String) (trades : List PaperTrade) : ℤ :=
  ((tradesOf s trades).map PaperTrade.signedQuantity).sum

/-- The type of a symbol's first trade. -/
def typeIn (trades : List PaperTrade) (s : String) : Option InstrumentType :=
  (trades.find? (·.symbol = s)).map PaperTrade.instrumentType

theorem exists_of_typeIn {s : String} {i : InstrumentType} (h : typeIn trades s = some i) :
    ∃ t ∈ trades, t.symbol = s ∧ t.instrumentType = i := by
  obtain ⟨t, ht, hi⟩ := Option.map_eq_some_iff.mp h
  have hs := List.find?_some ht
  exact ⟨t, List.mem_of_find?_eq_some ht, of_decide_eq_true hs, hi⟩

/-- A position keeps the type of the trade that opened it. -/
theorem typeIn_of_get? {s : String} {pos : SymbolPosition}
    (h : (replayLedger trades).1.get? s = some pos) :
    typeIn trades s = some pos.instrumentType := by
  induction trades using List.reverseRecOn generalizing pos with
  | nil => cases h
  | append_singleton trades t ih =>
    rw [typeIn, List.find?_append, Option.map_or]
    rw [replayLedger_append, Ledger.get?_book] at h
    split at h
    · next hs =>
      subst hs
      cases h
      have hfill : (((replayLedger trades).entry t).fill t).1.instrumentType =
          ((replayLedger trades).entry t).instrumentType := by
        simp only [SymbolPosition.fill]
        split <;> rfl
      rw [hfill, Ledger.entry]
      cases hget : (replayLedger trades).1.get? t.symbol with
      | none =>
        have hnone : tradesOf t.symbol trades = [] :=
          ((replayLedger_reconciles trades).keys t.symbol hget).1
        have hfind : trades.find? (·.symbol = t.symbol) = none := by
          rw [← List.head?_filter]
          exact congrArg List.head? hnone
        simp [hfind, SymbolPosition.opening]
      | some pos => exact congrArg (Option.or · _) (ih hget)
    · exact congrArg (Option.or · _) (ih h)

theorem symbol_mem_of_get? {s : String} (h : s ∈ (replayLedger trades).1.keys) :
    s ∈ (trades.map PaperTrade.symbol).toFinset := by
  obtain ⟨pos, hpos⟩ := Option.ne_none_iff_exists'.mp fun hn ↦
    (Table.get?_eq_none _).mp hn h
  obtain ⟨t, ht, hs, -⟩ := exists_of_typeIn (typeIn_of_get? hpos)
  rw [List.mem_toFinset]
  exact List.mem_map.mpr ⟨t, ht, hs⟩

theorem netQuantity_of_get? {s : String} {pos : SymbolPosition}
    (h : (replayLedger trades).1.get? s = some pos) : pos.netQuantity = netOf s trades :=
  ((replayLedger_reconciles trades).positions s pos h).net

theorem netOf_of_get?_none {s : String} (h : (replayLedger trades).1.get? s = none) :
    netOf s trades = 0 := by
  rw [netOf, ((replayLedger_reconciles trades).keys s h).1]
  rfl

/-- The margin of a ledger, symbol by symbol. -/
theorem totalMarginBlocked_eq (hp : Prices (replayLedger trades).1 lastPrices price)
    (htype : ∀ s, ∀ i ∈ typeIn trades s, i = typeOf s) {S : Finset String}
    (hS : (trades.map PaperTrade.symbol).toFinset ⊆ S) :
    (computeMarginSummary (replayLedger trades).1 lastPrices).totalMarginBlocked =
      ∑ s ∈ S, marginFor (typeOf s) (netOf s trades) (price s) := by
  have htable : (computeMarginSummary (replayLedger trades).1 lastPrices).totalMarginBlocked =
      (replayLedger trades).1.total fun s pos ↦
        marginFor pos.instrumentType pos.netQuantity (price s) := by
    simp only [computeMarginSummary, List.map_filterMap]
    refine sum_filterMap_eq fun r hr ↦ ?_
    by_cases hflat : r.2.netQuantity = 0
    · simp [hflat, marginFor_zero]
    · rw [if_pos hflat, hp r.1 r.2 ((Table.get?_eq_some _).mpr hr) hflat]
      rfl
  rw [htable]
  apply Table.total_eq_sum
  · intro s hs
    exact hS (symbol_mem_of_get? hs)
  · intro s _ hnone
    rw [netOf_of_get?_none hnone, marginFor_zero]
  · intro s pos hpos
    rw [htype s _ (typeIn_of_get? hpos), netQuantity_of_get? hpos]

theorem netOf_perm (h : trades.Perm trades') (s : String) : netOf s trades = netOf s trades' :=
  ((h.filter _).map _).sum_eq

/-- The rows of trades with one time of execution come in no fixed order. Whichever it is, the net
quantities are the same; and so is the equity, with a quote for every open symbol, where each symbol
keeps the type of its first trade. -/
theorem equity_eq_of_perm (h : trades.Perm trades') (htype : typeIn trades = typeIn trades')
    (hp : Prices (replayLedger trades).1 lastPrices price) (capitalAllocated : ℚ) :
    (∀ s pos pos', (replayLedger trades).1.get? s = some pos →
      (replayLedger trades').1.get? s = some pos' → pos.netQuantity = pos'.netQuantity) ∧
    computeEquityFromPositions capitalAllocated (replayLedger trades).1 lastPrices =
      computeEquityFromPositions capitalAllocated (replayLedger trades').1 lastPrices := by
  have hp' : Prices (replayLedger trades').1 lastPrices price := by
    intro s pos' hpos' hopen
    cases hpos : (replayLedger trades).1.get? s with
    | none =>
      rw [netQuantity_of_get? hpos', ← netOf_perm h, netOf_of_get?_none hpos] at hopen
      exact absurd rfl hopen
    | some pos =>
      refine hp s pos hpos ?_
      rw [netQuantity_of_get? hpos, netOf_perm h, ← netQuantity_of_get? hpos']
      exact hopen
  have hmargin : (computeMarginSummary (replayLedger trades).1 lastPrices).totalMarginBlocked =
      (computeMarginSummary (replayLedger trades').1 lastPrices).totalMarginBlocked := by
    let typeOf (s : String) : InstrumentType := (typeIn trades s).getD .equity
    have hall : ∀ s, ∀ i ∈ typeIn trades s, i = typeOf s := by
      intro s i hi
      rw [Option.mem_def] at hi
      simp only [typeOf, hi, Option.getD_some]
    have hall' : ∀ s, ∀ i ∈ typeIn trades' s, i = typeOf s := htype ▸ hall
    rw [totalMarginBlocked_eq hp hall Finset.subset_union_left,
      totalMarginBlocked_eq hp' hall' Finset.subset_union_right]
    apply Finset.sum_congr rfl
    intro s _
    rw [netOf_perm h]
  have hworth : settlement price trades = settlement price trades' := (h.map _).sum_eq
  constructor
  · intro s pos pos' hpos hpos'
    rw [netQuantity_of_get? hpos, netQuantity_of_get? hpos', netOf_perm h]
  · have hsum := realized_add_unrealized hp
    have hsum' := realized_add_unrealized hp'
    rw [total_worth_replayLedger] at hsum hsum'
    rw [computeEquityFromPositions, computeEquityFromPositions, add_assoc, add_assoc, hsum, hsum',
      hworth, hmargin]

def tiedTrades : List PaperTrade :=
  [⟨"RELIANCE", .equity, .buy, 10, 100⟩, ⟨"RELIANCE", .equity, .sell, 4, 120⟩]

theorem typeIn_tiedTrades (s : String) :
    typeIn tiedTrades s = typeIn tiedTrades.reverse s := by
  by_cases hs : "RELIANCE" = s <;> simp [typeIn, tiedTrades, hs]

theorem equity_eq_of_perm_tiedTrades :
    (∀ s pos pos', (replayLedger tiedTrades).1.get? s = some pos →
      (replayLedger tiedTrades.reverse).1.get? s = some pos' →
        pos.netQuantity = pos'.netQuantity) ∧
    computeEquityFromPositions 1000 (replayLedger tiedTrades).1 (fun _ ↦ some 110) =
      computeEquityFromPositions 1000 (replayLedger tiedTrades.reverse).1 fun _ ↦ some 110 :=
  equity_eq_of_perm (List.reverse_perm _).symm (funext typeIn_tiedTrades)
    (show Prices _ _ fun _ ↦ 110 from fun _ _ _ _ ↦ rfl) 1000

end Ledgers

section Strategies

variable {σ : Type*} [DecidableEq σ]

/-- The trades of one strategy of the account's ledger, as `GET /positions` selects them. -/
def strategyTrades (k : σ) (trades : List (σ × PaperTrade)) : List PaperTrade :=
  (trades.filter (·.1 = k)).map Prod.snd

def heldIn (s : String) (trades : List PaperTrade) : ℤ :=
  ((replayLedger trades).1.get? s).elim 0 SymbolPosition.netQuantity

def worthIn (s : String) (p : ℚ) (trades : List PaperTrade) : ℚ :=
  ((replayLedger trades).1.get? s).elim 0 (·.worth p)

theorem heldIn_eq_netOf (s : String) (trades : List PaperTrade) :
    heldIn s trades = netOf s trades := by
  rw [heldIn]
  cases h : (replayLedger trades).1.get? s with
  | none => exact (netOf_of_get?_none h).symm
  | some pos => exact netQuantity_of_get? h

theorem worthIn_eq (s : String) (p : ℚ) (trades : List PaperTrade) : worthIn s p trades =
    ((tradesOf s trades).map fun t ↦ t.signedQuantity * (p - t.fillPrice)).sum := by
  rw [worthIn]
  cases h : (replayLedger trades).1.get? s with
  | none =>
    rw [((replayLedger_reconciles trades).keys s h).1]
    rfl
  | some pos => exact ((replayLedger_reconciles trades).positions s pos h).worth p

/-- A sum over the account's trades in a symbol, by strategy. -/
theorem sum_tradesOf_strategies {M : Type*} [AddCommMonoid M] (f : PaperTrade → M) (s : String)
    {trades : List (σ × PaperTrade)} {K : Finset σ} (hK : ∀ r ∈ trades, r.1 ∈ K) :
    ((tradesOf s (trades.map Prod.snd)).map f).sum =
      ∑ k ∈ K, ((tradesOf s (strategyTrades k trades)).map f).sum := by
  have hown : ∀ r ∈ trades.filter (·.2.symbol = s), r.1 ∈ K := fun r hr ↦
    hK r (List.mem_of_mem_filter hr)
  have hsum := sum_map_eq_sum_filter Prod.fst (fun r : σ × PaperTrade ↦ f r.2) hown
  have hall : (tradesOf s (trades.map Prod.snd)).map f =
      (trades.filter (·.2.symbol = s)).map fun r ↦ f r.2 := by
    rw [tradesOf, List.filter_map, List.map_map]
    rfl
  rw [hall, hsum]
  apply Finset.sum_congr rfl
  intro k _
  rw [strategyTrades, tradesOf, List.filter_map, List.map_map, List.filter_filter,
    List.filter_filter]
  simp only [Function.comp_def, Bool.and_comm]

/-- Whichever strategy trades a symbol first, it is of the type that the account sees. -/
def SameTypes (trades : List (σ × PaperTrade)) : Prop :=
  ∀ k s, ∀ i ∈ typeIn (strategyTrades k trades) s, typeIn (trades.map Prod.snd) s = some i

/-- A symbol that is traded as one type throughout, as the ledger means it. -/
theorem sameTypes_of_uniform {trades : List (σ × PaperTrade)} (typeOf : String → InstrumentType)
    (h : ∀ r ∈ trades, r.2.instrumentType = typeOf r.2.symbol) : SameTypes trades := by
  intro k s i hi
  obtain ⟨t, ht, rfl, rfl⟩ := exists_of_typeIn hi
  obtain ⟨r, hr, rfl⟩ := List.mem_map.mp ht
  have hmem : r.2 ∈ trades.map Prod.snd := List.mem_map_of_mem (List.mem_of_mem_filter hr)
  obtain ⟨t', ht'⟩ : ∃ t', (trades.map Prod.snd).find? (·.symbol = r.2.symbol) = some t' :=
    Option.isSome_iff_exists.mp (List.find?_isSome.mpr ⟨r.2, hmem, by simp⟩)
  have hs : t'.symbol = r.2.symbol := by
    have hfound := List.find?_some ht'
    exact of_decide_eq_true hfound
  obtain ⟨r', hr', rfl⟩ := List.mem_map.mp (List.mem_of_find?_eq_some ht')
  rw [typeIn, ht', Option.map_some, h r (List.mem_of_mem_filter hr), h r' hr', hs]

/-- The rollups of the strategies add up to the account's, at every price; and the account blocks
no more margin than the strategies would if each had an account of its own, where they trade a
symbol as one type and every symbol has a quote, none of them negative. -/
theorem strategies_add_up (trades : List (σ × PaperTrade)) (K : Finset σ)
    (hK : ∀ r ∈ trades, r.1 ∈ K) :
    (∀ s, heldIn s (trades.map Prod.snd) = ∑ k ∈ K, heldIn s (strategyTrades k trades)) ∧
    (∀ s p, worthIn s p (trades.map Prod.snd) = ∑ k ∈ K, worthIn s p (strategyTrades k trades)) ∧
    ∀ price : String → ℚ, (∀ s, 0 ≤ price s) → SameTypes trades →
      (computeMarginSummary (replayLedger (trades.map Prod.snd)).1
          fun s ↦ some (price s)).totalMarginBlocked ≤
        ∑ k ∈ K, (computeMarginSummary (replayLedger (strategyTrades k trades)).1
          fun s ↦ some (price s)).totalMarginBlocked := by
  have hnet (s : String) : netOf s (trades.map Prod.snd) =
      ∑ k ∈ K, netOf s (strategyTrades k trades) := sum_tradesOf_strategies _ s hK
  refine ⟨fun s ↦ ?_, fun s p ↦ ?_, fun price hprice htype ↦ ?_⟩
  · simp only [heldIn_eq_netOf]
    exact hnet s
  · simp only [worthIn_eq]
    exact sum_tradesOf_strategies _ s hK
  · let S := ((trades.map Prod.snd).map PaperTrade.symbol).toFinset
    have hquoted (l : List PaperTrade) :
        Prices (replayLedger l).1 (fun s ↦ some (price s)) price := fun _ _ _ _ ↦ rfl
    let typeOf (s : String) : InstrumentType := (typeIn (trades.map Prod.snd) s).getD .equity
    have hall : ∀ s, ∀ i ∈ typeIn (trades.map Prod.snd) s, i = typeOf s := by
      intro s i hi
      rw [Option.mem_def] at hi
      simp only [typeOf, hi, Option.getD_some]
    have hsub (k : σ) : ∀ t ∈ strategyTrades k trades, t ∈ trades.map Prod.snd := by
      intro t ht
      obtain ⟨r, hr, rfl⟩ := List.mem_map.mp ht
      exact List.mem_map_of_mem (List.mem_of_mem_filter hr)
    have hpart (k : σ) : (computeMarginSummary (replayLedger (strategyTrades k trades)).1
        fun s ↦ some (price s)).totalMarginBlocked =
          ∑ s ∈ S, marginFor (typeOf s) (netOf s (strategyTrades k trades)) (price s) := by
      apply totalMarginBlocked_eq (hquoted _)
      · intro s i hi
        exact hall s i (htype k s i hi)
      · intro s hs
        obtain ⟨t, ht, rfl⟩ := List.mem_map.mp (List.mem_toFinset.mp hs)
        exact List.mem_toFinset.mpr (List.mem_map_of_mem (hsub k t ht))
    rw [totalMarginBlocked_eq (hquoted _) hall (Finset.Subset.refl S)]
    simp only [hpart]
    rw [Finset.sum_comm]
    apply Finset.sum_le_sum
    intro s _
    rw [hnet]
    exact marginFor_sum_le _ _ _ (hprice s)

/-- One strategy is long what the other is short. -/
def hedgedTrades : List (ℕ × PaperTrade) :=
  [(0, ⟨"NIFTY-F", .future, .buy, 75, 200⟩), (1, ⟨"NIFTY-F", .future, .sell, 50, 210⟩)]

theorem strategies_add_up_hedgedTrades :
    (∀ s, heldIn s (hedgedTrades.map Prod.snd) =
      ∑ k ∈ {0, 1}, heldIn s (strategyTrades k hedgedTrades)) ∧
    (∀ s p, worthIn s p (hedgedTrades.map Prod.snd) =
      ∑ k ∈ {0, 1}, worthIn s p (strategyTrades k hedgedTrades)) ∧
    (computeMarginSummary (replayLedger (hedgedTrades.map Prod.snd)).1
        fun _ ↦ some 205).totalMarginBlocked ≤
      ∑ k ∈ {0, 1}, (computeMarginSummary (replayLedger (strategyTrades k hedgedTrades)).1
        fun _ ↦ some 205).totalMarginBlocked :=
  have hadd := strategies_add_up hedgedTrades {0, 1} (by decide)
  ⟨hadd.1, hadd.2.1, hadd.2.2 (fun _ ↦ 205) (fun _ ↦ by norm_num)
    (sameTypes_of_uniform (fun _ ↦ .future) (by decide))⟩

end Strategies

section Summary

/-- `round(x, 2)`. -/
def round2 (x : ℚ) : ℚ := JsonLoads.roundHalfEven (x * 100) / 100

theorem abs_round2_sub_le (x : ℚ) : |round2 x - x| ≤ 1 / 200 := by
  have hscaled := abs_roundHalfEven_sub_le (x * 100)
  have hx : round2 x - x = (JsonLoads.roundHalfEven (x * 100) - x * 100) / 100 := by
    rw [round2]
    ring
  rw [hx, abs_div, abs_of_pos (by norm_num : (0 : ℚ) < 100)]
  linarith

def realizedByClass (positions : List SymbolPosition) : Table InstrumentType ℚ :=
  positions.foldl (fun T pos ↦ T.assign pos.instrumentType
    ((T.get? pos.instrumentType).getD 0 + pos.realizedPnl)) .empty

structure AccountSummary where
  startingCapital : ℚ
  cash : ℚ
  marginBlocked : ℚ
  realizedPnlTotal : ℚ
  unrealizedPnlTotal : ℚ
  realizedPnlByInstrumentClass : Table InstrumentType ℚ
  equity : ℚ

/-- `account_summary`; without a broker there are no prices. -/
def accountSummary (startingCapital : ℚ) (trades : List PaperTrade)
    (lastPrices : String → Option ℚ) : AccountSummary :=
  let positions := (replayLedger trades).1
  let realizedTotal := (positions.values.map SymbolPosition.realizedPnl).sum
  { startingCapital := startingCapital
    cash := round2 (startingCapital + realizedTotal)
    marginBlocked := round2 (computeMarginSummary positions lastPrices).totalMarginBlocked
    realizedPnlTotal := round2 realizedTotal
    unrealizedPnlTotal := round2 (unrealized positions lastPrices)
    realizedPnlByInstrumentClass := (realizedByClass positions.values).mapVals fun _ ↦ round2
    equity := round2 (computeEquityFromPositions startingCapital positions lastPrices) }

theorem get?_realizedByClass (positions : List SymbolPosition) (c : InstrumentType) :
    (realizedByClass positions).get? c =
      if positions.filter (·.instrumentType = c) = [] then none
      else some ((positions.filter (·.instrumentType = c)).map SymbolPosition.realizedPnl).sum := by
  induction positions using List.reverseRecOn with
  | nil => rfl
  | append_singleton positions pos ih =>
    have hlast : realizedByClass (positions ++ [pos]) =
        (realizedByClass positions).assign pos.instrumentType
          (((realizedByClass positions).get? pos.instrumentType).getD 0 + pos.realizedPnl) := by
      rw [realizedByClass, List.foldl_append]
      rfl
    rw [hlast, Table.get?_assign]
    by_cases h : c = pos.instrumentType
    · subst h
      rw [if_pos rfl, ih, List.filter_append]
      by_cases hold : positions.filter (·.instrumentType = pos.instrumentType) = []
      · simp [hold]
      · rw [if_neg hold]
        simp
    · rw [if_neg h, ih, List.filter_append]
      simp [Ne.symm h]

theorem total_realizedByClass (positions : List SymbolPosition) :
    (realizedByClass positions).total (fun _ v ↦ v) =
      (positions.map SymbolPosition.realizedPnl).sum := by
  induction positions using List.reverseRecOn with
  | nil => rfl
  | append_singleton positions pos ih =>
    have hlast : realizedByClass (positions ++ [pos]) =
        (realizedByClass positions).assign pos.instrumentType
          (((realizedByClass positions).get? pos.instrumentType).getD 0 + pos.realizedPnl) := by
      rw [realizedByClass, List.foldl_append]
      rfl
    rw [hlast, Table.total_assign, ih, List.map_append, List.sum_append]
    cases (realizedByClass positions).get? pos.instrumentType <;> simp

theorem length_rows_le (T : Table InstrumentType ℚ) : T.rows.length ≤ 4 := by
  have hsub : T.keys ⊆ [InstrumentType.equity, .future, .ce, .pe] := by
    intro c _
    cases c <;> decide
  have hlen := (T.nodup.subperm hsub).length_le
  simpa [Table.keys] using hlen

theorem abs_total_round2_sub_le (T : Table InstrumentType ℚ) :
    |(T.mapVals fun _ ↦ round2).total (fun _ v ↦ v) - T.total (fun _ v ↦ v)| ≤ 1 / 50 := by
  have hrows : ∀ rows : List (InstrumentType × ℚ),
      |(rows.map fun r ↦ round2 r.2).sum - (rows.map Prod.snd).sum| ≤ rows.length * (1 / 200) := by
    intro rows
    induction rows with
    | nil => simp
    | cons r rows ih =>
      have hr := abs_round2_sub_le r.2
      have hadd := abs_add_le (round2 r.2 - r.2)
        ((rows.map fun r ↦ round2 r.2).sum - (rows.map Prod.snd).sum)
      simp only [List.map_cons, List.sum_cons, List.length_cons, Nat.cast_succ]
      rw [add_sub_add_comm]
      linarith
  have hlen : (T.rows.length : ℚ) ≤ 4 := by exact_mod_cast length_rows_le T
  have hbound := hrows T.rows
  have hleft : (T.mapVals fun _ ↦ round2).total (fun _ v ↦ v) =
      (T.rows.map fun r ↦ round2 r.2).sum := by
    simp only [Table.total, Table.mapVals, List.map_map]
    rfl
  rw [hleft]
  refine hbound.trans ?_
  linarith

/-- The figures of the account summary agree with one another up to the rounding of each, whatever
the ledger and whichever quotes have failed. -/
theorem accountSummary_consistent (startingCapital : ℚ) (trades : List PaperTrade)
    (lastPrices : String → Option ℚ) :
    let summary := accountSummary startingCapital trades lastPrices
    |summary.equity -
        (summary.cash + summary.unrealizedPnlTotal - summary.marginBlocked)| ≤ 1 / 50 ∧
      |summary.cash - (summary.startingCapital + summary.realizedPnlTotal)| ≤ 1 / 100 ∧
      |summary.realizedPnlByInstrumentClass.total (fun _ v ↦ v) - summary.realizedPnlTotal| ≤
        1 / 40 ∧
      ∀ c, summary.realizedPnlByInstrumentClass.get? c =
        if (replayLedger trades).1.values.filter (·.instrumentType = c) = [] then none
        else some (round2 (((replayLedger trades).1.values.filter (·.instrumentType = c)).map
          SymbolPosition.realizedPnl).sum) := by
  intro summary
  let positions := (replayLedger trades).1
  let realized := (positions.values.map SymbolPosition.realizedPnl).sum
  let open_ := unrealized positions lastPrices
  let margin := (computeMarginSummary positions lastPrices).totalMarginBlocked
  obtain ⟨hcash, hcash'⟩ := abs_le.mp (abs_round2_sub_le (startingCapital + realized))
  obtain ⟨hopen, hopen'⟩ := abs_le.mp (abs_round2_sub_le open_)
  obtain ⟨hmargin, hmargin'⟩ := abs_le.mp (abs_round2_sub_le margin)
  obtain ⟨hrealized, hrealized'⟩ := abs_le.mp (abs_round2_sub_le realized)
  obtain ⟨hequity, hequity'⟩ := abs_le.mp
    (abs_round2_sub_le (startingCapital + realized + open_ - margin))
  have hclass := abs_total_round2_sub_le (realizedByClass positions.values)
  rw [total_realizedByClass] at hclass
  obtain ⟨hclass, hclass'⟩ := abs_le.mp hclass
  refine ⟨abs_le.mpr ?_, abs_le.mpr ?_, abs_le.mpr ?_, fun c ↦ ?_⟩
  · have hfields : summary.equity -
        (summary.cash + summary.unrealizedPnlTotal - summary.marginBlocked) =
          round2 (startingCapital + realized + open_ - margin) -
            (round2 (startingCapital + realized) + round2 open_ - round2 margin) := rfl
    rw [hfields]
    constructor <;> linarith
  · have hfields : summary.cash - (summary.startingCapital + summary.realizedPnlTotal) =
        round2 (startingCapital + realized) - (startingCapital + round2 realized) := rfl
    rw [hfields]
    constructor <;> linarith
  · have hfields : summary.realizedPnlByInstrumentClass.total (fun _ v ↦ v) -
        summary.realizedPnlTotal =
          ((realizedByClass positions.values).mapVals fun _ ↦ round2).total (fun _ v ↦ v) -
            round2 realized := rfl
    rw [hfields]
    constructor <;> linarith
  · refine (Table.get?_mapVals _ _ c).trans ?_
    rw [get?_realizedByClass]
    exact apply_ite (Option.map round2) _ _ _

end Summary

end TradingOS.PaperTrading
