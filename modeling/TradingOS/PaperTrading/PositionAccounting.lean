import Mathlib.Algebra.Order.Field.Rat
import Mathlib.Data.List.Induction
import Mathlib.Data.Rat.Floor
import Mathlib.Tactic.FieldSimp
import Mathlib.Tactic.Ring
import TradingOS.Lib.Table

namespace TradingOS.PaperTrading

open Lib

inductive Side
  | buy | sell
  deriving DecidableEq

inductive InstrumentType
  | equity | future | ce | pe
  deriving DecidableEq

/-- The rounding of a `Numeric` column: a tie goes away from zero. -/
def roundHalfAway (x : ℚ) : ℤ := if 0 ≤ x then ⌊x + 1 / 2⌋ else ⌈x - 1 / 2⌉

structure PaperTrade where
  symbol : String
  instrumentType : InstrumentType
  side : Side
  filledQuantity : ℤ
  fillPrice : ℚ
  deriving DecidableEq

def PaperTrade.signedQuantity (t : PaperTrade) : ℤ :=
  match t.side with
  | .buy => t.filledQuantity
  | .sell => -t.filledQuantity

structure SymbolPosition where
  symbol : String
  netQuantity : ℤ
  averageCost : ℚ
  realizedPnl : ℚ
  tradeCount : ℕ
  instrumentType : InstrumentType
  deriving DecidableEq

def SymbolPosition.opening (t : PaperTrade) : SymbolPosition :=
  ⟨t.symbol, 0, 0, 0, 0, t.instrumentType⟩

structure RealizedClose where
  symbol : String
  quantity : ℤ
  entryPrice : ℚ
  exitPrice : ℚ
  pnl : ℚ
  deriving DecidableEq

namespace SymbolPosition

/-- Opening, or adding in the same direction: the weighted average is extended. -/
def extend (pos : SymbolPosition) (t : PaperTrade) : SymbolPosition :=
  let newQty := pos.netQuantity + t.signedQuantity
  { pos with
    tradeCount := pos.tradeCount + 1
    averageCost :=
      if newQty ≠ 0 then
        (pos.averageCost * |pos.netQuantity| + t.fillPrice * |t.signedQuantity|) / |newQty|
      else pos.averageCost
    netQuantity := newQty }

def closed (pos : SymbolPosition) (t : PaperTrade) : RealizedClose :=
  let closingQty := min |t.signedQuantity| |pos.netQuantity|
  let direction : ℚ := if 0 < pos.netQuantity then 1 else -1
  { symbol := t.symbol
    quantity := closingQty
    entryPrice := pos.averageCost
    exitPrice := t.fillPrice
    pnl := direction * (t.fillPrice - pos.averageCost) * closingQty }

/-- Reducing or reversing: the closed part is realized against the average cost. -/
def reduce (pos : SymbolPosition) (t : PaperTrade) : SymbolPosition :=
  let newQty := pos.netQuantity + t.signedQuantity
  { pos with
    tradeCount := pos.tradeCount + 1
    realizedPnl := pos.realizedPnl + (pos.closed t).pnl
    netQuantity := newQty
    averageCost :=
      if newQty ≠ 0 ∧ ¬ (0 < newQty ↔ 0 < newQty - t.signedQuantity) then t.fillPrice
      else pos.averageCost }

def extends? (pos : SymbolPosition) (t : PaperTrade) : Bool :=
  pos.netQuantity = 0 ∨ (0 < pos.netQuantity ↔ 0 < t.signedQuantity)

/-- The body of the loop of `replay_ledger`. -/
def fill (pos : SymbolPosition) (t : PaperTrade) : SymbolPosition × Option RealizedClose :=
  if pos.extends? t then (pos.extend t, none) else (pos.reduce t, some (pos.closed t))

end SymbolPosition

abbrev Ledger := Table String SymbolPosition × List RealizedClose

def Ledger.entry (ledger : Ledger) (t : PaperTrade) : SymbolPosition :=
  (ledger.1.get? t.symbol).getD (.opening t)

def Ledger.book (ledger : Ledger) (t : PaperTrade) : Ledger :=
  ((ledger.1.setdefault t.symbol (.opening t)).modify t.symbol fun pos ↦ (pos.fill t).1,
    ledger.2 ++ ((ledger.entry t).fill t).2.toList)

def replayLedger (trades : List PaperTrade) : Ledger := trades.foldl Ledger.book (Table.empty, [])

theorem replayLedger_append (trades : List PaperTrade) (t : PaperTrade) :
    replayLedger (trades ++ [t]) = (replayLedger trades).book t := by
  rw [replayLedger, List.foldl_append]
  rfl

namespace SymbolPosition

/-- The position's worth at a price: what is realized and what closing it would realize. -/
def worth (pos : SymbolPosition) (p : ℚ) : ℚ :=
  pos.realizedPnl + (p - pos.averageCost) * pos.netQuantity

variable (pos : SymbolPosition) (t : PaperTrade) (p : ℚ)

@[simp] theorem worth_opening : (opening t).worth p = 0 := by
  simp [worth, opening]

theorem worth_extend (h : pos.extends? t) :
    (pos.extend t).worth p = pos.worth p + t.signedQuantity * (p - t.fillPrice) := by
  have hsame : pos.netQuantity = 0 ∨ (0 < pos.netQuantity ↔ 0 < t.signedQuantity) :=
    of_decide_eq_true h
  generalize ht : t.signedQuantity = s at hsame
  generalize hn : pos.netQuantity = n at hsame
  simp only [worth, extend, ht, hn]
  -- the sign shared by the position and the fill
  obtain ⟨σ, hσ, hn', hs', hq'⟩ : ∃ σ : ℤ, σ * σ = 1 ∧ |n| = σ * n ∧ |s| = σ * s ∧
      |n + s| = σ * (n + s) := by
    rcases lt_or_ge 0 s with hs | hs
    · have hn0 : 0 ≤ n := by omega
      exact ⟨1, by norm_num, by rw [abs_of_nonneg hn0, one_mul],
        by rw [abs_of_pos hs, one_mul], by rw [abs_of_nonneg (by omega), one_mul]⟩
    · have hn0 : n ≤ 0 := by omega
      exact ⟨-1, by norm_num, by rw [abs_of_nonpos hn0, neg_one_mul],
        by rw [abs_of_nonpos hs, neg_one_mul],
        by rw [abs_of_nonpos (by omega), neg_one_mul]⟩
  by_cases hq : n + s = 0
  · have hn0 : n = 0 := by omega
    have hs0 : s = 0 := by omega
    subst hn0 hs0
    simp
  · rw [if_pos hq, hn', hs', hq']
    have hqq : ((n : ℚ) + s) ≠ 0 := by exact_mod_cast hq
    have hσq : (σ : ℚ) ≠ 0 := by
      intro h0
      have : σ = 0 := by exact_mod_cast h0
      rw [this] at hσ
      omega
    push_cast
    field_simp
    ring

theorem worth_reduce (h : pos.extends? t = false) :
    (pos.reduce t).worth p = pos.worth p + t.signedQuantity * (p - t.fillPrice) := by
  have hopp : ¬ (pos.netQuantity = 0 ∨ (0 < pos.netQuantity ↔ 0 < t.signedQuantity)) :=
    of_decide_eq_false h
  generalize ht : t.signedQuantity = s at hopp
  generalize hn : pos.netQuantity = n at hopp
  simp only [worth, reduce, closed, ht, hn, add_sub_cancel_right]
  -- a fill against a long position, or against a short one; up to its size, or beyond
  rcases lt_or_ge 0 n with hpos | hneg
  · have hs : s ≤ 0 := by
      by_contra hs
      exact hopp (.inr (iff_of_true hpos (by omega)))
    rw [if_pos hpos, abs_of_nonpos hs, abs_of_pos hpos]
    rcases le_or_gt 0 (n + s) with hq | hq
    · rw [min_eq_left (by omega), if_neg (by omega)]
      push_cast
      ring
    · rw [min_eq_right (by omega), if_pos (by omega)]
      push_cast
      ring
  · have hs : 0 < s := by
      by_contra hs
      exact hopp (.inr (iff_of_false (by omega) hs))
    have hn0 : n ≠ 0 := fun hn0 ↦ hopp (.inl hn0)
    rw [if_neg (by omega), abs_of_pos hs, abs_of_nonpos hneg]
    rcases le_or_gt (n + s) 0 with hq | hq
    · rw [min_eq_left (by omega), if_neg (by omega)]
      push_cast
      ring
    · rw [min_eq_right (by omega), if_pos (by omega)]
      push_cast
      ring

/-- Whatever a fill does to quantity, average and profit, at any price the position's worth
changes by the fill bought at its own price. -/
theorem worth_fill : (pos.fill t).1.worth p = pos.worth p + t.signedQuantity * (p - t.fillPrice) := by
  simp only [fill]
  split
  · next h => exact pos.worth_extend t p h
  · next h => exact pos.worth_reduce t p (by simpa using h)

theorem netQuantity_fill : (pos.fill t).1.netQuantity = pos.netQuantity + t.signedQuantity := by
  simp only [fill]
  split <;> rfl

theorem realizedPnl_fill : (pos.fill t).1.realizedPnl =
    pos.realizedPnl + ((pos.fill t).2.toList.map RealizedClose.pnl).sum := by
  simp only [fill]
  split
  · simp [extend]
  · simp [reduce]

theorem symbol_of_mem_fill {c : RealizedClose} (h : c ∈ (pos.fill t).2.toList) :
    c.symbol = t.symbol := by
  simp only [fill] at h
  split at h
  · cases h
  · obtain rfl : c = pos.closed t := by simpa using h
    rfl

end SymbolPosition

namespace Ledger

variable (ledger : Ledger) (t : PaperTrade)

theorem get?_book (k : String) : (ledger.book t).1.get? k =
    if k = t.symbol then some ((ledger.entry t).fill t).1 else ledger.1.get? k := by
  simp only [book, Table.get?_modify, Table.get?_setdefault]
  split
  · rfl
  · rfl

theorem closes_book : (ledger.book t).2 = ledger.2 ++ ((ledger.entry t).fill t).2.toList := rfl

end Ledger

def tradesOf (s : String) (trades : List PaperTrade) : List PaperTrade :=
  trades.filter fun t ↦ t.symbol = s

theorem tradesOf_append (s : String) (trades : List PaperTrade) (t : PaperTrade) :
    tradesOf s (trades ++ [t]) = tradesOf s trades ++ if t.symbol = s then [t] else [] := by
  simp only [tradesOf, List.filter_append, List.filter_cons, List.filter_nil, decide_eq_true_eq]

/-- What buying and selling at the ledger's prices and settling at `p` would have earned. -/
def settlement (p : String → ℚ) (trades : List PaperTrade) : ℚ :=
  (trades.map fun t ↦ t.signedQuantity * (p t.symbol - t.fillPrice)).sum

structure SymbolPosition.Reconciles (pos : SymbolPosition) (trades : List PaperTrade)
    (closes : List RealizedClose) : Prop where
  net : pos.netQuantity = (trades.map PaperTrade.signedQuantity).sum
  worth : ∀ p, pos.worth p = (trades.map fun t ↦ t.signedQuantity * (p - t.fillPrice)).sum
  closes : (closes.map RealizedClose.pnl).sum = pos.realizedPnl

theorem reconciles_opening (t : PaperTrade) : (SymbolPosition.opening t).Reconciles [] [] where
  net := rfl
  worth := fun p ↦ SymbolPosition.worth_opening t p
  closes := rfl

theorem SymbolPosition.Reconciles.fill {pos : SymbolPosition} {trades : List PaperTrade}
    {closes : List RealizedClose} (h : pos.Reconciles trades closes) (t : PaperTrade) :
    (pos.fill t).1.Reconciles (trades ++ [t]) (closes ++ (pos.fill t).2.toList) where
  net := by
    rw [netQuantity_fill, h.net, List.map_append, List.sum_append, List.map_singleton,
      List.sum_singleton]
  worth := fun p ↦ by
    rw [worth_fill, h.worth, List.map_append, List.sum_append, List.map_singleton,
      List.sum_singleton]
  closes := by
    rw [realizedPnl_fill, ← h.closes, List.map_append, List.sum_append]

/-- Every symbol of the ledger, in particular one without a position: its trades are none. -/
structure Ledger.Reconciles (ledger : Ledger) (trades : List PaperTrade) : Prop where
  keys : ∀ s, ledger.1.get? s = none → tradesOf s trades = [] ∧
    ledger.2.filter (fun c ↦ c.symbol = s) = []
  positions : ∀ s pos, ledger.1.get? s = some pos →
    pos.Reconciles (tradesOf s trades) (ledger.2.filter fun c ↦ c.symbol = s)

theorem Ledger.Reconciles.entry {ledger : Ledger} {trades : List PaperTrade}
    (h : ledger.Reconciles trades) (t : PaperTrade) : (ledger.entry t).Reconciles
      (tradesOf t.symbol trades) (ledger.2.filter fun c ↦ c.symbol = t.symbol) := by
  simp only [Ledger.entry]
  cases hget : ledger.1.get? t.symbol with
  | none =>
    obtain ⟨htrades, hcloses⟩ := h.keys t.symbol hget
    rw [htrades, hcloses]
    exact reconciles_opening t
  | some pos => exact h.positions t.symbol pos hget

theorem Ledger.Reconciles.book {ledger : Ledger} {trades : List PaperTrade}
    (h : ledger.Reconciles trades) (t : PaperTrade) :
    (ledger.book t).Reconciles (trades ++ [t]) := by
  have hown : ((ledger.entry t).fill t).2.toList.filter (fun c ↦ c.symbol = t.symbol) =
      ((ledger.entry t).fill t).2.toList :=
    List.filter_eq_self.mpr fun c hc ↦ by
      simpa using SymbolPosition.symbol_of_mem_fill _ _ hc
  have hother : ∀ s, s ≠ t.symbol →
      ((ledger.entry t).fill t).2.toList.filter (fun c ↦ c.symbol = s) = [] := fun s hs ↦
    List.filter_eq_nil_iff.mpr fun c hc ↦ by
      simpa [SymbolPosition.symbol_of_mem_fill _ _ hc] using hs.symm
  constructor
  · intro s hs
    rw [Ledger.get?_book] at hs
    split at hs
    · cases hs
    · next hne =>
      obtain ⟨htrades, hcloses⟩ := h.keys s hs
      rw [tradesOf_append, if_neg (fun he ↦ hne he.symm), List.append_nil, Ledger.closes_book,
        List.filter_append, hother s hne, List.append_nil]
      exact ⟨htrades, hcloses⟩
  · intro s pos hpos
    rw [Ledger.get?_book] at hpos
    rw [tradesOf_append, Ledger.closes_book, List.filter_append]
    split at hpos
    · next he =>
      subst he
      obtain rfl := Option.some.inj hpos
      rw [if_pos rfl, hown]
      exact (h.entry t).fill t
    · next hne =>
      rw [if_neg (fun he ↦ hne he.symm), List.append_nil, hother s hne, List.append_nil]
      exact h.positions s pos hpos

theorem replayLedger_reconciles (trades : List PaperTrade) :
    (replayLedger trades).Reconciles trades := by
  induction trades using List.reverseRecOn with
  | nil => exact ⟨fun _ _ ↦ ⟨rfl, rfl⟩, fun _ _ h ↦ by cases h⟩
  | append_singleton trades t ih =>
    rw [replayLedger_append]
    exact ih.book t

/-- Over the whole table, the worth of all positions is the settlement of all trades. -/
theorem total_worth_replayLedger (p : String → ℚ) (trades : List PaperTrade) :
    (replayLedger trades).1.total (fun s pos ↦ pos.worth (p s)) = settlement p trades := by
  induction trades using List.reverseRecOn with
  | nil => rfl
  | append_singleton trades t ih =>
    have hget : ((replayLedger trades).1.setdefault t.symbol (.opening t)).get? t.symbol =
        some ((replayLedger trades).entry t) := by
      rw [Table.get?_setdefault, if_pos rfl]
      rfl
    have hzero : (SymbolPosition.opening t).worth (p t.symbol) = 0 :=
      SymbolPosition.worth_opening t _
    rw [replayLedger_append, Ledger.book, Table.total_modify _ _ _ hget,
      Table.total_setdefault (fun s pos ↦ SymbolPosition.worth pos (p s)) _ _ _ hzero, ih,
      SymbolPosition.worth_fill, settlement, settlement, List.map_append, List.sum_append,
      List.map_singleton, List.sum_singleton]
    ring

end TradingOS.PaperTrading
