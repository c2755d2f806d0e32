import Mathlib.Data.Set.Card
import Mathlib.Data.String.Basic
import TradingOS.Data.InstrumentSync
import TradingOS.Lib.Pages

namespace TradingOS.Data.InstrumentSearch

open Lib InstrumentSync

/-- A row of the table, under its key. -/
abbrev Row := (String × String) × Instrument

/-- `query`, `exchange` and `instrument_type`; an empty text asks for nothing. -/
structure Filters where
  query : Option String
  exchange : Option String
  instrumentType : Option String

variable {κ : Type} [LinearOrder κ] (ilike : String → String → Bool) (collate : String ↪ κ)

/-- The conditions of `_filtered_query` on a row, where `ilike` is PostgreSQL's. -/
def Filters.matches (filters : Filters) (row : Row) : Bool :=
  row.2.isActive &&
    (match truthy filters.query with
      | some query => ilike row.2.symbol s!"%{query}%" || ilike row.2.name s!"%{query}%"
      | none => true) &&
    (match truthy filters.exchange with
      | some exchange => row.2.exchange = exchange
      | none => true) &&
    match truthy filters.instrumentType with
    | some instrumentType => row.2.instrumentType = instrumentType
    | none => true

def filteredQuery (instruments : InstrumentTable) (filters : Filters) : List Row :=
  instruments.rows.filter (filters.matches ilike)

/-- What `ORDER BY symbol` compares, by the database's collation. -/
def symbolKey (row : Row) : κ := collate row.2.symbol

/-- The rows of a page, in the order that the database gives the matching rows, and the total. -/
def search (order : Sorting (symbolKey collate)) (instruments : InstrumentTable) (filters : Filters)
    (pageNo pageSize : ℕ) : List Row × ℕ :=
  let rows := filteredQuery ilike instruments filters
  (((order.sort rows).drop ((pageNo - 1) * pageSize)).take pageSize, rows.length)

/-- What going through the pages is for: each matching row is on one of them, once. -/
structure PagesPartition (orders : ℕ → Sorting (symbolKey collate)) (instruments : InstrumentTable)
    (filters : Filters) (pageSize : ℕ) : Prop where
  nodup : ∀ pageNo, 0 < pageNo →
    (search ilike collate (orders pageNo) instruments filters pageNo pageSize).1.Nodup
  disjoint : ∀ pageNo pageNo', 0 < pageNo → 0 < pageNo' → pageNo ≠ pageNo' →
    (search ilike collate (orders pageNo) instruments filters pageNo pageSize).1.Disjoint
      (search ilike collate (orders pageNo') instruments filters pageNo' pageSize).1
  union : ∀ row, (∃ pageNo, 0 < pageNo ∧
      row ∈ (search ilike collate (orders pageNo) instruments filters pageNo pageSize).1) ↔
    row ∈ instruments.rows ∧ filters.matches ilike row
  total : ∀ pageNo, (search ilike collate (orders pageNo) instruments filters pageNo pageSize).2 =
    {row | row ∈ instruments.rows ∧ filters.matches ilike row}.ncard

/-- The symbols of the matching rows, in order. -/
def orderedSymbols (instruments : InstrumentTable) (filters : Filters) : List κ :=
  ((Sorting.insertion (symbolKey collate)).sort (filteredQuery ilike instruments filters)).map
    (symbolKey collate)

section Pages

variable {ilike collate} {orders : ℕ → Sorting (symbolKey collate)} {instruments : InstrumentTable}
  {filters : Filters} {pageSize : ℕ}

theorem nodup_filteredQuery : (filteredQuery ilike instruments filters).Nodup :=
  (List.Nodup.of_map _ instruments.nodup).filter _

theorem total_eq : (filteredQuery ilike instruments filters).length =
    {row | row ∈ instruments.rows ∧ filters.matches ilike row}.ncard := by
  have hset : {row | row ∈ instruments.rows ∧ filters.matches ilike row} =
      ((filteredQuery ilike instruments filters).toFinset : Set Row) := by
    ext row
    simp [filteredQuery]
  rw [hset, Set.ncard_coe_finset, List.toFinset_card_of_nodup nodup_filteredQuery]

/-- Pages are numbered from one. -/
theorem pagesPartition_iff_partitions :
    PagesPartition ilike collate orders instruments filters pageSize ↔
      Partitions
        (fun p ↦ page pageSize ((orders (p + 1)).sort (filteredQuery ilike instruments filters)) p)
        (filteredQuery ilike instruments filters) := by
  have hmem {row : Row} : row ∈ filteredQuery ilike instruments filters ↔
      row ∈ instruments.rows ∧ filters.matches ilike row := List.mem_filter
  constructor
  · intro h
    refine ⟨fun p ↦ h.nodup (p + 1) p.succ_pos,
      fun p q hne ↦ h.disjoint (p + 1) (q + 1) p.succ_pos q.succ_pos (by omega), fun row ↦ ?_⟩
    rw [hmem, ← h.union]
    exact ⟨fun ⟨p, hp⟩ ↦ ⟨p + 1, p.succ_pos, hp⟩, fun ⟨pageNo, hpos, hrow⟩ ↦ ⟨pageNo - 1, by
      rwa [Nat.sub_add_cancel hpos]⟩⟩
  · intro h
    refine ⟨fun pageNo hpos ↦ ?_, fun pageNo pageNo' hpos hpos' hne ↦ ?_, fun row ↦ ?_,
      fun _ ↦ total_eq⟩
    · have hnodup := h.nodup (pageNo - 1)
      rwa [Nat.sub_add_cancel hpos] at hnodup
    · have hdisjoint := h.disjoint (pageNo - 1) (pageNo' - 1) (by omega)
      rwa [Nat.sub_add_cancel hpos, Nat.sub_add_cancel hpos'] at hdisjoint
    · rw [← hmem, ← h.union]
      exact ⟨fun ⟨pageNo, hpos, hrow⟩ ↦ ⟨pageNo - 1, by rwa [Nat.sub_add_cancel hpos]⟩,
        fun ⟨p, hp⟩ ↦ ⟨p + 1, p.succ_pos, hp⟩⟩

theorem forall_pagesPartition_iff (instruments : InstrumentTable) (filters : Filters) :
    (∀ orders : ℕ → Sorting (symbolKey collate),
      PagesPartition ilike collate orders instruments filters pageSize) ↔
      ∀ orders : ℕ → Sorting (symbolKey collate), Partitions
        (fun p ↦ page pageSize ((orders p).sort (filteredQuery ilike instruments filters)) p)
        (filteredQuery ilike instruments filters) := by
  simp only [pagesPartition_iff_partitions]
  constructor
  · intro h orders
    simpa using h fun n ↦ orders (n - 1)
  · exact fun h orders ↦ h fun p ↦ orders (p + 1)

/-- The pages partition the matching rows, whichever way the database breaks ties on each of them,
exactly if no page ends between two rows of one symbol. -/
theorem pagesPartition_iff (instruments : InstrumentTable) (filters : Filters)
    (hsize : 0 < pageSize) :
    (∀ orders : ℕ → Sorting (symbolKey collate),
      PagesPartition ilike collate orders instruments filters pageSize) ↔
      CutsNoTie pageSize (orderedSymbols ilike collate instruments filters) :=
  (forall_pagesPartition_iff instruments filters).trans
    (partitions_sorted_iff _ hsize nodup_filteredQuery)

end Pages

section Reliance

def listed (exchange : String) : Instrument :=
  ⟨exchange, exchange ++ "_EQ", "RELIANCE", "Reliance Industries Ltd", "EQ", none, none, none, none,
    none, true⟩

/-- One symbol on two exchanges. -/
def reliance : InstrumentTable where
  rows := [(("upstox_v3", "NSE_EQ|INE002A01018"), listed "NSE"),
    (("upstox_v3", "BSE_EQ|INE002A01018"), listed "BSE")]
  nodup := by decide

def equities : Filters := ⟨none, none, some "EQ"⟩

def never (_ _ : String) : Bool := false

theorem symbols_reliance :
    orderedSymbols never (.refl String) reliance equities = ["RELIANCE", "RELIANCE"] := by
  decide +kernel

theorem both_on_one_page : 0 < 2 ∧ ∀ orders : ℕ → Sorting (symbolKey (.refl String)),
    PagesPartition never (.refl String) orders reliance equities 2 := by
  refine ⟨by decide, (pagesPartition_iff reliance equities (by decide)).mpr ?_⟩
  rw [symbols_reliance]
  intro p hp k _ hafter
  rw [List.getElem?_eq_none (by simp only [List.length_cons, List.length_nil]; omega)] at hafter
  cases hafter

/-- On pages of one row the same of the two rows may be found twice, and the other never. -/
theorem one_listing_on_two_pages : ¬ ∀ orders : ℕ → Sorting (symbolKey (.refl String)),
    PagesPartition never (.refl String) orders reliance equities 1 := by
  intro h
  have hcut : CutsNoTie 1 (orderedSymbols never (.refl String) reliance equities) :=
    (partitions_sorted_iff _ Nat.one_pos nodup_filteredQuery).mp
      ((forall_pagesPartition_iff reliance equities).mp h)
  rw [symbols_reliance] at hcut
  exact hcut 1 Nat.one_pos "RELIANCE" rfl rfl

end Reliance

end TradingOS.Data.InstrumentSearch
