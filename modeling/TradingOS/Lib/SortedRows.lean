import Mathlib.Data.List.Sort
import TradingOS.Lib.Table

namespace TradingOS.Lib.Table

variable {κ ρ M : Type*} [LinearOrder κ]

/-- `sorted(d.items())`: the keys are distinct, so no two values are ever compared. -/
def sortedRows (T : Table κ ρ) : List (κ × ρ) := T.rows.mergeSort fun r r' ↦ r.1 ≤ r'.1

theorem sortedRows_perm (T : Table κ ρ) : T.sortedRows.Perm T.rows := List.mergeSort_perm _ _

theorem mem_sortedRows (T : Table κ ρ) {r : κ × ρ} :
    r ∈ T.sortedRows ↔ T.get? r.1 = some r.2 := by
  rw [T.sortedRows_perm.mem_iff, T.get?_eq_some]

theorem map_fst_sortedRows (T : Table κ ρ) :
    T.sortedRows.map Prod.fst = T.keys.mergeSort fun k k' ↦ k ≤ k' :=
  List.map_mergeSort fun _ _ _ _ ↦ rfl

theorem sortedRows_pairwise (T : Table κ ρ) : T.sortedRows.Pairwise fun r r' ↦ r.1 < r'.1 := by
  have hle : (T.sortedRows.map Prod.fst).Pairwise (· ≤ ·) := by
    rw [map_fst_sortedRows]
    exact List.pairwise_mergeSort' _ _
  have hne : (T.sortedRows.map Prod.fst).Nodup :=
    (T.sortedRows_perm.map Prod.fst).nodup_iff.mpr T.nodup
  have hlt : (T.sortedRows.map Prod.fst).Pairwise (· < ·) :=
    (hle.and hne).imp fun h ↦ h.1.lt_of_ne h.2
  exact List.pairwise_map.mp hlt

/-- The sorted rows depend on what the table maps its keys to, not on the order of its rows. -/
theorem sortedRows_congr {T T' : Table κ ρ} (h : ∀ k, T.get? k = T'.get? k) :
    T.sortedRows = T'.sortedRows := by
  have hnodup (T : Table κ ρ) : T.sortedRows.Nodup :=
    T.sortedRows_perm.nodup_iff.mpr (List.Nodup.of_map _ T.nodup)
  have hperm : T.sortedRows.Perm T'.sortedRows := by
    rw [List.perm_ext_iff_of_nodup (hnodup T) (hnodup T')]
    intro r
    rw [mem_sortedRows, mem_sortedRows, h]
  refine hperm.eq_of_pairwise (fun r r' _ _ hlt hlt' ↦ ?_) T.sortedRows_pairwise
    T'.sortedRows_pairwise
  exact absurd hlt' hlt.asymm

/-- What each value of a table is summarised to. -/
def summarize {ρ' : Type*} (T : Table κ ρ) (f : ρ → ρ') : Table κ ρ' where
  rows := T.rows.map fun r ↦ (r.1, f r.2)
  nodup := by simpa only [List.map_map, Function.comp_def] using T.nodup

theorem get?_summarize {ρ' : Type*} (T : Table κ ρ) (f : ρ → ρ') (k : κ) :
    (T.summarize f).get? k = (T.get? k).map f := by
  simp only [get?, summarize]
  induction T.rows with
  | nil => rfl
  | cons r l ih =>
    obtain ⟨k', v⟩ := r
    by_cases h : k = k'
    · subst h
      simp only [List.map_cons, List.lookup_cons_self, Option.map_some]
    · have hb : (k == k') = false := by simpa using h
      simpa only [List.map_cons, List.lookup_cons, hb] using ih

theorem sortedRows_summarize {ρ' : Type*} (T : Table κ ρ) (f : ρ → ρ') :
    (T.summarize f).sortedRows = T.sortedRows.map fun r ↦ (r.1, f r.2) := by
  symm
  apply List.map_mergeSort
  intro r _ r' _
  rfl

section Sums

variable [AddCommGroup M]

theorem sum_sortedRows (w : κ → ρ → M) (T : Table κ ρ) :
    (T.sortedRows.map fun r ↦ w r.1 r.2).sum = T.total w := (T.sortedRows_perm.map _).sum_eq

/-- Rows that are counted into a table one by one, in an entry that starts from nothing. -/
theorem total_foldl_modify {α : Type*} (key : α → κ) (zero : ρ) (add : ρ → α → ρ)
    (w : ρ → M) (g : α → M) (hzero : w zero = 0) (hadd : ∀ v a, w (add v a) = w v + g a)
    (l : List α) :
    (l.foldl (fun T a ↦ (T.setdefault (key a) zero).modify (key a) (add · a)) empty).total
      (fun _ v ↦ w v) = (l.map g).sum := by
  induction l using List.reverseRecOn with
  | nil => rfl
  | append_singleton l a ih =>
    rw [List.foldl_append, List.map_append, List.sum_append, List.map_singleton,
      List.sum_singleton, ← ih]
    generalize l.foldl (fun T a ↦ (T.setdefault (key a) zero).modify (key a) (add · a)) empty = T
    have hget : (T.setdefault (key a) zero).get? (key a) = some ((T.get? (key a)).getD zero) := by
      rw [get?_setdefault, if_pos rfl]
    have hmodify := total_modify (fun (_ : κ) v ↦ w v) (T.setdefault (key a) zero) (add · a) hget
    rw [total_setdefault _ _ _ _ hzero, hadd, add_sub_cancel_left] at hmodify
    exact hmodify

end Sums

theorem get?_foldl_modify {α : Type*} (key : α → κ) (zero : ρ) (add : ρ → α → ρ) (l : List α)
    (k : κ) :
    (l.foldl (fun T a ↦ (T.setdefault (key a) zero).modify (key a) (add · a)) empty).get? k =
      if k ∈ l.map key then some ((l.filter (key · = k)).foldl add zero) else none := by
  induction l using List.reverseRecOn with
  | nil => rfl
  | append_singleton l a ih =>
    rw [List.foldl_append, List.foldl_cons, List.foldl_nil, get?_modify, get?_setdefault]
    by_cases h : k = key a
    · subst h
      rw [if_pos rfl, if_pos rfl, ih]
      by_cases hold : key a ∈ l.map key
      · rw [if_pos hold]
        simp
      · have hnone : l.filter (key · = key a) = [] := by
          apply List.filter_eq_nil_iff.mpr
          intro b hb he
          exact hold (of_decide_eq_true he ▸ List.mem_map_of_mem hb)
        rw [if_neg hold]
        simp [hnone]
    · rw [if_neg h, if_neg h, ih]
      simp [h, Ne.symm h]

end TradingOS.Lib.Table
