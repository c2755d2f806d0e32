import TradingOS.Lib.KeyedRows

namespace TradingOS.Lib

variable {ρ τ : Type*}

/-- A page of a list, where pages are numbered from zero. -/
def page (size : ℕ) (l : List ρ) (p : ℕ) : List ρ := (l.drop (p * size)).take size

theorem mem_page_iff {size p : ℕ} (hsize : 0 < size) {l : List ρ} {r : ρ} :
    r ∈ page size l p ↔ ∃ i, i / size = p ∧ l[i]? = some r := by
  rw [page, List.mem_iff_getElem?]
  simp only [List.getElem?_take, List.getElem?_drop]
  constructor
  · rintro ⟨i, hi⟩
    split at hi
    · next hlt => exact ⟨p * size + i, by rw [Nat.mul_comm, Nat.mul_add_div hsize,
        Nat.div_eq_of_lt hlt, Nat.add_zero], hi⟩
    · cases hi
  · rintro ⟨i, rfl, hi⟩
    refine ⟨i % size, ?_⟩
    rw [if_pos (Nat.mod_lt i hsize), Nat.mul_comm, Nat.div_add_mod, hi]

/-- The pages hold every row once, and nothing else. -/
structure Partitions (pages : ℕ → List ρ) (rows : List ρ) : Prop where
  nodup : ∀ p, (pages p).Nodup
  disjoint : ∀ p q, p ≠ q → (pages p).Disjoint (pages q)
  union : ∀ r, (∃ p, r ∈ pages p) ↔ r ∈ rows

section Ties

/-- No page ends between two equal keys. -/
def CutsNoTie (size : ℕ) (keys : List τ) : Prop :=
  ∀ p, 0 < p → ∀ k, keys[p * size - 1]? = some k → keys[p * size]? ≠ some k

variable [LinearOrder τ] {key : ρ → τ} {size : ℕ} {keys : List τ} {rows : List ρ}

theorem getElem?_of_between (hsorted : keys.Pairwise (· ≤ ·)) {i j m : ℕ} {k : τ}
    (hi : keys[i]? = some k) (hj : keys[j]? = some k) (him : i ≤ m) (hmj : m ≤ j) :
    keys[m]? = some k := by
  obtain ⟨hilt, hik⟩ := List.getElem?_eq_some_iff.mp hi
  obtain ⟨hjlt, hjk⟩ := List.getElem?_eq_some_iff.mp hj
  have hle {a b : ℕ} (hb : b < keys.length) (hab : a ≤ b) : keys[a] ≤ keys[b] := by
    rcases Nat.eq_or_lt_of_le hab with rfl | hlt
    · exact le_rfl
    · exact List.pairwise_iff_getElem.mp hsorted a b (by omega) hb hlt
  rw [List.getElem?_eq_getElem (by omega), Option.some.injEq]
  exact le_antisymm (hjk ▸ hle hjlt hmj) (hik ▸ hle (by omega) him)

/-- Equal keys are all on one page. -/
theorem CutsNoTie.div_eq (h : CutsNoTie size keys) (hsize : 0 < size)
    (hsorted : keys.Pairwise (· ≤ ·)) {i j : ℕ} {k : τ} (hi : keys[i]? = some k)
    (hj : keys[j]? = some k) : i / size = j / size := by
  have hcut {i j : ℕ} (hi : keys[i]? = some k) (hj : keys[j]? = some k) :
      ¬ i / size < j / size := by
    intro hlt
    have hbelow : i < j / size * size := (Nat.div_lt_iff_lt_mul hsize).mp hlt
    have habove : j / size * size ≤ j := Nat.div_mul_le_self j size
    exact h (j / size) (Nat.zero_lt_of_lt hlt) k
      (getElem?_of_between hsorted hi hj (by omega) (by omega))
      (getElem?_of_between hsorted hi hj (by omega) habove)
  have := hcut hi hj
  have := hcut hj hi
  omega

/-- Whichever way ties are broken, the keys come in the same order. -/
theorem Sorting.map_key_eq (S S' : Sorting key) (rows : List ρ) :
    (S.sort rows).map key = (S'.sort rows).map key :=
  (((S.perm rows).trans (S'.perm rows).symm).map key).eq_of_pairwise
    (fun _ _ _ _ ↦ le_antisymm) (List.pairwise_map.mpr (S.sorted rows))
    (List.pairwise_map.mpr (S'.sorted rows))

/-- Any order of some rows that their keys allow is that of a sort. -/
theorem Sorting.exists_sort_eq {l : List ρ} (hperm : l.Perm rows)
    (hsorted : l.Pairwise (key · ≤ key ·)) : ∃ S : Sorting key, S.sort rows = l := by
  classical
  let S := Sorting.insertion key
  refine ⟨⟨fun rows' ↦ if rows' = rows then l else S.sort rows', fun rows' ↦ ?_, fun rows' ↦ ?_⟩,
    if_pos rfl⟩
  · split
    · next h => rwa [h]
    · exact S.perm rows'
  · split
    · exact hsorted
    · exact S.sorted rows'

theorem nodup_sort (S : Sorting key) (h : rows.Nodup) : (S.sort rows).Nodup :=
  (S.perm rows).nodup_iff.mpr h

theorem mem_page_sort_iff (S S' : Sorting key) (hsize : 0 < size)
    (h : CutsNoTie size ((S'.sort rows).map key)) {r : ρ} {p : ℕ} :
    r ∈ page size (S.sort rows) p ↔ r ∈ page size (S'.sort rows) p := by
  have hsorted (T : Sorting key) : ((T.sort rows).map key).Pairwise (· ≤ ·) :=
    List.pairwise_map.mpr (T.sorted rows)
  have hmoves {T T' : Sorting key} (hcut : CutsNoTie size ((T'.sort rows).map key)) :
      r ∈ page size (T.sort rows) p → r ∈ page size (T'.sort rows) p := by
    intro hr
    obtain ⟨i, rfl, hi⟩ := (mem_page_iff hsize).mp hr
    have hmem : r ∈ T'.sort rows := T'.mem_sort.mpr (T.mem_sort.mp (List.mem_of_getElem? hi))
    obtain ⟨j, hj⟩ := List.mem_iff_getElem?.mp hmem
    have hkeyi : ((T'.sort rows).map key)[i]? = some (key r) := by
      rw [T'.map_key_eq T, List.getElem?_map, hi]
      rfl
    have hkeyj : ((T'.sort rows).map key)[j]? = some (key r) := by
      rw [List.getElem?_map, hj]
      rfl
    exact (mem_page_iff hsize).mpr ⟨j, hcut.div_eq hsize (hsorted T') hkeyj hkeyi, hj⟩
  exact ⟨hmoves h, hmoves (S'.map_key_eq S rows ▸ h)⟩

theorem partitions_page (hsize : 0 < size) {l : List ρ} (hl : l.Nodup) :
    Partitions (page size l) l := by
  refine ⟨fun p ↦ (hl.sublist (List.drop_sublist _ _)).sublist (List.take_sublist _ _),
    fun p q hne r hp hq ↦ ?_, fun r ↦ ?_⟩
  · obtain ⟨i, rfl, hi⟩ := (mem_page_iff hsize).mp hp
    obtain ⟨j, rfl, hj⟩ := (mem_page_iff hsize).mp hq
    obtain ⟨hilt, hir⟩ := List.getElem?_eq_some_iff.mp hi
    obtain ⟨hjlt, hjr⟩ := List.getElem?_eq_some_iff.mp hj
    exact hne (congrArg (· / size) ((hl.getElem_inj_iff).mp (hir.trans hjr.symm)))
  · constructor
    · rintro ⟨p, hp⟩
      obtain ⟨i, -, hi⟩ := (mem_page_iff hsize).mp hp
      exact List.mem_of_getElem? hi
    · intro hr
      obtain ⟨i, hi⟩ := List.mem_iff_getElem?.mp hr
      exact ⟨i / size, (mem_page_iff hsize).mpr ⟨i, rfl, hi⟩⟩

/-- Neighbours of equal keys may as well stand the other way round. -/
theorem Sorting.exists_swap (S : Sorting key) {i : ℕ} {x y : ρ} (hx : (S.sort rows)[i]? = some x)
    (hy : (S.sort rows)[i + 1]? = some y) (heq : key x = key y) :
    ∃ S' : Sorting key, (S'.sort rows)[i + 1]? = some x := by
  obtain ⟨hi, hxi⟩ := List.getElem?_eq_some_iff.mp hx
  obtain ⟨hi', hyi⟩ := List.getElem?_eq_some_iff.mp hy
  have hsplit : S.sort rows = (S.sort rows).take i ++ x :: y :: (S.sort rows).drop (i + 2) := by
    rw [← hxi, ← hyi, List.getElem_cons_drop hi', List.getElem_cons_drop hi, List.take_append_drop]
  have hsorted := List.pairwise_map.mpr (S.sorted rows)
  rw [hsplit, List.map_append, List.map_cons, List.map_cons, heq] at hsorted
  obtain ⟨S', hS'⟩ : ∃ S' : Sorting key,
      S'.sort rows = (S.sort rows).take i ++ y :: x :: (S.sort rows).drop (i + 2) := by
    refine Sorting.exists_sort_eq ?_ (List.pairwise_map.mp ?_)
    · refine List.Perm.trans ?_ (S.perm rows)
      conv_rhs => rw [hsplit]
      exact (List.Perm.swap x y _).append_left _
    · rw [List.map_append, List.map_cons, List.map_cons, heq]
      exact hsorted
  refine ⟨S', ?_⟩
  have hlength : ((S.sort rows).take i).length = i := List.length_take_of_le hi.le
  rw [hS', List.getElem?_append_right (by omega), hlength, Nat.add_sub_cancel_left]
  rfl

/-- Pages each sorted on its own partition the rows, however ties are broken on each, exactly if no
page ends within a tie. -/
theorem partitions_sorted_iff (S : Sorting key) (hsize : 0 < size) (hrows : rows.Nodup) :
    (∀ orders : ℕ → Sorting key, Partitions (fun p ↦ page size ((orders p).sort rows) p) rows) ↔
      CutsNoTie size ((S.sort rows).map key) := by
  constructor
  · intro h p hp k hbefore hafter
    rw [List.getElem?_map, Option.map_eq_some_iff] at hbefore hafter
    obtain ⟨x, hx, hxk⟩ := hbefore
    obtain ⟨y, hy, hyk⟩ := hafter
    have hpos : 0 < p * size := Nat.mul_pos hp hsize
    rw [← Nat.sub_add_cancel hpos] at hy
    obtain ⟨S', hx'⟩ := S.exists_swap hx hy (hxk.trans hyk.symm)
    have hparts := h fun q ↦ if q = p then S' else S
    have hlast : x ∈ page size (S.sort rows) (p - 1) := by
      refine (mem_page_iff hsize).mpr ⟨p * size - 1, ?_, hx⟩
      obtain ⟨p, rfl⟩ := Nat.exists_eq_succ_of_ne_zero hp.ne'
      rw [Nat.succ_mul, Nat.add_sub_assoc hsize, Nat.mul_comm, Nat.mul_add_div hsize,
        Nat.div_eq_of_lt (by omega)]
      rfl
    have hfirst : x ∈ page size (S'.sort rows) p := by
      refine (mem_page_iff hsize).mpr ⟨_, ?_, hx'⟩
      rw [Nat.sub_add_cancel hpos, Nat.mul_div_cancel _ hsize]
    refine hparts.disjoint (p - 1) p (by omega) (a := x) ?_ ?_
    · simpa [show p - 1 ≠ p by omega] using hlast
    · simpa using hfirst
  · intro h orders
    have hpage (p : ℕ) (r : ρ) :
        r ∈ page size ((orders p).sort rows) p ↔ r ∈ page size (S.sort rows) p :=
      mem_page_sort_iff (orders p) S hsize h
    have hone := partitions_page hsize (nodup_sort S hrows)
    refine ⟨fun p ↦ (partitions_page hsize (nodup_sort (orders p) hrows)).nodup p,
      fun p q hne r hp hq ↦ ?_, fun r ↦ ?_⟩
    · exact hone.disjoint p q hne ((hpage p r).mp hp) ((hpage q r).mp hq)
    · simp only [hpage, hone.union, S.mem_sort]

end Ties

end TradingOS.Lib
