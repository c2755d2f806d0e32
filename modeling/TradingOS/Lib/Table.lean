import Mathlib.Algebra.BigOperators.Group.List.Basic
import Mathlib.Data.List.Induction
import Mathlib.Data.List.Nodup
import Mathlib.Tactic.Abel
import TradingOS.Lib.KeyedRows
import TradingOS.Lib.Lists

namespace TradingOS.Lib

/-- Rows under distinct keys, in the order they were added: a database table with its
primary key, or a mapping that keeps insertion order. -/
structure Table (κ ρ : Type*) where
  rows : List (κ × ρ)
  nodup : (rows.map Prod.fst).Nodup
  deriving DecidableEq

namespace Table

variable {κ ρ : Type*}

def empty : Table κ ρ := ⟨[], List.nodup_nil⟩

def keys (T : Table κ ρ) : List κ := T.rows.map Prod.fst

def values (T : Table κ ρ) : List ρ := T.rows.map Prod.snd

def mapVals (T : Table κ ρ) (f : κ → ρ → ρ) : Table κ ρ where
  rows := T.rows.map fun r ↦ (r.1, f r.1 r.2)
  nodup := by simpa only [List.map_map, Function.comp_def] using T.nodup

@[simp] theorem keys_mapVals (T : Table κ ρ) (f : κ → ρ → ρ) : (T.mapVals f).keys = T.keys := by
  simp [keys, mapVals, Function.comp_def]

section Lookup

variable [DecidableEq κ]

def get? (T : Table κ ρ) (k : κ) : Option ρ := T.rows.lookup k

def modify (T : Table κ ρ) (k : κ) (f : ρ → ρ) : Table κ ρ :=
  T.mapVals fun k' v ↦ if k' = k then f v else v

/-- Adds a row at the end unless its key is taken. -/
def setdefault (T : Table κ ρ) (k : κ) (v : ρ) : Table κ ρ :=
  if h : k ∈ T.keys then T else
    { rows := T.rows ++ [(k, v)]
      nodup := by
        rw [List.map_append]
        exact T.nodup.append (List.nodup_singleton k) (by simpa [keys] using h) }

/-- Adds a row at the end, in place of the one that has its key. -/
def put (T : Table κ ρ) (k : κ) (v : ρ) : Table κ ρ where
  rows := T.rows.filter (·.1 ≠ k) ++ [(k, v)]
  nodup := by
    have hrest := T.nodup.sublist ((List.filter_sublist (p := (·.1 ≠ k))).map Prod.fst)
    rw [List.map_append]
    refine hrest.append (List.nodup_singleton k) ?_
    simp

def erase (T : Table κ ρ) (k : κ) : Table κ ρ where
  rows := T.rows.filter (·.1 ≠ k)
  nodup := T.nodup.sublist (List.filter_sublist.map Prod.fst)

/-- Puts a row in the place of the one that has its key, at the end if there is none. -/
def assign (T : Table κ ρ) (k : κ) (v : ρ) : Table κ ρ := (T.setdefault k v).modify k fun _ ↦ v

theorem mem_put (T : Table κ ρ) {k k' : κ} {v v' : ρ} :
    (k', v') ∈ (T.put k v).rows ↔ if k' = k then v' = v else (k', v') ∈ T.rows := by
  by_cases h : k' = k <;> simp [put, h]

theorem lookup_eq_some_iff_mem {l : List (κ × ρ)} (hl : (l.map Prod.fst).Nodup) {k : κ} {v : ρ} :
    l.lookup k = some v ↔ (k, v) ∈ l := by
  induction l with
  | nil => simp
  | cons r l ih =>
    obtain ⟨k', v'⟩ := r
    simp only [List.map_cons, List.nodup_cons, List.mem_map, not_exists, not_and] at hl
    by_cases h : k = k'
    · subst h
      simp only [List.lookup_cons_self, Option.some.injEq, List.mem_cons, Prod.mk.injEq, true_and]
      constructor
      · exact fun h ↦ .inl h.symm
      · rintro (h | h)
        · exact h.symm
        · exact absurd rfl (hl.1 _ h)
    · have hb : (k == k') = false := by simpa using h
      simp only [List.lookup_cons, hb, List.mem_cons, Prod.mk.injEq, h, false_and, false_or]
      exact ih hl.2

theorem get?_eq_some (T : Table κ ρ) {k : κ} {v : ρ} : T.get? k = some v ↔ (k, v) ∈ T.rows :=
  lookup_eq_some_iff_mem T.nodup

theorem lookup_eq_none_iff_notMem {l : List (κ × ρ)} {k : κ} :
    l.lookup k = none ↔ k ∉ l.map Prod.fst := by
  simp only [List.lookup_eq_none_iff, List.mem_map, not_exists, not_and, bne_iff_ne]
  exact ⟨fun h r hr he ↦ h r hr he.symm, fun h r hr he ↦ h r hr he.symm⟩

theorem get?_put (T : Table κ ρ) (k : κ) (v : ρ) (k' : κ) :
    (T.put k v).get? k' = if k' = k then some v else T.get? k' := by
  refine Option.ext fun w ↦ ?_
  rw [get?_eq_some, mem_put]
  split
  · rw [Option.some.injEq, eq_comm]
  · exact T.get?_eq_some.symm

/-- Writes under distinct keys do not see each other. -/
theorem get?_foldl_put {f : κ → Option ρ → ρ} {ks : List κ} (hks : ks.Nodup) (T : Table κ ρ)
    (k : κ) : (ks.foldl (fun T k ↦ T.put k (f k (T.get? k))) T).get? k =
      if k ∈ ks then some (f k (T.get? k)) else T.get? k := by
  induction ks generalizing T with
  | nil => rfl
  | cons k₀ ks ih =>
    obtain ⟨hnotin, hks⟩ := List.nodup_cons.mp hks
    rw [List.foldl_cons, ih hks, get?_put]
    by_cases h : k = k₀
    · subst h
      simp [hnotin]
    · simp [h]

theorem get?_eq_none (T : Table κ ρ) {k : κ} : T.get? k = none ↔ k ∉ T.keys :=
  lookup_eq_none_iff_notMem

theorem mem_values (T : Table κ ρ) {v : ρ} : v ∈ T.values ↔ ∃ k, T.get? k = some v := by
  simp only [values, List.mem_map, Prod.exists, get?_eq_some, exists_eq_right]

@[simp] theorem get?_mapVals (T : Table κ ρ) (f : κ → ρ → ρ) (k : κ) :
    (T.mapVals f).get? k = (T.get? k).map (f k) := by
  simp only [get?, mapVals]
  induction T.rows with
  | nil => rfl
  | cons r l ih =>
    obtain ⟨a, v⟩ := r
    by_cases h : k = a
    · subst h
      simp only [List.map_cons, List.lookup_cons_self, Option.map_some]
    · have hb : (k == a) = false := by simpa using h
      simpa only [List.map_cons, List.lookup_cons, hb] using ih

theorem mapVals_eq_self (T : Table κ ρ) {f : κ → ρ → ρ}
    (hf : ∀ k v, T.get? k = some v → f k v = v) : T.mapVals f = T := by
  obtain ⟨rows, hnd⟩ := T
  simp only [mapVals, mk.injEq]
  have hmap : (rows.map fun r ↦ (r.1, f r.1 r.2)) = rows.map id := by
    apply List.map_congr_left
    rintro ⟨k, v⟩ hr
    rw [hf k v ((get?_eq_some ⟨rows, hnd⟩).mpr hr), id]
  rw [hmap, List.map_id]

theorem get?_modify (T : Table κ ρ) (k : κ) (f : ρ → ρ) (k' : κ) :
    (T.modify k f).get? k' = if k' = k then (T.get? k').map f else T.get? k' := by
  rw [modify, get?_mapVals]
  split <;> simp_all

theorem get?_setdefault (T : Table κ ρ) (k : κ) (v : ρ) (k' : κ) :
    (T.setdefault k v).get? k' = if k' = k then some ((T.get? k).getD v) else T.get? k' := by
  simp only [setdefault]
  split
  · next h =>
    split
    · next he =>
      subst he
      obtain ⟨w, hw⟩ := Option.ne_none_iff_exists'.mp fun hn ↦ T.get?_eq_none.mp hn h
      simp [hw]
    · rfl
  · next h =>
    have hn : T.rows.lookup k = none := T.get?_eq_none.mpr h
    by_cases he : k' = k
    · subst he
      simp [get?, List.lookup_append, hn]
    · have hb : (k' == k) = false := by simpa using he
      simp [get?, List.lookup_append, List.lookup_cons, hb, he]

/-- Rows added in turn leave each key with the first that has it. -/
theorem get?_foldl_setdefault (key : ρ → κ) (l : List ρ) (T : Table κ ρ) (k : κ) :
    (l.foldl (fun T a ↦ T.setdefault (key a) a) T).get? k =
      (T.get? k).or (l.find? (key · = k)) := by
  induction l generalizing T with
  | nil => simp
  | cons a l ih =>
    rw [List.foldl_cons, ih, get?_setdefault]
    by_cases h : key a = k
    · subst h
      cases hT : T.get? (key a) <;> simp
    · simp [h, Ne.symm h]

theorem get?_assign (T : Table κ ρ) (k : κ) (v : ρ) (k' : κ) :
    (T.assign k v).get? k' = if k' = k then some v else T.get? k' := by
  rw [assign, get?_modify, get?_setdefault]
  split <;> rfl

theorem get?_erase (T : Table κ ρ) (k k' : κ) :
    (T.erase k).get? k' = if k' = k then none else T.get? k' := by
  refine Option.ext fun w ↦ ?_
  rw [get?_eq_some]
  split
  · next h => simp [erase, h]
  · next h => simp [erase, h, get?_eq_some]

theorem get?_erase_eq_some (T : Table κ ρ) {k k' : κ} {v : ρ} :
    (T.erase k).get? k' = some v ↔ k' ≠ k ∧ T.get? k' = some v := by
  rw [get?_erase]
  split
  · next h => exact iff_of_false (Option.some_ne_none v ∘ Eq.symm) fun hor ↦ hor.1 h
  · next h => exact (and_iff_right h).symm

theorem rows_erase_of_none (T : Table κ ρ) {k : κ} (h : T.get? k = none) :
    (T.erase k).rows = T.rows := by
  refine List.filter_eq_self.mpr fun r hr ↦ ?_
  have hne : r.1 ≠ k := fun he ↦ T.get?_eq_none.mp h (he ▸ List.mem_map_of_mem hr)
  simpa using hne

theorem rows_perm_erase (T : Table κ ρ) {k : κ} {v : ρ} (h : T.get? k = some v) :
    T.rows.Perm ((k, v) :: (T.erase k).rows) := by
  have hown : T.rows.filter (fun r ↦ decide (r.1 = k)) = [(k, v)] :=
    filter_key_eq_singleton T.nodup (T.get?_eq_some.mp h)
  have hrest : T.rows.filter (fun r ↦ !decide (r.1 = k)) = (T.erase k).rows :=
    List.filter_congr fun r _ ↦ by simp
  have hsplit := List.filter_append_perm (fun r ↦ decide (r.1 = k)) T.rows
  rw [hown, hrest] at hsplit
  exact hsplit.symm

/-- Assignments in turn leave each key with the last value it was given. -/
theorem get?_foldl_assign {α : Type*} (key : α → κ) (value : α → ρ) (l : List α) (T : Table κ ρ)
    (k : κ) : (l.foldl (fun T a ↦ T.assign (key a) (value a)) T).get? k =
      ((lastOf key l k).map value).or (T.get? k) := by
  induction l generalizing T with
  | nil => rfl
  | cons a l ih =>
    rw [List.foldl_cons, ih, get?_assign, lastOf_cons]
    cases hlast : lastOf key l k with
    | some b => rfl
    | none =>
      by_cases h : key a = k
      · simp [h]
      · simp [h, Ne.symm h]

@[simp] theorem keys_modify (T : Table κ ρ) (k : κ) (f : ρ → ρ) : (T.modify k f).keys = T.keys :=
  T.keys_mapVals _

theorem rows_setdefault (T : Table κ ρ) {k : κ} {v : ρ} (h : k ∉ T.keys) :
    (T.setdefault k v).rows = T.rows ++ [(k, v)] := by
  simp only [setdefault, dif_neg h]

theorem mem_keys_setdefault (T : Table κ ρ) {k k' : κ} {v : ρ} :
    k' ∈ (T.setdefault k v).keys ↔ k' = k ∨ k' ∈ T.keys := by
  simp only [setdefault]
  split
  · next h => exact (or_iff_right_of_imp fun he ↦ he ▸ h).symm
  · simp [keys, or_comm]

/-- The rows of a list by their key, each group in the order of the list. -/
def group {α : Type*} (key : α → κ) (l : List α) : Table κ (List α) :=
  l.foldl (fun T a ↦ (T.setdefault (key a) []).modify (key a) (· ++ [a])) empty

theorem get?_group {α : Type*} (key : α → κ) (l : List α) (k : κ) :
    (group key l).get? k =
      if k ∈ l.map key then some (l.filter (key · = k)) else none := by
  induction l using List.reverseRecOn with
  | nil => rfl
  | append_singleton l a ih =>
    have hlast : group key (l ++ [a]) =
        ((group key l).setdefault (key a) []).modify (key a) (· ++ [a]) := by
      rw [group, List.foldl_append]
      rfl
    rw [hlast, get?_modify, get?_setdefault]
    by_cases h : k = key a
    · subst h
      rw [if_pos rfl, if_pos rfl, ih]
      split
      · simp
      · next hnew =>
        have hnone : l.filter (key · = key a) = [] :=
          List.filter_eq_nil_iff.mpr fun b hb he ↦
            hnew (of_decide_eq_true he ▸ List.mem_map_of_mem hb)
        simp [hnone]
    · rw [if_neg h, if_neg h, ih]
      simp [h, Ne.symm h]

end Lookup

section Sums

variable {M : Type*} [AddCommGroup M] (w : κ → ρ → M)

def total (T : Table κ ρ) : M := (T.rows.map fun r ↦ w r.1 r.2).sum

theorem total_add (w w' : κ → ρ → M) (T : Table κ ρ) :
    T.total (fun k v ↦ w k v + w' k v) = T.total w + T.total w' := by
  simp only [total, List.sum_map_add]

variable [DecidableEq κ]

theorem total_setdefault (T : Table κ ρ) (k : κ) (v : ρ) (hv : w k v = 0) :
    (T.setdefault k v).total w = T.total w := by
  simp only [setdefault]
  split
  · rfl
  · simp [total, hv]

theorem total_modify (T : Table κ ρ) {k : κ} {v : ρ} (f : ρ → ρ) (h : T.get? k = some v) :
    (T.modify k f).total w = T.total w + (w k (f v) - w k v) := by
  obtain ⟨rows, hnd⟩ := T
  have hmem : (k, v) ∈ rows := get?_eq_some _ |>.mp h
  clear h
  simp only [total, modify, mapVals, List.map_map, Function.comp_def]
  induction rows with
  | nil => cases hmem
  | cons r l ih =>
    simp only [List.map_cons, List.nodup_cons, List.mem_map, not_exists, not_and] at hnd
    simp only [List.map_cons, List.sum_cons]
    rcases List.mem_cons.mp hmem with rfl | hl
    · have hrest : (l.map fun r ↦ w r.1 (if r.1 = k then f r.2 else r.2)) =
          l.map fun r ↦ w r.1 r.2 := by
        apply List.map_congr_left
        intro r hr
        rw [if_neg (hnd.1 r hr)]
      rw [hrest, if_pos rfl]
      abel
    · have hne : r.1 ≠ k := fun he ↦ hnd.1 _ hl he.symm
      rw [ih hnd.2 hl, if_neg hne]
      abel

theorem total_erase (T : Table κ ρ) (k : κ) :
    (T.erase k).total w = T.total w - (T.get? k).elim 0 (w k) := by
  cases h : T.get? k with
  | none => simp only [total, T.rows_erase_of_none h, Option.elim_none, sub_zero]
  | some v =>
    have hsum := ((T.rows_perm_erase h).map fun r ↦ w r.1 r.2).sum_eq
    rw [List.map_cons, List.sum_cons] at hsum
    simp only [total, hsum, Option.elim_some, add_sub_cancel_left]

theorem total_assign (T : Table κ ρ) (k : κ) (v : ρ) :
    (T.assign k v).total w = T.total w + (w k v - (T.get? k).elim 0 (w k)) := by
  have hget := T.get?_setdefault k v k
  rw [if_pos rfl] at hget
  rw [assign, total_modify w _ _ hget]
  cases h : T.get? k with
  | none =>
    have hnew := T.rows_setdefault (v := v) (T.get?_eq_none.mp h)
    simp only [total, hnew, List.map_append, List.sum_append, List.map_cons, List.map_nil,
      List.sum_singleton, Option.getD_none, Option.elim_none]
    abel
  | some v' =>
    have hold : k ∈ T.keys := by
      by_contra hn
      rw [T.get?_eq_none.mpr hn] at h
      cases h
    simp only [setdefault, hold, dif_pos, Option.getD_some, Option.elim_some]

end Sums

end Table

end TradingOS.Lib
