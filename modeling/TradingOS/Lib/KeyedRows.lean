import Mathlib.Data.List.Sort

namespace TradingOS.Lib

section LastOf

variable {ρ κ : Type*} [DecidableEq κ] (key : ρ → κ)

/-- The last of the rows with a key. -/
def lastOf (rows : List ρ) (k : κ) : Option ρ := (rows.filter (key · = k)).getLast?

/-- Of the rows with one key only the last is kept. -/
def uniqueLast (rows : List ρ) : List ρ := rows.pwFilter (key · ≠ key ·)

variable {key} {rows rows' : List ρ} {r : ρ} {k : κ}

theorem lastOf_append : lastOf key (rows ++ rows') k = (lastOf key rows' k).or (lastOf key rows k) := by
  rw [lastOf, List.filter_append, List.getLast?_append]
  rfl

theorem lastOf_cons :
    lastOf key (r :: rows) k = (lastOf key rows k).or (if key r = k then some r else none) := by
  rw [← List.singleton_append, lastOf_append]
  congr 1
  simp only [lastOf, List.filter_singleton]
  by_cases h : key r = k <;> simp [h]

theorem lastOf_map {f : ρ → ρ} (hf : ∀ r, key (f r) = key r) :
    lastOf key (rows.map f) k = (lastOf key rows k).map f := by
  rw [lastOf, List.filter_map, List.getLast?_map, lastOf]
  simp only [Function.comp_def, hf]

theorem lastOf_eq_none : lastOf key rows k = none ↔ ∀ r ∈ rows, key r ≠ k := by
  simp [lastOf]

theorem of_lastOf_eq_some (h : lastOf key rows k = some r) : r ∈ rows ∧ key r = k := by
  simpa using List.mem_of_getLast? h

theorem lastOf_of_nodup (h : (rows.map key).Nodup) (hr : r ∈ rows) :
    lastOf key rows (key r) = some r := by
  cases hlast : lastOf key rows (key r) with
  | none => exact absurd rfl (lastOf_eq_none.mp hlast r hr)
  | some r' =>
    obtain ⟨hr', hkey⟩ := of_lastOf_eq_some hlast
    rw [List.inj_on_of_nodup_map h hr' hr hkey]

theorem lastOf_eq_some_iff_of_nodup (h : (rows.map key).Nodup) :
    lastOf key rows k = some r ↔ r ∈ rows ∧ key r = k := by
  refine ⟨of_lastOf_eq_some, ?_⟩
  rintro ⟨hr, rfl⟩
  exact lastOf_of_nodup h hr

/-- What a list says of its own last rows it says of the keys it has. -/
theorem lastOf_filter {p : ρ → Bool} (hp : ∀ r ∈ rows, key r = k → p r) :
    lastOf key (rows.filter p) k = lastOf key rows k := by
  simp only [lastOf, List.filter_filter]
  congr 1
  refine List.filter_congr fun r hr ↦ ?_
  by_cases h : key r = k
  · simp [h, hp r hr h]
  · simp [h]

theorem nodup_uniqueLast : ((uniqueLast key rows).map key).Nodup :=
  List.pairwise_map.mpr (List.pairwise_pwFilter rows)

theorem forall_mem_uniqueLast {a : ρ} :
    (∀ b ∈ uniqueLast key rows, key a ≠ key b) ↔ ∀ b ∈ rows, key a ≠ key b :=
  List.forall_mem_pwFilter (fun {_ _ _} hxz ↦ or_iff_not_imp_left.mpr fun hxy hyz ↦
    hxz ((not_not.mp hxy).trans hyz)) a rows

theorem mem_uniqueLast : r ∈ uniqueLast key rows ↔ lastOf key rows (key r) = some r := by
  induction rows with
  | nil => simp [uniqueLast, lastOf]
  | cons a rows ih =>
    rw [lastOf_cons]
    by_cases ha : ∀ b ∈ rows, key a ≠ key b
    · have hunique : uniqueLast key (a :: rows) = a :: uniqueLast key rows :=
        List.pwFilter_cons_of_pos (forall_mem_uniqueLast.mpr ha)
      rw [hunique, List.mem_cons, ih]
      by_cases hkey : key a = key r
      · have hnone : lastOf key rows (key r) = none :=
          lastOf_eq_none.mpr fun b hb he ↦ ha b hb (hkey.trans he.symm)
        simp [hnone, hkey, eq_comm]
      · have hne : r ≠ a := fun he ↦ hkey (congrArg key he.symm)
        simp [hkey, hne]
    · have hunique : uniqueLast key (a :: rows) = uniqueLast key rows :=
        List.pwFilter_cons_of_neg fun h ↦ ha (forall_mem_uniqueLast.mp h)
      rw [hunique, ih]
      by_cases hkey : key a = key r
      · have hsome : lastOf key rows (key r) ≠ none := fun hnone ↦
          ha fun b hb he ↦ lastOf_eq_none.mp hnone b hb (he.symm.trans hkey)
        obtain ⟨r', hr'⟩ := Option.ne_none_iff_exists'.mp hsome
        simp [hr']
      · simp [hkey]

end LastOf

section Sorting

variable {ρ τ : Type*} [LinearOrder τ] {key : ρ → τ}

/-- A sort by a key, which may leave rows of the same key in any order. -/
structure Sorting (key : ρ → τ) where
  sort : List ρ → List ρ
  perm : ∀ rows, (sort rows).Perm rows
  sorted : ∀ rows, (sort rows).Pairwise (key · ≤ key ·)

namespace Sorting

def insertion (key : ρ → τ) : Sorting key where
  sort := List.insertionSort (key · ≤ key ·)
  perm := List.perm_insertionSort _
  sorted := by
    have htotal : Std.Total (α := ρ) (key · ≤ key ·) := ⟨fun a b ↦ le_total (key a) (key b)⟩
    have htrans : IsTrans ρ (key · ≤ key ·) := ⟨fun _ _ _ ↦ le_trans⟩
    exact List.pairwise_insertionSort _

variable (S : Sorting key) {rows : List ρ}

@[simp] theorem mem_sort {r : ρ} : r ∈ S.sort rows ↔ r ∈ rows := (S.perm rows).mem_iff

theorem pairwise_lt_sort (h : (rows.map key).Nodup) : (S.sort rows).Pairwise (key · < key ·) := by
  have hne : (S.sort rows).Pairwise (key · ≠ key ·) :=
    List.pairwise_map.mp (((S.perm rows).map key).nodup_iff.mpr h)
  exact ((S.sorted rows).and hne).imp fun h ↦ lt_of_le_of_ne h.1 h.2

end Sorting

theorem nodup_map_of_pairwise_lt {rows : List ρ} (h : rows.Pairwise (key · < key ·)) :
    (rows.map key).Nodup :=
  List.pairwise_map.mpr (h.imp ne_of_lt)

/-- Down a strict order, the rows before the first that fails are those at and above which none
fails. -/
theorem takeWhile_eq_filter {rows : List ρ} (h : rows.Pairwise fun r r' ↦ key r' < key r)
    (p : ρ → Bool) :
    rows.takeWhile p = rows.filter fun r ↦ ∀ r' ∈ rows, key r ≤ key r' → p r' := by
  induction rows with
  | nil => rfl
  | cons a rows ih =>
    obtain ⟨ha, hrows⟩ := List.pairwise_cons.mp h
    by_cases hp : p a = true
    · have htop : ∀ r' ∈ a :: rows, key a ≤ key r' → p r' := by
        intro r' hr' hle
        rcases List.mem_cons.mp hr' with rfl | hr'
        · exact hp
        · exact absurd hle (ha r' hr').not_ge
      rw [List.takeWhile_cons_of_pos hp, ih hrows, List.filter_cons, if_pos (decide_eq_true htop)]
      refine congrArg (a :: ·) (List.filter_congr fun r hr ↦ ?_)
      simp [hp]
    · rw [List.takeWhile_cons_of_neg hp, eq_comm, List.filter_eq_nil_iff]
      intro r hr hclean
      refine hp (of_decide_eq_true hclean a List.mem_cons_self ?_)
      rcases List.mem_cons.mp hr with rfl | hr
      · exact le_rfl
      · exact (ha r hr).le

/-- Rows in strict order are known by their set. -/
theorem eq_of_pairwise_lt (key : ρ → τ) {rows rows' : List ρ} (h : rows.Pairwise (key · < key ·))
    (h' : rows'.Pairwise (key · < key ·)) (hmem : ∀ r, r ∈ rows ↔ r ∈ rows') : rows = rows' := by
  have hnodup {l : List ρ} (hl : l.Pairwise (key · < key ·)) : l.Nodup :=
    (nodup_map_of_pairwise_lt hl).of_map key
  refine ((List.perm_ext_iff_of_nodup (hnodup h) (hnodup h')).mpr hmem).eq_of_pairwise ?_ h h'
  exact fun a b _ _ hab hba ↦ absurd hab hba.not_gt

end Sorting

end TradingOS.Lib
