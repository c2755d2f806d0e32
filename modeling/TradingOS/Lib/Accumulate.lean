import Mathlib.Order.MinMax

namespace TradingOS.Lib

variable {α : Type*}

/-- The results of `f` on each nonempty initial segment. -/
def accumulate (f : α → α → α) : List α → List α
  | [] => []
  | a :: l => l.scanl f a

theorem length_accumulate (f : α → α → α) (l : List α) : (accumulate f l).length = l.length := by
  cases l with
  | nil => rfl
  | cons a l => exact List.length_scanl

/-- With a neutral element in front, an accumulation begins with it. -/
theorem cons_accumulate {f : α → α → α} {e : α} (he : ∀ a, f e a = a) (l : List α) :
    e :: accumulate f l = l.scanl f e := by
  cases l with
  | nil => simp [accumulate]
  | cons a l => rw [List.scanl_cons, he, accumulate]

theorem max?_eq_some [LinearOrder α] {l : List α} {m : α} :
    l.max? = some m ↔ m ∈ l ∧ ∀ b ∈ l, b ≤ m := by
  have _ : Std.LawfulOrderMax α := .of_max_le_iff (fun _ _ _ ↦ max_le_iff) fun a b ↦
    (le_total a b).elim (fun hle ↦ .inr (max_eq_right hle)) fun hle ↦ .inl (max_eq_left hle)
  exact List.max?_eq_some_iff

/-- A running maximum is the greatest of the entries so far. -/
theorem accumulate_max [LinearOrder α] {l : List α} {k : ℕ} {m : α}
    (h : (accumulate max l)[k]? = some m) :
    (∃ i ≤ k, l[i]? = some m) ∧ ∀ i ≤ k, ∀ b, l[i]? = some b → b ≤ m := by
  cases l with
  | nil => cases h
  | cons a l =>
    have hmax : ((a :: l).take (k + 1)).max? = some m := by
      rw [accumulate, List.getElem?_scanl] at h
      split at h
      · rw [List.take_succ_cons, List.max?_cons']
        exact h
      · cases h
    obtain ⟨hmem, hupper⟩ := max?_eq_some.mp hmax
    constructor
    · obtain ⟨i, hi, hget⟩ := List.mem_take_iff_getElem.mp hmem
      exact ⟨i, by omega, List.getElem?_eq_some_iff.mpr ⟨by omega, hget⟩⟩
    · intro i hi b hb
      obtain ⟨hlt, hget⟩ := List.getElem?_eq_some_iff.mp hb
      exact hupper b (List.mem_take_iff_getElem.mpr ⟨i, by omega, hget⟩)

end TradingOS.Lib
