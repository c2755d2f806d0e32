import Mathlib.Algebra.BigOperators.Group.List.Basic
import Mathlib.Algebra.GroupWithZero.Nat
import Mathlib.Logic.Relation

namespace TradingOS.Lib

variable {α : Type*} (children : α → List α)

/-- Breadth first: the head of the queue is visited, its children join at the end. -/
def walkLoop : ℕ → List α → List α
  | 0, _ => []
  | _ + 1, [] => []
  | fuel + 1, a :: todo => a :: walkLoop fuel (todo ++ children a)

/-- A part of a tree, at any depth. -/
def Within (part tree : α) : Prop := Relation.ReflTransGen (fun a c ↦ c ∈ children a) tree part

variable {children}

theorem within_iff {part tree : α} :
    Within children part tree ↔ part = tree ∨ ∃ c ∈ children tree, Within children part c := by
  rw [Within, Relation.ReflTransGen.cases_head_iff, eq_comm]
  rfl

/-- With fuel for the whole queue the loop visits every part of it. -/
theorem mem_walkLoop {size : α → ℕ} (hsize : ∀ a, ((children a).map size).sum < size a) {fuel : ℕ}
    {todo : List α} (hfuel : (todo.map size).sum ≤ fuel) {part : α} :
    part ∈ walkLoop children fuel todo ↔ ∃ a ∈ todo, Within children part a := by
  induction fuel generalizing todo with
  | zero =>
    cases todo with
    | nil => simp [walkLoop]
    | cons a todo =>
      have ha := hsize a
      rw [List.map_cons, List.sum_cons] at hfuel
      omega
  | succ fuel ih =>
    cases todo with
    | nil => simp [walkLoop]
    | cons a todo =>
      have ha := hsize a
      rw [List.map_cons, List.sum_cons] at hfuel
      have hrest : ((todo ++ children a).map size).sum ≤ fuel := by
        rw [List.map_append, List.sum_append]
        omega
      have hqueue : (∃ b ∈ todo ++ children a, Within children part b) ↔
          (∃ b ∈ todo, Within children part b) ∨ ∃ c ∈ children a, Within children part c := by
        simp only [List.mem_append, or_and_right, exists_or]
      rw [walkLoop, List.mem_cons, ih hrest, hqueue, List.exists_mem_cons_iff, within_iff]
      exact (or_congr_right or_comm).trans or_assoc.symm

end TradingOS.Lib
