import Mathlib.Algebra.Group.Nat.Defs
import Mathlib.Algebra.Ring.Int.Defs
import Mathlib.Data.List.Infix
import Mathlib.Data.Int.Notation

namespace TradingOS.Lib

/-- A finite float, as its shortest round-trip form writes it: two floats are the same exactly if
these forms are. -/
inductive PyFloat
  | fixed (negative : Bool) (whole : ℕ) (fraction : List (Fin 10))
  | scientific (negative : Bool) (lead : Fin 10) (fraction : List (Fin 10)) (exponent : ℤ)
  deriving DecidableEq

namespace PyFloat

def negative : PyFloat → Bool
  | fixed negative .. | scientific negative .. => negative

/-- The digits without the point. -/
def significand : PyFloat → ℕ
  | fixed _ whole fraction => fraction.foldl (fun n d ↦ 10 * n + d) whole
  | scientific _ lead fraction _ => fraction.foldl (fun n d ↦ 10 * n + d) lead

/-- The power of ten that the digits count. -/
def shift : PyFloat → ℤ
  | fixed _ _ fraction => -fraction.length
  | scientific _ _ fraction exponent => exponent - fraction.length

def integral (x : PyFloat) : Bool := x.significand % 10 ^ (-x.shift).toNat = 0

/-- The value, without what stands after the point. -/
def truncated (x : PyFloat) : ℤ :=
  let n : ℤ := x.significand * 10 ^ x.shift.toNat / 10 ^ (-x.shift).toNat
  if x.negative then -n else n

def abs : PyFloat → PyFloat
  | fixed _ whole fraction => fixed false whole fraction
  | scientific _ lead fraction exponent => scientific false lead fraction exponent

theorem abs_eq_self {x : PyFloat} : x.abs = x ↔ x.negative = false := by
  cases x <;> simp [abs, negative, eq_comm]

end PyFloat

inductive Leaf
  | null
  | bool (b : Bool)
  | int (n : ℤ)
  | float (x : PyFloat)
  | str (s : String)
  deriving DecidableEq

/-- Nested values over the leaves, with mappings in the order of their entries. -/
inductive Json (κ : Type)
  | leaf (a : Leaf)
  | list (items : List (Json κ))
  | dict (entries : List (κ × Json κ))

namespace Json

variable {κ β : Type}

section Fold

variable (leaf : Leaf → β) (list : List β → β) (dict : List (κ × β) → β)

mutual

def fold : Json κ → β
  | .leaf a => leaf a
  | .list items => list (foldItems items)
  | .dict entries => dict (foldEntries entries)

def foldItems : List (Json κ) → List β
  | [] => []
  | d :: ds => fold d :: foldItems ds

def foldEntries : List (κ × Json κ) → List (κ × β)
  | [] => []
  | (k, d) :: es => (k, fold d) :: foldEntries es

end

theorem foldItems_eq (items : List (Json κ)) :
    foldItems leaf list dict items = items.map (fold leaf list dict) := by
  induction items with
  | nil => rfl
  | cons d ds ih => rw [foldItems, ih, List.map_cons]

theorem foldEntries_eq (entries : List (κ × Json κ)) :
    foldEntries leaf list dict entries =
      entries.map fun e ↦ (e.1, fold leaf list dict e.2) := by
  induction entries with
  | nil => rfl
  | cons e es ih =>
    obtain ⟨k, d⟩ := e
    rw [foldEntries, ih, List.map_cons]

@[simp] theorem fold_leaf (a : Leaf) : fold leaf list dict (.leaf a) = leaf a := rfl

@[simp] theorem fold_list (items : List (Json κ)) :
    fold leaf list dict (.list items) = list (items.map (fold leaf list dict)) := by
  rw [fold, foldItems_eq]

@[simp] theorem fold_dict (entries : List (κ × Json κ)) :
    fold leaf list dict (.dict entries) =
      dict (entries.map fun e ↦ (e.1, fold leaf list dict e.2)) := by
  rw [fold, foldEntries_eq]

end Fold

theorem ind {P : Json κ → Prop} (hleaf : ∀ a, P (.leaf a))
    (hlist : ∀ items, (∀ d ∈ items, P d) → P (.list items))
    (hdict : ∀ entries, (∀ e ∈ entries, P e.2) → P (.dict entries)) : ∀ d, P d
  | .leaf a => hleaf a
  | .list items => hlist items fun d _ ↦ ind hleaf hlist hdict d
  | .dict entries => hdict entries fun e _ ↦ ind hleaf hlist hdict e.2
termination_by d => sizeOf d
decreasing_by
  · simp only [list.sizeOf_spec]
    have hlt := List.sizeOf_lt_of_mem ‹d ∈ items›
    omega
  · simp only [dict.sizeOf_spec]
    have hlt := List.sizeOf_lt_of_mem ‹e ∈ entries›
    obtain ⟨k, d⟩ := e
    simp only [Prod.mk.sizeOf_spec] at hlt
    dsimp only
    omega

end Json

end TradingOS.Lib
