import Mathlib.Data.List.Basic

namespace TradingOS.Lib

/-- A call being served: what was asked, and where it stands. -/
structure Served (α φ : Type) where
  input : α
  phase : φ
  deriving DecidableEq

namespace Served

variable {α φ : Type} {calls : List (Served α φ)} {call call' : Served α φ} {phase : φ} {i j : ℕ}

def start (inputs : List α) (phase : φ) : List (Served α φ) := inputs.map (⟨·, phase⟩)

/-- One of the calls comes to another phase. -/
def move (calls : List (Served α φ)) (i : ℕ) (phase : φ) : List (Served α φ) :=
  calls.modify i fun call ↦ { call with phase := phase }

theorem phase_of_mem_start {inputs : List α} (h : call ∈ start inputs phase) : call.phase = phase := by
  obtain ⟨_, -, rfl⟩ := List.mem_map.mp h
  rfl

theorem getElem?_move_self (h : calls[i]? = some call) :
    (move calls i phase)[i]? = some { call with phase := phase } := by
  rw [move, List.getElem?_modify_eq, h]
  rfl

theorem getElem?_move_of_ne (h : j ≠ i) : (move calls i phase)[j]? = calls[j]? := by
  rw [move, List.getElem?_modify, Option.map_eq_map]
  simp [h.symm]

theorem move_move (phase phase' : φ) : move (move calls i phase) i phase' = move calls i phase' := by
  rw [move, move, List.modify_modify_eq]
  rfl

theorem of_getElem?_move (hi : calls[i]? = some call) (h : (move calls i phase)[j]? = some call') :
    j = i ∧ call' = { call with phase := phase } ∨ j ≠ i ∧ calls[j]? = some call' := by
  by_cases hj : j = i
  · subst hj
    exact .inl ⟨rfl, Option.some.inj (h.symm.trans (getElem?_move_self hi))⟩
  · exact .inr ⟨hj, (getElem?_move_of_ne hj).symm.trans h⟩

theorem mem_move_self (h : calls[i]? = some call) :
    { call with phase := phase } ∈ move calls i phase :=
  List.mem_of_getElem? (getElem?_move_self h)

/-- What holds of every call and of the phase that one of them comes to holds of all again. -/
theorem forall_mem_move {p : Served α φ → Prop} (hi : calls[i]? = some call)
    (hp : ∀ call ∈ calls, p call) (hnew : p { call with phase := phase }) :
    ∀ call ∈ move calls i phase, p call := by
  intro call' hmem
  obtain ⟨j, hj⟩ := List.mem_iff_getElem?.mp hmem
  rcases of_getElem?_move hi hj with ⟨-, rfl⟩ | ⟨-, hold⟩
  · exact hnew
  · exact hp call' (List.mem_of_getElem? hold)

variable (phase) in
/-- A phase that nobody leaves is still somebody's after a move. -/
theorem exists_mem_move {p : Served α φ → Prop} (hi : calls[i]? = some call) (hnot : ¬ p call)
    (h : ∃ call ∈ calls, p call) : ∃ call ∈ move calls i phase, p call := by
  obtain ⟨call', hmem, hp⟩ := h
  obtain ⟨j, hj⟩ := List.mem_iff_getElem?.mp hmem
  have hne : j ≠ i := by
    rintro rfl
    exact hnot (Option.some.inj (hi.symm.trans hj) ▸ hp)
  exact ⟨call', List.mem_of_getElem? ((getElem?_move_of_ne hne).trans hj), hp⟩

end Served

end TradingOS.Lib
