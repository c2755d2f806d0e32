import Mathlib.Data.List.TakeWhile
import Mathlib.Data.Nat.Notation

namespace TradingOS.Lib.Segments

variable {α β ρ : Type*} (marker : α → Bool) (record : β → α → β) (start : β)

/-- What is recorded from a point of a log up to the next marker. -/
def recorded (later : List α) : β := (later.takeWhile fun a ↦ !marker a).foldl record start

variable {marker record start} {later : List α} {a : α}

theorem takeWhile_append_of_marked (h : later.any marker) :
    (later ++ [a]).takeWhile (fun a ↦ !marker a) = later.takeWhile fun a ↦ !marker a := by
  obtain ⟨b, hb, hmarker⟩ := List.any_eq_true.mp h
  rw [List.takeWhile_append, if_neg]
  intro hlength
  have hall := List.takeWhile_eq_self_iff.mp
    ((List.takeWhile_prefix fun a ↦ !marker a).eq_of_length hlength) b hb
  rw [hmarker] at hall
  cases hall

theorem takeWhile_of_unmarked (h : later.any marker = false) :
    later.takeWhile (fun a ↦ !marker a) = later := by
  apply List.takeWhile_eq_self_iff.mpr
  intro b hb
  simpa using List.any_eq_false.mp h b hb

theorem recorded_append_of_marked (h : later.any marker) :
    recorded marker record start (later ++ [a]) = recorded marker record start later := by
  rw [recorded, takeWhile_append_of_marked h, recorded]

theorem recorded_append_of_unmarked (h : later.any marker = false) :
    recorded marker record start (later ++ [a]) =
      if marker a then recorded marker record start later
      else record (recorded marker record start later) a := by
  rw [recorded, recorded, List.takeWhile_append, if_pos (by rw [takeWhile_of_unmarked h]),
    takeWhile_of_unmarked h, List.foldl_append]
  cases hmarker : marker a <;> simp [hmarker]

/-- Rows that stem from entries of a log and collect what is recorded up to the next marker. The
current one is the row after which no marker has come yet. -/
structure Segmented (marker : α → Bool) (record : β → α → β) (start : β) (entry : ρ → ℕ)
    (value : ρ → β) (log : List α) (rows : List ρ) (current : Option ℕ) : Prop where
  entry_lt : ∀ (i : ℕ) r, rows[i]? = some r → entry r < log.length
  value_eq : ∀ (i : ℕ) r, rows[i]? = some r →
    value r = recorded marker record start (log.drop (entry r + 1))
  current_iff : ∀ (i : ℕ) r, rows[i]? = some r →
    (current = some i ↔ (log.drop (entry r + 1)).any marker = false)

def modifyCurrent (current : Option ℕ) (update : ρ → ρ) (rows : List ρ) : List ρ :=
  current.elim rows fun i ↦ rows.modify i update

theorem getElem?_modifyCurrent (current : Option ℕ) (update : ρ → ρ) (rows : List ρ) (i : ℕ) :
    (modifyCurrent current update rows)[i]? =
      (rows[i]?).map fun r ↦ if current = some i then update r else r := by
  cases current with
  | none => simp [modifyCurrent]
  | some k =>
    rw [modifyCurrent, Option.elim_some, List.getElem?_modify]
    simp only [Option.some.injEq]
    rfl

theorem modifyCurrent_eq_self {update : ρ → ρ} (h : ∀ r, update r = r) (current : Option ℕ)
    (rows : List ρ) : modifyCurrent current update rows = rows := by
  obtain rfl : update = id := funext h
  cases current with
  | none => rfl
  | some i => simp [modifyCurrent]

theorem modifyCurrent_nil (current : Option ℕ) (update : ρ → ρ) :
    modifyCurrent current update [] = [] := by
  cases current <;> simp [modifyCurrent]

namespace Segmented

variable {entry : ρ → ℕ} {value : ρ → β} {log : List α} {rows : List ρ} {current : Option ℕ}

theorem nil (log : List α) (current : Option ℕ) :
    Segmented marker record start entry value log [] current :=
  ⟨nofun, nofun, nofun⟩

/-- An entry that is no marker is recorded in the current row. -/
theorem extend (h : Segmented marker record start entry value log rows current)
    (ha : marker a = false) {update : ρ → ρ} (hentry : ∀ r, entry (update r) = entry r)
    (hvalue : ∀ r, value (update r) = record (value r) a) :
    Segmented marker record start entry value (log ++ [a]) (modifyCurrent current update rows)
      current := by
  have hrow {i : ℕ} {r : ρ} (hr : (modifyCurrent current update rows)[i]? = some r) :
      ∃ r', rows[i]? = some r' ∧ entry r = entry r' ∧
        value r = if current = some i then record (value r') a else value r' := by
    rw [getElem?_modifyCurrent] at hr
    obtain ⟨r', hr', rfl⟩ := Option.map_eq_some_iff.mp hr
    refine ⟨r', hr', ?_, ?_⟩
    · split
      · exact hentry r'
      · rfl
    · split
      · exact hvalue r'
      · rfl
  have hdrop {i : ℕ} {r : ρ} (hr : rows[i]? = some r) :
      (log ++ [a]).drop (entry r + 1) = log.drop (entry r + 1) ++ [a] :=
    List.drop_append_of_le_length (h.entry_lt i r hr)
  constructor
  · intro i r hr
    obtain ⟨r', hr', hrun, -⟩ := hrow hr
    rw [hrun, List.length_append]
    exact Nat.lt_add_right 1 (h.entry_lt i r' hr')
  · intro i r hr
    obtain ⟨r', hr', hrun, hval⟩ := hrow hr
    rw [hval, hrun, hdrop hr', h.value_eq i r' hr']
    split
    · next hcurrent =>
      rw [recorded_append_of_unmarked ((h.current_iff i r' hr').mp hcurrent), ha]
      rfl
    · next hcurrent =>
      have hmarked := mt (h.current_iff i r' hr').mpr hcurrent
      rw [recorded_append_of_marked (by simpa using hmarked)]
  · intro i r hr
    obtain ⟨r', hr', hrun, -⟩ := hrow hr
    rw [hrun, hdrop hr', List.any_append, h.current_iff i r' hr']
    simp [ha]

/-- A marker begins a new row, which becomes the current one. -/
theorem mark (h : Segmented marker record start entry value log rows current) (ha : marker a)
    {r : ρ} (hentry : entry r = log.length) (hvalue : value r = start) :
    Segmented marker record start entry value (log ++ [a]) (rows ++ [r]) (some rows.length) := by
  have hrow {i : ℕ} {r' : ρ} (hr : (rows ++ [r])[i]? = some r') :
      rows[i]? = some r' ∧ i < rows.length ∨ i = rows.length ∧ r' = r := by
    rw [List.getElem?_append] at hr
    split at hr
    · next hlt => exact .inl ⟨hr, hlt⟩
    · next hge =>
      obtain ⟨hi, hr⟩ := List.getElem?_eq_some_iff.mp hr
      rw [List.length_singleton] at hi
      exact .inr ⟨by omega, by rw [← hr, List.getElem_singleton]⟩
  have hdrop {i : ℕ} {r : ρ} (hr : rows[i]? = some r) :
      (log ++ [a]).drop (entry r + 1) = log.drop (entry r + 1) ++ [a] :=
    List.drop_append_of_le_length (h.entry_lt i r hr)
  have hnil : (log ++ [a]).drop (entry r + 1) = [] := by
    rw [List.drop_eq_nil_iff, List.length_append, List.length_singleton, hentry]
  constructor
  · intro i r' hr
    rw [List.length_append, List.length_singleton]
    rcases hrow hr with ⟨hr, -⟩ | ⟨-, rfl⟩
    · exact Nat.lt_add_right 1 (h.entry_lt i r' hr)
    · rw [hentry]
      exact Nat.lt_succ_self _
  · intro i r' hr
    rcases hrow hr with ⟨hr, -⟩ | ⟨-, rfl⟩
    · rw [hdrop hr, h.value_eq i r' hr]
      cases hmarked : (log.drop (entry r' + 1)).any marker with
      | true => rw [recorded_append_of_marked hmarked]
      | false => rw [recorded_append_of_unmarked hmarked, if_pos ha]
    · rw [hnil, hvalue]
      rfl
  · intro i r' hr
    rcases hrow hr with ⟨hr, hlt⟩ | ⟨rfl, rfl⟩
    · rw [hdrop hr, List.any_append]
      simp [ha, hlt.ne']
    · rw [hnil]
      simp

end Segmented

end TradingOS.Lib.Segments
