import Mathlib.Algebra.Order.Field.Basic
import Mathlib.Data.List.DropRight
import TradingOS.Risk.KillSwitch

namespace TradingOS.Risk.MaxDrawdownKillSwitch

inductive Call
  | update (equity : ℚ)
  | trip
  | reset
  deriving DecidableEq

def call (switch : MaxDrawdownKillSwitch) : Call → MaxDrawdownKillSwitch
  | .update equity => switch.update equity
  | .trip => switch.trip
  | .reset => switch.reset

def run (threshold : ℚ) (calls : List Call) : MaxDrawdownKillSwitch :=
  calls.foldl call ⟨threshold, none, false⟩

def sinceReset (calls : List Call) : List Call := calls.rtakeWhile fun c ↦ c ≠ .reset

def equities (calls : List Call) : List ℚ :=
  calls.filterMap fun
    | .update equity => some equity
    | .trip | .reset => none

/-- The running peak at an update. -/
def peak (before : List Call) (equity : ℚ) : ℚ := (equities before).foldl max equity

def Breached (threshold : ℚ) (calls : List Call) : Prop :=
  .trip ∈ calls ∨ ∃ before equity after, calls = before ++ .update equity :: after ∧
    equity ≤ (1 - threshold) * peak before equity

/-- Whether a call breaches after others. -/
def Breaches (threshold : ℚ) (before : List Call) : Call → Prop
  | .update equity => equity ≤ (1 - threshold) * peak before equity
  | .trip => True
  | .reset => False

/-- The first equity after construction or a reset is positive. -/
def PositiveStarts (calls : List Call) : Prop :=
  ∀ before equity after, calls = before ++ .update equity :: after →
    equities (sinceReset before) = [] → 0 < equity

variable {threshold : ℚ} {calls : List Call}

theorem run_concat (c : Call) : run threshold (calls ++ [c]) = (run threshold calls).call c := by
  rw [run, List.foldl_append]
  rfl

theorem sinceReset_concat {c : Call} (hc : c ≠ .reset) :
    sinceReset (calls ++ [c]) = sinceReset calls ++ [c] := by
  simp [sinceReset, hc]

theorem sinceReset_reset : sinceReset (calls ++ [.reset]) = [] := by
  simp [sinceReset]

theorem breached_nil : ¬ Breached threshold [] := by
  rintro (h | ⟨before, equity, after, h, -⟩)
  · cases h
  · exact List.append_ne_nil_of_right_ne_nil _ (List.cons_ne_nil _ _) h.symm

theorem Breached.append (h : Breached threshold calls) (later : List Call) :
    Breached threshold (calls ++ later) := by
  rcases h with htrip | ⟨before, equity, after, rfl, hle⟩
  · exact .inl (List.mem_append_left _ htrip)
  · exact .inr ⟨before, equity, after ++ later, by simp, hle⟩

theorem breached_concat {c : Call} :
    Breached threshold (calls ++ [c]) ↔ Breached threshold calls ∨ Breaches threshold calls c := by
  constructor
  · rintro (htrip | ⟨before, equity, after, hcalls, hle⟩)
    · rcases List.mem_append.mp htrip with htrip | htrip
      · exact .inl (.inl htrip)
      · obtain rfl := List.mem_singleton.mp htrip
        exact .inr trivial
    · rcases List.eq_nil_or_concat after with rfl | ⟨after, c', rfl⟩
      · obtain ⟨rfl, hc⟩ := List.append_inj' hcalls rfl
        obtain rfl := List.singleton_inj.mp hc
        exact .inr hle
      · rw [List.concat_eq_append, ← List.cons_append, ← List.append_assoc] at hcalls
        exact .inl (.inr ⟨before, equity, after, (List.append_inj' hcalls rfl).1, hle⟩)
  · rintro (h | h)
    · exact h.append [c]
    · cases c with
      | update equity => exact .inr ⟨calls, equity, [], rfl, h⟩
      | trip => exact .inl (List.mem_append_right _ (List.mem_singleton_self _))
      | reset => cases h

theorem peak_of_nil (hcalls : equities calls = []) (equity : ℚ) : peak calls equity = equity := by
  rw [peak, hcalls, List.foldl_nil]

theorem peak_of_cons {first : ℚ} {rest : List ℚ} (hcalls : equities calls = first :: rest)
    (equity : ℚ) : peak calls equity = max equity (rest.foldl max first) := by
  rw [peak, hcalls, List.foldl_cons, List.foldl_assoc]

theorem peakEquity_update {switch : MaxDrawdownKillSwitch}
    (hpeak : switch.peakEquity = (equities calls).max?) (equity : ℚ) :
    (switch.update equity).peakEquity = some (peak calls equity) := by
  cases hcalls : equities calls with
  | nil =>
    rw [hcalls] at hpeak
    simp [update, hpeak, peak_of_nil hcalls]
  | cons first rest =>
    rw [hcalls, List.max?_cons'] at hpeak
    rw [peak_of_cons hcalls, max_comm, max_def_lt]
    simp [update, hpeak]

theorem triggered_update {switch : MaxDrawdownKillSwitch} {equity top : ℚ}
    (htop : (switch.update equity).peakEquity = some top) (hpos : 0 < top) :
    (switch.update equity).triggered ↔
      switch.triggered ∨ equity ≤ (1 - switch.threshold) * top := by
  have hdrawdown : (switch.update equity).triggered ↔
      switch.triggered ∨ switch.threshold ≤ if top = 0 then 0 else (top - equity) / top := by
    simp only [update] at htop ⊢
    rw [Option.some.inj htop, decide_eq_true_eq]
  rw [hdrawdown, if_neg hpos.ne', le_div_iff₀ hpos, le_sub_comm, one_sub_mul]

theorem max?_equities_concat (equity : ℚ) :
    (equities (calls ++ [.update equity])).max? = some (peak calls equity) := by
  have hconcat : equities (calls ++ [.update equity]) = equities calls ++ [equity] :=
    List.filterMap_append
  rw [hconcat]
  cases hcalls : equities calls with
  | nil => rw [peak_of_nil hcalls, List.nil_append, List.max?_singleton]
  | cons first rest =>
    rw [peak_of_cons hcalls, List.cons_append, List.max?_cons', List.foldl_append, max_comm]
    rfl

/-- The switch as the calls since the last reset determine it. -/
structure Tracks (threshold : ℚ) (calls : List Call) (switch : MaxDrawdownKillSwitch) : Prop where
  threshold_eq : switch.threshold = threshold
  peak : switch.peakEquity = (equities calls).max?
  positive : ∀ top ∈ switch.peakEquity, 0 < top
  triggered : switch.triggered ↔ Breached threshold calls

namespace Tracks

variable {switch : MaxDrawdownKillSwitch}

theorem nil (threshold : ℚ) : Tracks threshold [] ⟨threshold, none, false⟩ :=
  ⟨rfl, rfl, nofun, iff_of_false Bool.false_ne_true breached_nil⟩

theorem peak_pos (h : Tracks threshold calls switch) {equity : ℚ}
    (hstart : equities calls = [] → 0 < equity) :
    0 < MaxDrawdownKillSwitch.peak calls equity := by
  cases hcalls : equities calls with
  | nil =>
    rw [peak_of_nil hcalls]
    exact hstart hcalls
  | cons first rest =>
    rw [peak_of_cons hcalls]
    exact lt_max_of_lt_right (h.positive _ (by rw [h.peak, hcalls]; rfl))

theorem update (h : Tracks threshold calls switch) {equity : ℚ}
    (hstart : equities calls = [] → 0 < equity) :
    Tracks threshold (calls ++ [.update equity]) (switch.update equity) := by
  have htop := peakEquity_update h.peak equity
  refine ⟨h.threshold_eq, htop.trans (max?_equities_concat equity).symm, ?_, ?_⟩
  · intro top hmem
    rw [htop] at hmem
    obtain rfl := Option.mem_some.mp hmem
    exact h.peak_pos hstart
  · rw [breached_concat, triggered_update htop (h.peak_pos hstart), h.triggered, h.threshold_eq]
    rfl

theorem trip (h : Tracks threshold calls switch) :
    Tracks threshold (calls ++ [.trip]) switch.trip := by
  have hequities : equities (calls ++ [.trip]) = equities calls := by simp [equities]
  refine ⟨h.threshold_eq, hequities ▸ h.peak, h.positive, ?_⟩
  exact iff_of_true rfl (breached_concat.mpr (.inr trivial))

theorem reset (h : Tracks threshold calls switch) : Tracks threshold [] switch.reset :=
  ⟨h.threshold_eq, rfl, nofun, iff_of_false Bool.false_ne_true breached_nil⟩

end Tracks

theorem PositiveStarts.of_concat {c : Call} (h : PositiveStarts (calls ++ [c])) :
    PositiveStarts calls := by
  rintro before equity after rfl
  exact h before equity (after ++ [c]) (by simp)

theorem tracks_run (threshold : ℚ) (hstarts : PositiveStarts calls) :
    Tracks threshold (sinceReset calls) (run threshold calls) := by
  induction calls using List.reverseRecOn with
  | nil => exact Tracks.nil threshold
  | append_singleton calls c ih =>
    have htracks := ih hstarts.of_concat
    rw [run_concat]
    cases c with
    | update equity =>
      rw [sinceReset_concat Call.noConfusion]
      exact htracks.update (hstarts calls equity [] rfl)
    | trip =>
      rw [sinceReset_concat (by decide)]
      exact htracks.trip
    | reset =>
      rw [sinceReset_reset]
      exact htracks.reset

theorem triggered_run_append {later : List Call} (hlater : .reset ∉ later)
    (h : (run threshold calls).triggered) : (run threshold (calls ++ later)).triggered := by
  induction later using List.reverseRecOn with
  | nil => rwa [List.append_nil]
  | append_singleton later c ih =>
    rw [← List.append_assoc, run_concat]
    have htriggered := ih fun hmem ↦ hlater (List.mem_append_left _ hmem)
    cases c with
    | update equity => simp [call, update, htriggered]
    | trip => rfl
    | reset => exact absurd (List.mem_append_right _ (List.mem_singleton_self _)) hlater

/-- The switch is triggered exactly by what has been called since the last reset, and stays so until
the next. -/
theorem triggered_run_iff (threshold : ℚ) (calls : List Call) (hstarts : PositiveStarts calls) :
    ((run threshold calls).triggered ↔ Breached threshold (sinceReset calls)) ∧
      ((run threshold calls).triggered → ∀ later, .reset ∉ later →
        (run threshold (calls ++ later)).triggered) :=
  ⟨(tracks_run threshold hstarts).triggered, fun h _ hlater ↦ triggered_run_append hlater h⟩

section Example

/-- A fall from 120 to 102, and a rise after it. -/
theorem triggered_run_fall :
    (run (15 / 100) [.update 100, .update 120, .update 102]).triggered ∧
      (run (15 / 100) [.update 100, .update 120, .update 102, .update 130]).triggered := by
  have hstarts : PositiveStarts [.update 100, .update 120, .update 102] := by
    rintro before equity after hcalls -
    have hmem : Call.update equity ∈ [Call.update 100, .update 120, .update 102] := by
      rw [hcalls]
      exact List.mem_append_right _ List.mem_cons_self
    simp only [List.mem_cons, Call.update.injEq, List.not_mem_nil, or_false] at hmem
    rcases hmem with rfl | rfl | rfl <;> decide +kernel
  obtain ⟨hiff, hlatch⟩ := triggered_run_iff (15 / 100) _ hstarts
  have hfall := hiff.mpr (.inr ⟨[.update 100, .update 120], 102, [], rfl, by decide +kernel⟩)
  exact ⟨hfall, hlatch hfall [.update 130] (by decide)⟩

end Example

end TradingOS.Risk.MaxDrawdownKillSwitch
