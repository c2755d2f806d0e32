import Mathlib.Data.Int.Range
import Mathlib.Order.Bounds.Basic
import TradingOS.Governance.GoLiveGate
import TradingOS.Orchestration.DatasetFreshness

namespace TradingOS.Governance.ShadowStreak

open Lib GoLiveGate Orchestration.DatasetFreshness

section Calendar

variable (calendar : HolidayCalendar)

/-- The trading days that are over, the last one first. -/
def completedDay (today : ℤ) (k : ℕ) : ℤ := calendar.previousTradingDay^[k + 1] today

variable {calendar} {today day : ℤ}

theorem completedDay_succ (k : ℕ) : completedDay calendar today (k + 1) =
    calendar.previousTradingDay (completedDay calendar today k) :=
  Function.iterate_succ_apply' _ _ _

theorem completedDay_lt_completedDay {j k : ℕ} (h : j < k) :
    completedDay calendar today k < completedDay calendar today j := by
  induction h with
  | refl =>
    rw [completedDay_succ]
    exact (calendar.previousTradingDay_spec _).1
  | step _ ih =>
    rw [completedDay_succ]
    exact (calendar.previousTradingDay_spec _).1.trans ih

theorem completedDay_le_completedDay {j k : ℕ} :
    completedDay calendar today k ≤ completedDay calendar today j ↔ j ≤ k := by
  constructor
  · intro h
    by_contra! hlt
    exact absurd (completedDay_lt_completedDay hlt) (not_lt.mpr h)
  · intro h
    rcases h.lt_or_eq with h | rfl
    · exact (completedDay_lt_completedDay h).le
    · exact le_rfl

theorem completedDay_injective : Function.Injective (completedDay calendar today) := by
  intro j k h
  exact le_antisymm (completedDay_le_completedDay.mp h.ge) (completedDay_le_completedDay.mp h.le)

theorem isTradingHoliday_completedDay (k : ℕ) :
    calendar.isTradingHoliday (completedDay calendar today k) = false := by
  rw [completedDay, Function.iterate_succ_apply']
  exact (calendar.previousTradingDay_spec _).2.1

theorem completedDay_lt (k : ℕ) : completedDay calendar today k < today := by
  have hlast : completedDay calendar today 0 < today := (calendar.previousTradingDay_spec today).1
  exact (completedDay_le_completedDay.mpr k.zero_le).trans_lt hlast

/-- Every trading day before today is met on the way back. -/
theorem exists_completedDay (hlt : day < today) (hopen : calendar.isTradingHoliday day = false) :
    ∃ k, completedDay calendar today k = day := by
  induction hn : (today - day).toNat using Nat.strong_induction_on generalizing today with
  | _ n ih =>
    obtain ⟨hback, -, hbetween⟩ := calendar.previousTradingDay_spec today
    rcases lt_trichotomy day (calendar.previousTradingDay today) with h | h | h
    · obtain ⟨k, hk⟩ := ih _ (by omega) h rfl
      exact ⟨k + 1, hk⟩
    · exact ⟨0, h.symm⟩
    · rw [hbetween day h hlt] at hopen
      cases hopen

end Calendar

/-- At least one attempt, and none that failed. -/
def CleanOn (attempts : List ShadowModeAttempt) (day : ℤ) : Prop :=
  (∃ row ∈ attempts, row.date = day) ∧
    ∀ row ∈ attempts, row.date = day → row.outcome = .validated

instance (attempts : List ShadowModeAttempt) (day : ℤ) : Decidable (CleanOn attempts day) :=
  inferInstanceAs (Decidable (_ ∧ _))

/-- The streak as it is meant: the longest run of trading days, ending at the last one that is
over, each of which is clean. -/
def IsStreak (calendar : HolidayCalendar) (attempts : List ShadowModeAttempt) (today : ℤ)
    (n : ℕ) : Prop :=
  IsGreatest {n | ∀ k < n, CleanOn attempts (completedDay calendar today k)} n

section Days

variable (calendar : HolidayCalendar) (attempts : List ShadowModeAttempt) (today : ℤ)

def attemptedDays : Finset ℤ := (attempts.map ShadowModeAttempt.date).toFinset

/-- From this day on, every trading day that is over is clean. -/
def CleanSince (day : ℤ) : Prop :=
  ∀ e, day ≤ e → e < today → calendar.isTradingHoliday e = false → CleanOn attempts e

instance (day : ℤ) : Decidable (CleanSince calendar attempts today day) :=
  Int.decidableLELT _ _ _

/-- From this day on, attempts were made on every trading day that is over. -/
def AttemptedSince (day : ℤ) : Prop :=
  ∀ e, day ≤ e → e < today → calendar.isTradingHoliday e = false → ∃ row ∈ attempts, row.date = e

instance (day : ℤ) : Decidable (AttemptedSince calendar attempts today day) :=
  Int.decidableLELT _ _ _

/-- The days of the streak as it is meant. -/
def currentRun : Finset ℤ :=
  (attemptedDays attempts).filter fun day ↦
    calendar.isTradingHoliday day = false ∧ day < today ∧ CleanSince calendar attempts today day

/-- Days since the last failed attempt that are no part of the streak: attempts were made on a
holiday, on a day that is not over, or before a trading day without any. -/
def strayDays : Finset ℤ :=
  (attemptedDays attempts).filter fun day ↦
    (∀ row ∈ attempts, day ≤ row.date → row.outcome = .validated) ∧
      (calendar.isTradingHoliday day ∨ today ≤ day ∨
        ¬ AttemptedSince calendar attempts today day)

/-- Days of the streak that a failed attempt on a holiday, or on a day that is not over, hides. -/
def hiddenDays : Finset ℤ :=
  (currentRun calendar attempts today).filter fun day ↦
    ∃ row ∈ attempts, row.outcome = .error ∧ day ≤ row.date ∧
      (calendar.isTradingHoliday row.date ∨ today ≤ row.date)

variable {calendar attempts today} {day : ℤ}

theorem mem_attemptedDays : day ∈ attemptedDays attempts ↔ ∃ row ∈ attempts, row.date = day := by
  simp [attemptedDays]

theorem mem_currentRun : day ∈ currentRun calendar attempts today ↔
    calendar.isTradingHoliday day = false ∧ day < today ∧
      CleanSince calendar attempts today day := by
  rw [currentRun, Finset.mem_filter, and_iff_right_of_imp]
  rintro ⟨hopen, hlt, hclean⟩
  exact mem_attemptedDays.mpr (hclean day le_rfl hlt hopen).1

theorem completedDay_mem_currentRun {k : ℕ} :
    completedDay calendar today k ∈ currentRun calendar attempts today ↔
      ∀ j ≤ k, CleanOn attempts (completedDay calendar today j) := by
  rw [mem_currentRun, and_iff_right (isTradingHoliday_completedDay k),
    and_iff_right (completedDay_lt k)]
  constructor
  · intro h j hj
    have hle : completedDay calendar today k ≤ completedDay calendar today j :=
      completedDay_le_completedDay.mpr hj
    exact h _ hle (completedDay_lt j) (isTradingHoliday_completedDay j)
  · intro h e hle hlt hopen
    obtain ⟨j, rfl⟩ := exists_completedDay hlt hopen
    exact h j (completedDay_le_completedDay.mp hle)

theorem card_image_completedDay (n : ℕ) :
    ((Finset.range n).image (completedDay calendar today)).card = n := by
  rw [Finset.card_image_of_injective _ completedDay_injective, Finset.card_range]

/-- The streak as it is meant has the days of the current run. -/
theorem isStreak_card :
    IsStreak calendar attempts today (currentRun calendar attempts today).card := by
  constructor
  · by_contra h
    obtain ⟨k, hk, hbroken⟩ : ∃ k < (currentRun calendar attempts today).card,
        ¬ CleanOn attempts (completedDay calendar today k) := by
      simpa only [Set.mem_ofPred_eq, not_forall, exists_prop] using h
    have hsubset : currentRun calendar attempts today ⊆
        (Finset.range k).image (completedDay calendar today) := by
      intro day hday
      obtain ⟨hopen, hlt, -⟩ := mem_currentRun.mp hday
      obtain ⟨j, rfl⟩ := exists_completedDay hlt hopen
      have hj := completedDay_mem_currentRun.mp hday
      have hjk : j < k := not_le.mp fun hle ↦ hbroken (hj k hle)
      exact Finset.mem_image_of_mem _ (Finset.mem_range.mpr hjk)
    have hcard := Finset.card_le_card hsubset
    rw [card_image_completedDay] at hcard
    omega
  · intro n hn
    have hsubset : (Finset.range n).image (completedDay calendar today) ⊆
        currentRun calendar attempts today := by
      intro day hday
      obtain ⟨k, hk, rfl⟩ := Finset.mem_image.mp hday
      exact completedDay_mem_currentRun.mpr fun j hj ↦
        hn j (hj.trans_lt (Finset.mem_range.mp hk))
    have hcard := Finset.card_le_card hsubset
    rwa [card_image_completedDay] at hcard

theorem sdiff_currentRun : cleanDays attempts \ currentRun calendar attempts today =
    strayDays calendar attempts today := by
  ext day
  rw [Finset.mem_sdiff, mem_cleanDays, mem_currentRun, strayDays, Finset.mem_filter,
    mem_attemptedDays, and_assoc]
  refine and_congr_right fun _ ↦ and_congr_right fun hvalidated ↦ ?_
  rw [Decidable.not_and_iff_or_not, Decidable.not_and_iff_or_not, Bool.not_eq_false, not_lt]
  refine or_congr_right (or_congr_right (not_congr ⟨fun h e hle hlt hopen ↦ ?_, ?_⟩))
  · exact (h e hle hlt hopen).1
  · intro h e hle hlt hopen
    refine ⟨h e hle hlt hopen, fun row hrow heq ↦ ?_⟩
    exact hvalidated row hrow (heq ▸ hle)

theorem sdiff_cleanDays : currentRun calendar attempts today \ cleanDays attempts =
    hiddenDays calendar attempts today := by
  ext day
  rw [Finset.mem_sdiff, hiddenDays, Finset.mem_filter]
  refine and_congr_right fun hday ↦ ?_
  obtain ⟨hopen, hlt, hclean⟩ := mem_currentRun.mp hday
  have hattempted := (hclean day le_rfl hlt hopen).1
  rw [mem_cleanDays, and_iff_right hattempted]
  constructor
  · intro h
    obtain ⟨row, hrow, hle, hfailed⟩ : ∃ row ∈ attempts, day ≤ row.date ∧
        row.outcome ≠ .validated := by
      simpa only [not_forall, exists_prop] using h
    refine ⟨row, hrow, by cases ho : row.outcome <;> simp_all, hle, ?_⟩
    -- a failed attempt on a trading day that is over would have ended the run
    by_contra! hcompleted
    have hvalidated := (hclean row.date hle hcompleted.2 (Bool.eq_false_iff.mpr hcompleted.1)).2
    exact hfailed (hvalidated row hrow rfl)
  · rintro ⟨row, hrow, herror, hle, -⟩ h
    rw [h row hrow hle] at herror
    cases herror

end Days

/-- The gate's streak is the one that is meant exactly if as many days are counted that are no part
of it as days of it are not counted. -/
theorem streak_meant_iff (E : Engine) (calendar : HolidayCalendar)
    (attempts : List ShadowModeAttempt) (today : ℤ) :
    IsStreak calendar attempts today
        (consecutiveCleanDays (computeDailySummary (E.attemptOrder.sort attempts))) ↔
      (strayDays calendar attempts today).card = (hiddenDays calendar attempts today).card := by
  have hunique : IsStreak calendar attempts today (cleanDays attempts).card ↔
      (cleanDays attempts).card = (currentRun calendar attempts today).card :=
    ⟨fun h ↦ h.unique isStreak_card, fun h ↦ h ▸ isStreak_card⟩
  rw [consecutiveCleanDays_eq, cleanDays_sort, hunique, ← sdiff_currentRun, ← sdiff_cleanDays]
  have hclean := Finset.card_sdiff_add_card_inter (cleanDays attempts)
    (currentRun calendar attempts today)
  have hrun := Finset.card_sdiff_add_card_inter (currentRun calendar attempts today)
    (cleanDays attempts)
  rw [Finset.inter_comm] at hrun
  omega

/-- Tuesday and Thursday count as two days in a row. -/
theorem idle_wednesday_skipped :
    ¬ IsStreak nseHolidays
      [⟨.validated, 20697 * 86400000000⟩, ⟨.validated, 20699 * 86400000000⟩] 20700
      (consecutiveCleanDays (computeDailySummary (Engine.plain.attemptOrder.sort
        [⟨.validated, 20697 * 86400000000⟩, ⟨.validated, 20699 * 86400000000⟩]))) := by
  have hthursday : nseHolidays.previousTradingDay 20700 = 20699 :=
    nseHolidays.previousTradingDay_eq (by decide) (by decide) fun e _ _ ↦ by omega
  have hwednesday : nseHolidays.previousTradingDay 20699 = 20698 :=
    nseHolidays.previousTradingDay_eq (by decide) (by decide) fun e _ _ ↦ by omega
  have hsecond : completedDay nseHolidays 20700 1 = 20698 := by
    rw [completedDay_succ, ← hwednesday, ← hthursday]
    rfl
  rw [consecutiveCleanDays_eq, cleanDays_sort]
  intro h
  have hclean := h.1 1 (by decide)
  rw [hsecond] at hclean
  exact absurd hclean (by decide)

end TradingOS.Governance.ShadowStreak
