import TradingOS.Data.Calendar
import Mathlib.Algebra.Order.Group.Int
import Mathlib.Tactic.Linarith

namespace TradingOS.Data

namespace Date

/-- The days before March of the year. -/
def yearStart (y : ℤ) : ℤ := 365 * y + y / 4 - y / 100 + y / 400 - 719468

/-- The first day of a month, months being counted from January of the year 0. -/
def monthStart (m : ℤ) : ℤ := yearStart ((m - 2) / 12) + (153 * ((m - 2) % 12) + 2) / 5

def monthIndex (d : ℤ) : ℤ := 12 * year d + month d - 1

/-- The same day of the month `n` months later, or the last day of that month if it is shorter. -/
def addMonths (n d : ℤ) : ℤ :=
  min (monthStart (monthIndex d + n) + day d - 1) (monthStart (monthIndex d + n + 1) - 1)

/-- The year that begins in March. -/
def marchYear (d : ℤ) : ℤ := (d + 719468) / 146097 * 400 + eraYear d

theorem eraDay_bounds (d : ℤ) : 0 ≤ eraDay d ∧ eraDay d < 146097 := by
  unfold eraDay
  omega

theorem eraYear_bounds (d : ℤ) : 0 ≤ eraYear d ∧ eraYear d < 400 := by
  have hday := eraDay_bounds d
  unfold eraYear
  omega

theorem eraYear_div_hundred (d : ℤ) :
    eraYear d / 100 = eraDay d / 36524 - eraDay d / 146096 := by
  have hday := eraDay_bounds d
  unfold eraYear
  generalize eraDay d = n at *
  obtain hn | hn | hn | hn | hn :
      n / 36524 = 0 ∨ n / 36524 = 1 ∨ n / 36524 = 2 ∨ n / 36524 = 3 ∨ n / 36524 = 4 := by omega
  all_goals omega

theorem yearDay_bounds (d : ℤ) : 0 ≤ yearDay d ∧ yearDay d < 366 := by
  have hday := eraDay_bounds d
  have hcentury := eraYear_div_hundred d
  unfold yearDay
  unfold eraYear at *
  omega

theorem yearStart_add_yearDay (d : ℤ) : yearStart (marchYear d) + yearDay d = d := by
  have hyear := eraYear_bounds d
  unfold yearStart marchYear yearDay eraDay
  generalize eraYear d = y at *
  omega

theorem lt_yearStart (d : ℤ) : d < yearStart (marchYear d + 1) := by
  have hday := eraDay_bounds d
  have hcentury := eraYear_div_hundred d
  have hyear := eraYear_bounds d
  have hera : d = (d + 719468) / 146097 * 146097 + eraDay d - 719468 := by
    unfold eraDay
    omega
  unfold yearStart marchYear
  generalize (d + 719468) / 146097 = e at *
  have hdef : eraYear d =
      (eraDay d - eraDay d / 1460 + eraDay d / 36524 - eraDay d / 146096) / 365 := rfl
  generalize eraYear d = y at *
  generalize eraDay d = n at *
  have hfour : (e * 400 + y + 1) / 4 = e * 100 + (y + 1) / 4 := by omega
  have hhundred : (e * 400 + y + 1) / 100 = e * 4 + (y + 1) / 100 := by omega
  have hwhole : (e * 400 + y + 1) / 400 = e + (y + 1) / 400 := by omega
  by_cases hturn : (y + 1) % 100 = 0
  · obtain rfl | rfl | rfl | rfl : y = 99 ∨ y = 199 ∨ y = 299 ∨ y = 399 := by omega
    all_goals omega
  · have hsame : (y + 1) / 100 = y / 100 := by omega
    have hwithin : (y + 1) / 400 = 0 := by omega
    omega

theorem yearStart_succ (y : ℤ) :
    yearStart y + 365 ≤ yearStart (y + 1) ∧ yearStart (y + 1) ≤ yearStart y + 366 := by
  unfold yearStart
  omega

theorem monthIndex_eq (d : ℤ) :
    monthIndex d - 2 = 12 * marchYear d + (5 * yearDay d + 2) / 153 := by
  have hday := yearDay_bounds d
  unfold monthIndex year month marchYear
  simp only
  split
  · split <;> omega
  · split <;> omega

theorem monthStart_add_day (d : ℤ) : monthStart (monthIndex d) + day d - 1 = d := by
  have hday := yearDay_bounds d
  have hstart := yearStart_add_yearDay d
  unfold monthStart day
  rw [monthIndex_eq]
  have hyear : (12 * marchYear d + (5 * yearDay d + 2) / 153) / 12 = marchYear d := by omega
  have hmonth : (12 * marchYear d + (5 * yearDay d + 2) / 153) % 12 =
      (5 * yearDay d + 2) / 153 := by omega
  rw [hyear, hmonth]
  omega

theorem one_le_day (d : ℤ) : 1 ≤ day d := by
  have hday := yearDay_bounds d
  unfold day
  omega

theorem lt_monthStart (d : ℤ) : d < monthStart (monthIndex d + 1) := by
  have hday := yearDay_bounds d
  have hstart := yearStart_add_yearDay d
  have hnext := lt_yearStart d
  have hindex : monthIndex d + 1 - 2 = 12 * marchYear d + (5 * yearDay d + 2) / 153 + 1 := by
    have := monthIndex_eq d
    omega
  rw [monthStart, hindex]
  generalize yearDay d = y at *
  by_cases hlast : (5 * y + 2) / 153 = 11
  · have hyear : (12 * marchYear d + (5 * y + 2) / 153 + 1) / 12 = marchYear d + 1 := by omega
    have hmonth : (12 * marchYear d + (5 * y + 2) / 153 + 1) % 12 = 0 := by omega
    rw [hyear, hmonth]
    omega
  · have hyear : (12 * marchYear d + (5 * y + 2) / 153 + 1) / 12 = marchYear d := by omega
    have hmonth : (12 * marchYear d + (5 * y + 2) / 153 + 1) % 12 = (5 * y + 2) / 153 + 1 := by
      omega
    rw [hyear, hmonth]
    omega

theorem monthStart_succ (m : ℤ) :
    monthStart m + 28 ≤ monthStart (m + 1) ∧ monthStart (m + 1) ≤ monthStart m + 31 := by
  have hyear := yearStart_succ ((m - 2) / 12)
  unfold monthStart
  by_cases hlast : (m - 2) % 12 = 11
  · have hnext : (m + 1 - 2) / 12 = (m - 2) / 12 + 1 := by omega
    have hmonth : (m + 1 - 2) % 12 = 0 := by omega
    rw [hnext, hmonth]
    omega
  · have hnext : (m + 1 - 2) / 12 = (m - 2) / 12 := by omega
    have hmonth : (m + 1 - 2) % 12 = (m - 2) % 12 + 1 := by omega
    rw [hnext, hmonth]
    omega

theorem monthStart_lt_iff {m n : ℤ} : monthStart m < monthStart n ↔ m < n := by
  have hmono : StrictMono monthStart := strictMono_int_of_lt_succ fun m ↦ by
    have hlong := (monthStart_succ m).1
    omega
  exact hmono.lt_iff_lt

theorem monthStart_mono {m n : ℤ} (h : m ≤ n) : monthStart m ≤ monthStart n :=
  not_lt.mp fun hlt ↦ absurd (monthStart_lt_iff.mp hlt) (not_lt.mpr h)

theorem monthStart_monthIndex_le (d : ℤ) : monthStart (monthIndex d) ≤ d := by
  have hday := monthStart_add_day d
  have hone := one_le_day d
  omega

/-- A date is of the month it lies in. -/
theorem monthIndex_eq_of_bounds {d m : ℤ} (hstart : monthStart m ≤ d)
    (hstop : d < monthStart (m + 1)) : monthIndex d = m := by
  have hlow := monthStart_lt_iff.mp ((monthStart_monthIndex_le d).trans_lt hstop)
  have hhigh := monthStart_lt_iff.mp (hstart.trans_lt (lt_monthStart d))
  omega

theorem monthIndex_mono {c d : ℤ} (h : c ≤ d) : monthIndex c ≤ monthIndex d := by
  have hlt := monthStart_lt_iff.mp
    ((monthStart_monthIndex_le c).trans_lt (h.trans_lt (lt_monthStart d)))
  omega

theorem addMonths_bounds (n d : ℤ) : monthStart (monthIndex d + n) ≤ addMonths n d ∧
    addMonths n d < monthStart (monthIndex d + n + 1) := by
  have hone := one_le_day d
  have hlong := (monthStart_succ (monthIndex d + n)).1
  unfold addMonths
  omega

theorem monthIndex_addMonths (n d : ℤ) : monthIndex (addMonths n d) = monthIndex d + n :=
  monthIndex_eq_of_bounds (addMonths_bounds n d).1 (addMonths_bounds n d).2

theorem addMonths_mono (n : ℤ) {c d : ℤ} (h : c ≤ d) : addMonths n c ≤ addMonths n d := by
  rcases (monthIndex_mono h).lt_or_eq with hlt | heq
  · have hbetween : monthStart (monthIndex c + n + 1) ≤ monthStart (monthIndex d + n) :=
      monthStart_mono (by omega)
    exact ((addMonths_bounds n c).2.trans_le (hbetween.trans (addMonths_bounds n d).1)).le
  · have hc := monthStart_add_day c
    have hd := monthStart_add_day d
    rw [heq] at hc
    unfold addMonths
    rw [heq]
    omega

theorem lt_addMonths {n : ℤ} (hn : 0 < n) (d : ℤ) : d < addMonths n d := by
  have hnext : monthStart (monthIndex d + 1) ≤ monthStart (monthIndex d + n) :=
    monthStart_mono (by omega)
  exact (lt_monthStart d).trans_le (hnext.trans (addMonths_bounds n d).1)

theorem addMonths_zero (d : ℤ) : addMonths 0 d = d := by
  have hday := monthStart_add_day d
  have hlt := lt_monthStart d
  simp only [addMonths, add_zero]
  omega

/-- No month is too short for the first 28 days. -/
theorem addMonths_eq {d : ℤ} (hd : day d ≤ 28) (n : ℤ) :
    addMonths n d = monthStart (monthIndex d + n) + day d - 1 := by
  have hlong := (monthStart_succ (monthIndex d + n)).1
  unfold addMonths
  omega

theorem day_addMonths {d : ℤ} (hd : day d ≤ 28) (n : ℤ) : day (addMonths n d) = day d := by
  have hstart := monthStart_add_day (addMonths n d)
  rw [monthIndex_addMonths, addMonths_eq hd] at hstart
  rw [addMonths_eq hd]
  omega

theorem addMonths_comm {d : ℤ} (hd : day d ≤ 28) (m n : ℤ) :
    addMonths m (addMonths n d) = addMonths n (addMonths m d) := by
  have hm : day (addMonths m d) ≤ 28 := (day_addMonths hd m).trans_le hd
  have hn : day (addMonths n d) ≤ 28 := (day_addMonths hd n).trans_le hd
  rw [addMonths_eq hm, addMonths_eq hn, day_addMonths hd, day_addMonths hd, monthIndex_addMonths,
    monthIndex_addMonths, add_right_comm]

end Date

/-- The months and days of a `pd.DateOffset`; a year is twelve months. -/
structure DateOffset where
  months : ℕ
  days : ℕ
  deriving DecidableEq

namespace DateOffset

def Positive (o : DateOffset) : Prop := 0 < o.months ∨ 0 < o.days

instance (o : DateOffset) : Decidable o.Positive := inferInstanceAs (Decidable (_ ∨ _))

def add (o : DateOffset) (d : ℤ) : ℤ := Date.addMonths o.months d + o.days

variable {o : DateOffset}

theorem add_mono (o : DateOffset) {c d : ℤ} (h : c ≤ d) : o.add c ≤ o.add d :=
  Int.add_le_add_right (Date.addMonths_mono o.months h) o.days

theorem lt_add (ho : o.Positive) (d : ℤ) : d < o.add d := by
  unfold add
  rcases Nat.eq_zero_or_pos o.months with hzero | hpos
  · have hdays : 0 < o.days := ho.resolve_left hzero.not_gt
    rw [hzero, Nat.cast_zero, Date.addMonths_zero]
    omega
  · have hlater := Date.lt_addMonths (Int.natCast_pos.mpr hpos) d
    omega

theorem add_comm {o' : DateOffset} (ho : o.days = 0) (ho' : o'.days = 0) {d : ℤ}
    (hd : Date.day d ≤ 28) : o.add (o'.add d) = o'.add (o.add d) := by
  simp only [add, ho, ho', Nat.cast_zero, add_zero]
  exact Date.addMonths_comm hd _ _

theorem day_add {d : ℤ} (ho : o.days = 0) (hd : Date.day d ≤ 28) :
    Date.day (o.add d) = Date.day d := by
  simp only [add, ho, Nat.cast_zero, add_zero]
  exact Date.day_addMonths hd _

end DateOffset

example : (DateOffset.add ⟨1, 0⟩ 19753, DateOffset.add ⟨1, 0⟩ (DateOffset.add ⟨1, 0⟩ 19753)) =
    (19782, 19811) := by decide

end TradingOS.Data
