import Mathlib.Data.Int.Notation
import Mathlib.Data.Nat.Notation

namespace TradingOS.Data

namespace Date

/-- A `date` is the number of its days since 1970-01-01. Years of its era of 400 begin in March,
so that the leap day comes last. -/
def eraDay (d : ℤ) : ℤ := (d + 719468) % 146097

def eraYear (d : ℤ) : ℤ :=
  (eraDay d - eraDay d / 1460 + eraDay d / 36524 - eraDay d / 146096) / 365

def yearDay (d : ℤ) : ℤ := eraDay d - (365 * eraYear d + eraYear d / 4 - eraYear d / 100)

def month (d : ℤ) : ℤ :=
  let fromMarch := (5 * yearDay d + 2) / 153
  if fromMarch < 10 then fromMarch + 3 else fromMarch - 9

def day (d : ℤ) : ℤ := yearDay d - (153 * ((5 * yearDay d + 2) / 153) + 2) / 5 + 1

def year (d : ℤ) : ℤ :=
  (d + 719468) / 146097 * 400 + eraYear d + if month d ≤ 2 then 1 else 0

/-- Monday is 0. -/
def weekday (d : ℤ) : ℤ := (d + 3) % 7

end Date

example : (Date.year 19782, Date.month 19782, Date.day 19782, Date.weekday 19782) =
    (2024, 2, 29, 3) := by decide

/-- `HOLIDAYS`: three fixed dates of each of five years. -/
def isHoliday (d : ℤ) : Bool :=
  2023 ≤ Date.year d ∧ Date.year d ≤ 2027 ∧
    (Date.month d, Date.day d) ∈ [((1 : ℤ), (26 : ℤ)), (8, 15), (10, 2)]

def isTradingHoliday (d : ℤ) : Bool := 5 ≤ Date.weekday d || isHoliday d

/-- The days from `start` on, `count` of them. -/
def daysFrom (start : ℤ) : ℕ → List ℤ
  | 0 => []
  | count + 1 => start :: daysFrom (start + 1) count

/-- `trading_days_between`, both ends included. -/
def tradingDaysBetween (start stop : ℤ) : List ℤ :=
  (daysFrom start (stop + 1 - start).toNat).filter fun d ↦ ¬ isTradingHoliday d

theorem mem_daysFrom {start d : ℤ} {count : ℕ} :
    d ∈ daysFrom start count ↔ start ≤ d ∧ d < start + count := by
  induction count generalizing start with
  | zero =>
    simp only [daysFrom, List.not_mem_nil, false_iff]
    omega
  | succ count ih =>
    rw [daysFrom, List.mem_cons, ih]
    omega

theorem pairwise_daysFrom (start : ℤ) (count : ℕ) : (daysFrom start count).Pairwise (· < ·) := by
  induction count generalizing start with
  | zero => exact .nil
  | succ count ih =>
    refine List.pairwise_cons.mpr ⟨fun d hd ↦ ?_, ih (start + 1)⟩
    have hlater := (mem_daysFrom.mp hd).1
    omega

theorem mem_tradingDaysBetween {start stop d : ℤ} :
    d ∈ tradingDaysBetween start stop ↔ start ≤ d ∧ d ≤ stop ∧ isTradingHoliday d = false := by
  have hrange : start ≤ d ∧ d < start + (stop + 1 - start).toNat ↔ start ≤ d ∧ d ≤ stop := by omega
  rw [tradingDaysBetween, List.mem_filter, mem_daysFrom, hrange, decide_eq_true_eq,
    Bool.not_eq_true, and_assoc]

theorem pairwise_tradingDaysBetween (start stop : ℤ) :
    (tradingDaysBetween start stop).Pairwise (· < ·) :=
  (pairwise_daysFrom start _).filter _

end TradingOS.Data
