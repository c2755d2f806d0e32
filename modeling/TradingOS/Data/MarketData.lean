import Mathlib.Algebra.Order.Field.Rat
import TradingOS.Data.Calendar

namespace TradingOS.Data

inductive Timeframe
  | oneMinute
  | fiveMinutes
  | fifteenMinutes
  | thirtyMinutes
  | oneHour
  | oneDay
  | oneWeek
  | oneMonth
  deriving DecidableEq

/-- `ProviderError` and its subclasses; the token's error is one of authentication too. -/
inductive ProviderError
  | base
  | auth
  | tokenExpired
  | rateLimit
  | timeout
  | network
  | server
  | instrumentNotFound
  | unsupportedInterval
  | emptyData
  | invalidData
  deriving DecidableEq

/-- What a provider raises, where another exception is not the manager's to handle. -/
inductive Raised
  | provider (error : ProviderError)
  | other (text : String)
  deriving DecidableEq

/-- An aware `datetime`: the microseconds its wall clock shows since 1970, and how many of them that
clock is ahead of UTC. -/
structure Timestamp where
  wall : ℤ
  offset : ℤ
  deriving DecidableEq

namespace Timestamp

def dayLength : ℤ := 86400000000

def istOffset : ℤ := 19800000000

def instant (ts : Timestamp) : ℤ := ts.wall - ts.offset

def date (ts : Timestamp) : ℤ := ts.wall / dayLength

def astimezone (ts : Timestamp) (offset : ℤ) : Timestamp := ⟨ts.instant + offset, offset⟩

/-- `datetime.combine(day, time(0, 0), tzinfo=_IST)`. -/
def midnight (day : ℤ) : Timestamp := ⟨day * dayLength, istOffset⟩

@[simp] theorem date_midnight (day : ℤ) : (midnight day).date = day := by
  simp only [midnight, date, dayLength]
  omega

end Timestamp

structure Candle where
  timestamp : Timestamp
  openPrice : ℚ
  high : ℚ
  low : ℚ
  close : ℚ
  volume : ℤ
  openInterest : Option ℤ
  instrumentKey : String
  symbol : String
  timeframe : Timeframe
  provider : String
  deriving DecidableEq

inductive DataQualityIssue
  | duplicateTimestamp
  | invalidOhlc
  | negativeVolume
  | unsorted
  deriving DecidableEq

namespace Candle

def OhlcValid (c : Candle) : Prop :=
  c.low ≤ c.high ∧ c.openPrice ≤ c.high ∧ c.close ≤ c.high ∧ c.low ≤ c.openPrice ∧ c.low ≤ c.close

instance : DecidablePred OhlcValid := fun _ ↦ inferInstanceAs (Decidable (_ ∧ _))

def issues (seen : List ℤ) (previous : Option ℤ) (c : Candle) : List DataQualityIssue :=
  (if c.timestamp.instant ∈ seen then [.duplicateTimestamp] else []) ++
    (if previous.any (c.timestamp.instant < ·) then [.unsorted] else []) ++
    (if c.volume < 0 then [.negativeVolume] else []) ++
    if c.OhlcValid then [] else [.invalidOhlc]

end Candle

/-- The loop of `validate_candles`, with the instants seen and the one before. -/
def validateFrom (seen : List ℤ) (previous : Option ℤ) : List Candle → List DataQualityIssue
  | [] => []
  | c :: cs =>
    c.issues seen previous ++
      validateFrom (c.timestamp.instant :: seen) (some c.timestamp.instant) cs

def validateCandles (candles : List Candle) : List DataQualityIssue := validateFrom [] none candles

/-- What a valid series is. -/
structure WellFormedSeries (candles : List Candle) : Prop where
  increasing : candles.Pairwise (·.timestamp.instant < ·.timestamp.instant)
  volume : ∀ c ∈ candles, 0 ≤ c.volume
  ohlc : ∀ c ∈ candles, c.OhlcValid

theorem issues_eq_nil_iff {c : Candle} {seen : List ℤ} {previous : Option ℤ} :
    c.issues seen previous = [] ↔ c.timestamp.instant ∉ seen ∧
      (∀ p, previous = some p → p ≤ c.timestamp.instant) ∧ 0 ≤ c.volume ∧ c.OhlcValid := by
  cases previous <;> simp [Candle.issues]

theorem validateFrom_eq_nil_iff {seen : List ℤ} {previous : Option ℤ} {candles : List Candle}
    (hprevious : ∀ p, previous = some p → p ∈ seen)
    (hseen : ∀ i ∈ seen, ∃ p, previous = some p ∧ i ≤ p) :
    validateFrom seen previous candles = [] ↔
      (∀ i ∈ seen, ∀ c ∈ candles, i < c.timestamp.instant) ∧ WellFormedSeries candles := by
  induction candles generalizing seen previous with
  | nil => simp [validateFrom, WellFormedSeries.mk List.Pairwise.nil (by simp) (by simp)]
  | cons c cs ih =>
    have hfirst : c.timestamp.instant ∉ seen ∧
        (∀ p, previous = some p → p ≤ c.timestamp.instant) ↔
          ∀ i ∈ seen, i < c.timestamp.instant := by
      constructor
      · rintro ⟨hnew, hle⟩ i hi
        obtain ⟨p, hp, hip⟩ := hseen i hi
        exact lt_of_le_of_ne (hip.trans (hle p hp)) fun he ↦ hnew (he ▸ hi)
      · intro hlt
        exact ⟨fun hmem ↦ (hlt _ hmem).false, fun p hp ↦ (hlt p (hprevious p hp)).le⟩
    have hlast (hlt : ∀ i ∈ seen, i < c.timestamp.instant) : ∀ i ∈ c.timestamp.instant :: seen,
        ∃ p, some c.timestamp.instant = some p ∧ i ≤ p :=
      List.forall_mem_cons.mpr ⟨⟨_, rfl, le_rfl⟩, fun i hi ↦ ⟨_, rfl, (hlt i hi).le⟩⟩
    rw [validateFrom, List.append_eq_nil_iff, issues_eq_nil_iff, ← and_assoc, hfirst]
    constructor
    · rintro ⟨⟨hlt, hvolume, hohlc⟩, hrest⟩
      rw [ih (by simp) (hlast hlt)] at hrest
      obtain ⟨hafter, hcs⟩ := hrest
      obtain ⟨hc, hafter⟩ := List.forall_mem_cons.mp hafter
      refine ⟨fun i hi ↦ List.forall_mem_cons.mpr ⟨hlt i hi, hafter i hi⟩, ?_, ?_, ?_⟩
      · exact .cons hc hcs.increasing
      · exact List.forall_mem_cons.mpr ⟨hvolume, hcs.volume⟩
      · exact List.forall_mem_cons.mpr ⟨hohlc, hcs.ohlc⟩
    · rintro ⟨hafter, hseries⟩
      obtain ⟨hc, hincreasing⟩ := List.pairwise_cons.mp hseries.increasing
      obtain ⟨hvolume, hvolumes⟩ := List.forall_mem_cons.mp hseries.volume
      obtain ⟨hohlc, hohlcs⟩ := List.forall_mem_cons.mp hseries.ohlc
      have hlt (i : ℤ) (hi : i ∈ seen) : i < c.timestamp.instant :=
        hafter i hi c List.mem_cons_self
      refine ⟨⟨hlt, hvolume, hohlc⟩, (ih (by simp) (hlast hlt)).mpr ⟨?_, ?_⟩⟩
      · exact List.forall_mem_cons.mpr ⟨hc, fun i hi ↦ (List.forall_mem_cons.mp (hafter i hi)).2⟩
      · exact ⟨hincreasing, hvolumes, hohlcs⟩

theorem validateCandles_eq_nil_iff {candles : List Candle} :
    validateCandles candles = [] ↔ WellFormedSeries candles :=
  (validateFrom_eq_nil_iff (by simp) (by simp)).trans (and_iff_right (by simp))

end TradingOS.Data
