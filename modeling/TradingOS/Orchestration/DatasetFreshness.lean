import Mathlib.Data.List.Induction
import Mathlib.Order.Basic
import TradingOS.Data.MarketData
import TradingOS.Lib.Table

namespace TradingOS.Orchestration.DatasetFreshness

open Data Lib

/-- `HOLIDAYS`: as a finite set it has an earliest day. -/
structure HolidayCalendar where
  holidays : ℤ → Bool
  first : ℤ
  none_before : ∀ d < first, holidays d = false

namespace HolidayCalendar

variable (calendar : HolidayCalendar)

def isTradingHoliday (d : ℤ) : Bool := 5 ≤ Date.weekday d || calendar.holidays d

/-- Going back, a weekday before the first holiday is met at last. -/
theorem exists_tradingDay (d : ℤ) : ∃ k : ℕ, calendar.isTradingHoliday (d - k) = false := by
  by_contra! hall
  have hclosed (k : ℕ) (hk : d - k < calendar.first) : 5 ≤ Date.weekday (d - k) := by
    simpa [isTradingHoliday, calendar.none_before _ hk] using hall k
  have h₀ := hclosed (d - calendar.first + 1).toNat (by omega)
  have h₁ := hclosed ((d - calendar.first + 1).toNat + 1) (by omega)
  have h₂ := hclosed ((d - calendar.first + 1).toNat + 2) (by omega)
  simp only [Date.weekday] at h₀ h₁ h₂
  omega

/-- The loop stops at the first day back that is no holiday. -/
def previousTradingDay (asOf : ℤ) : ℤ :=
  asOf - 1 - Nat.find (calendar.exists_tradingDay (asOf - 1))

theorem previousTradingDay_spec (asOf : ℤ) : calendar.previousTradingDay asOf < asOf ∧
    calendar.isTradingHoliday (calendar.previousTradingDay asOf) = false ∧
    ∀ d, calendar.previousTradingDay asOf < d → d < asOf → calendar.isTradingHoliday d := by
  have hfound := Nat.find_spec (calendar.exists_tradingDay (asOf - 1))
  have hmin {k : ℕ} (hk : k < Nat.find (calendar.exists_tradingDay (asOf - 1))) :=
    Nat.find_min (calendar.exists_tradingDay (asOf - 1)) hk
  rw [previousTradingDay]
  refine ⟨by omega, hfound, fun d hlow hhigh ↦ ?_⟩
  have hday : asOf - 1 - ((asOf - 1 - d).toNat : ℤ) = d := by omega
  have hd := hmin (k := (asOf - 1 - d).toNat) (by omega)
  rwa [hday, Bool.not_eq_false] at hd

theorem previousTradingDay_eq {asOf d : ℤ} (hlt : d < asOf)
    (hopen : calendar.isTradingHoliday d = false)
    (hbetween : ∀ e, d < e → e < asOf → calendar.isTradingHoliday e) :
    calendar.previousTradingDay asOf = d := by
  obtain ⟨hlt', hopen', hbetween'⟩ := calendar.previousTradingDay_spec asOf
  rcases lt_trichotomy (calendar.previousTradingDay asOf) d with h | h | h
  · exact absurd hopen (by simp [hbetween' d h hlt])
  · exact h
  · exact absurd hopen' (by simp [hbetween _ h hlt'])

end HolidayCalendar

/-- The days that `HOLIDAYS` lists. -/
def nseHolidays : HolidayCalendar where
  holidays := isHoliday
  first := 0
  none_before d hd := by
    have hyear : Date.year d < 2023 := by
      simp only [Date.year, Date.eraYear, Date.eraDay]
      split <;> omega
    simp [isHoliday, hyear.not_ge]

theorem isTradingHoliday_nseHolidays (d : ℤ) :
    nseHolidays.isTradingHoliday d = isTradingHoliday d := rfl

/-- How far a clock may be ahead of UTC. -/
structure ZoneOffset where
  micros : ℤ
  lower : -43200000000 ≤ micros
  upper : micros ≤ 50400000000

def ZoneOffset.utc : ZoneOffset := ⟨0, by decide, by decide⟩

/-- `datetime.now`, and the zone in which the process takes its dates. -/
structure Clock where
  now : ℤ
  zone : ZoneOffset

def Clock.today (clock : Clock) : ℤ := (clock.now + clock.zone.micros) / Timestamp.dayLength

/-- The session of a day is over at 15:30 in India. -/
def sessionClose (d : ℤ) : ℤ := d * Timestamp.dayLength + 55800000000 - Timestamp.istOffset

inductive CadenceKind
  | daily
  | intraday
  | weekly
  deriving DecidableEq

/-- `KNOWN_DATASETS`: cadence, freshness rule and kind. -/
def knownDatasets : List (String × String × String × CadenceKind) :=
  [("ohlcv_daily", "nightly after NSE close on trading days",
      "fresh if last successful update covers the previous trading day", .daily),
    ("instrument_master", "weekly", "fresh if updated within the last 7 days", .weekly),
    ("corporate_actions", "nightly after NSE close on trading days",
      "fresh if last successful update covers the previous trading day", .daily),
    ("news", "every 30 minutes during market hours", "fresh if updated within the last 2 hours",
      .intraday),
    ("nse_index_ohlcv", "nightly after NSE close on trading days",
      "fresh if last successful update covers the previous trading day", .daily)]

def cadenceKind (datasetName : String) : CadenceKind :=
  ((knownDatasets.lookup datasetName).map fun known ↦ known.2.2).getD .daily

inductive DatasetFreshnessStatus
  | fresh
  | stale
  | unavailable
  | failed
  deriving DecidableEq

/-- `retry_state`, when it is not empty. -/
structure RetryState where
  consecutiveFailures : ℕ
  lastDetail : String
  deriving DecidableEq

structure DatasetFreshnessRecord where
  cadence : String
  freshnessRule : String
  status : DatasetFreshnessStatus
  lastSuccessfulUpdate : Option ℤ
  lastChecksumOk : Option Bool
  retryState : Option RetryState
  updatedAt : ℤ
  deriving DecidableEq

/-- What an ingestion run reports, and the time it is written down. -/
structure IngestionResult where
  datasetName : String
  success : Bool
  checksumOk : Bool
  hasData : Bool
  detail : Option String
  now : ℤ
  deriving DecidableEq

def IngestionResult.Clean (r : IngestionResult) : Prop := r.success ∧ r.checksumOk ∧ r.hasData

instance : DecidablePred IngestionResult.Clean := fun _ ↦ inferInstanceAs (Decidable (_ ∧ _ ∧ _))

/-- The rows by their `dataset_name`, which is unique. -/
abbrev Records := Table String DatasetFreshnessRecord

def unseen (cadence freshnessRule : String) (now : ℤ) : DatasetFreshnessRecord :=
  ⟨cadence, freshnessRule, .unavailable, none, none, none, now⟩

/-- `ensure_seeded`. -/
def ensureSeeded (records : Records) (now : ℤ) : Records :=
  knownDatasets.foldl (fun records known ↦
    records.setdefault known.1 (unseen known.2.1 known.2.2.1 now)) records

def getOrCreate (records : Records) (datasetName : String) (now : ℤ) : Records :=
  let known := (knownDatasets.lookup datasetName).getD
    ("unknown", "no freshness rule registered for this dataset", .daily)
  records.setdefault datasetName (unseen known.1 known.2.1 now)

/-- What a result makes of the row. -/
def DatasetFreshnessRecord.record (row : DatasetFreshnessRecord) (r : IngestionResult) :
    DatasetFreshnessRecord :=
  if r.Clean then
    { row with
      status := .fresh
      lastSuccessfulUpdate := some r.now
      lastChecksumOk := some true
      retryState := none
      updatedAt := r.now }
  else
    { row with
      status := if r.success then .failed else .unavailable
      lastChecksumOk := if r.success then some r.checksumOk else row.lastChecksumOk
      retryState := some ⟨(row.retryState.map RetryState.consecutiveFailures).getD 0 + 1,
        match r.detail with
        | some detail => if detail = "" then "ingestion did not produce valid, checked data" else detail
        | none => "ingestion did not produce valid, checked data"⟩
      updatedAt := r.now }

def recordIngestionResult (records : Records) (r : IngestionResult) : Records :=
  (getOrCreate records r.datasetName r.now).modify r.datasetName (·.record r)

/-- What writes to the table: a console snapshot, or a run of ingestion. -/
inductive Write
  | snapshot (now : ℤ)
  | ingestion (r : IngestionResult)

def apply (records : Records) : Write → Records
  | .snapshot now => ensureSeeded records now
  | .ingestion r => recordIngestionResult records r

/-- `_within_cadence`; `zone` is the one in which the stored time is read. -/
def withinCadence (calendar : HolidayCalendar) (clock : Clock) (zone : ZoneOffset)
    (row : DatasetFreshnessRecord) (datasetName : String) : Bool :=
  match row.lastSuccessfulUpdate with
  | none => false
  | some last =>
    match cadenceKind datasetName with
    | .intraday => clock.now - last ≤ 7200000000
    | .weekly => clock.now - last ≤ 604800000000
    | .daily =>
      calendar.previousTradingDay clock.today ≤ (last + zone.micros) / Timestamp.dayLength

def isFresh (calendar : HolidayCalendar) (clock : Clock) (zone : ZoneOffset) (records : Records)
    (datasetName : String) : Bool :=
  match records.get? datasetName with
  | none => false
  | some row =>
    if row.status ≠ .fresh then false else withinCadence calendar clock zone row datasetName

/-- The update that a row marked fresh goes back to. -/
def freshSince (records : Records) (datasetName : String) : Option ℤ :=
  (records.get? datasetName).bind fun row ↦
    if row.status = .fresh then row.lastSuccessfulUpdate else none

/-- The last result reported for a dataset. -/
def lastResult (writes : List Write) (datasetName : String) : Option IngestionResult :=
  lastOf IngestionResult.datasetName (writes.filterMap fun
    | .snapshot _ => none
    | .ingestion r => some r) datasetName

section History

variable {records : Records} {datasetName : String}

theorem freshSince_setdefault (name cadence freshnessRule : String) (now : ℤ) :
    freshSince (records.setdefault name (unseen cadence freshnessRule now)) datasetName =
      freshSince records datasetName := by
  rw [freshSince, freshSince, Table.get?_setdefault]
  split
  · next h =>
    subst h
    cases records.get? datasetName <;> rfl
  · rfl

theorem freshSince_ensureSeeded (now : ℤ) :
    freshSince (ensureSeeded records now) datasetName = freshSince records datasetName := by
  rw [ensureSeeded]
  generalize knownDatasets = known
  induction known generalizing records with
  | nil => rfl
  | cons first known ih => rw [List.foldl_cons, ih, freshSince_setdefault]

theorem freshSince_record (row : DatasetFreshnessRecord) (r : IngestionResult) :
    (if (row.record r).status = .fresh then (row.record r).lastSuccessfulUpdate else none) =
      if r.Clean then some r.now else none := by
  rw [DatasetFreshnessRecord.record]
  by_cases hclean : r.Clean
  · simp [hclean]
  · cases hsuccess : r.success <;> simp [hclean]

/-- A result decides on its own whether its dataset is marked fresh, and since when. -/
theorem freshSince_recordIngestionResult (r : IngestionResult) :
    freshSince (recordIngestionResult records r) datasetName =
      if datasetName = r.datasetName then if r.Clean then some r.now else none
      else freshSince records datasetName := by
  rw [freshSince, recordIngestionResult, Table.get?_modify]
  split
  · next h =>
    subst h
    rw [getOrCreate, Table.get?_setdefault, if_pos rfl, Option.map_some, Option.bind_some,
      freshSince_record]
  · exact freshSince_setdefault _ _ _ _

theorem freshSince_foldl (writes : List Write) :
    freshSince (writes.foldl apply .empty) datasetName =
      (lastResult writes datasetName).bind fun r ↦ if r.Clean then some r.now else none := by
  induction writes using List.reverseRecOn with
  | nil => rfl
  | append_singleton writes w ih =>
    rw [List.foldl_append, List.foldl_cons, List.foldl_nil, lastResult, List.filterMap_append,
      lastOf_append]
    cases w with
    | snapshot now => exact (freshSince_ensureSeeded now).trans ih
    | ingestion r =>
      rw [apply, freshSince_recordIngestionResult, List.filterMap_cons, List.filterMap_nil,
        lastOf_cons]
      by_cases h : datasetName = r.datasetName
      · simp [h, lastOf]
      · simp [h, Ne.symm h, lastOf, ih, lastResult]

theorem isFresh_daily_iff (calendar : HolidayCalendar) (clock : Clock) (zone : ZoneOffset)
    (hdaily : cadenceKind datasetName = .daily) :
    isFresh calendar clock zone records datasetName ↔ ∃ last,
      freshSince records datasetName = some last ∧
      calendar.previousTradingDay clock.today ≤ (last + zone.micros) / Timestamp.dayLength := by
  rw [isFresh, freshSince]
  cases records.get? datasetName with
  | none => simp
  | some row =>
    by_cases hfresh : row.status = .fresh
    · cases hlast : row.lastSuccessfulUpdate <;> simp [hfresh, withinCadence, hdaily, hlast]
    · simp [hfresh]

end History

/-- The session of a trading day is over. -/
def Completed (calendar : HolidayCalendar) (now d : ℤ) : Prop :=
  calendar.isTradingHoliday d = false ∧ sessionClose d ≤ now

/-- A date in a zone lies wholly after the close of every earlier day. -/
theorem sessionClose_le {zone : ZoneOffset} {d t : ℤ}
    (h : d < (t + zone.micros) / Timestamp.dayLength) : sessionClose d ≤ t := by
  have hupper := zone.upper
  simp only [sessionClose, Timestamp.dayLength, Timestamp.istOffset] at *
  omega

/-- What a daily dataset that is reported fresh has been updated since. -/
structure CoversPrevious (calendar : HolidayCalendar) (clock : Clock) (zone : ZoneOffset)
    (last : ℤ) : Prop where
  date : calendar.previousTradingDay clock.today ≤ (last + zone.micros) / Timestamp.dayLength
  before : ∀ d < calendar.previousTradingDay clock.today, sessionClose d ≤ last
  session : calendar.previousTradingDay clock.today ≠ (last + zone.micros) / Timestamp.dayLength →
    sessionClose (calendar.previousTradingDay clock.today) ≤ last

/-- After any writes, a daily dataset is fresh if the last result reported for it was clean and is
not dated before the previous trading day; it was then written down after the close of every
earlier session, and of that day's own if it is dated later. -/
theorem fresh_iff_coversPrevious (calendar : HolidayCalendar) (clock : Clock) (zone : ZoneOffset)
    (writes : List Write) (datasetName : String) (hdaily : cadenceKind datasetName = .daily) :
    isFresh calendar clock zone (writes.foldl apply .empty) datasetName ↔
      ∃ r, lastResult writes datasetName = some r ∧ r.Clean ∧
        CoversPrevious calendar clock zone r.now := by
  rw [isFresh_daily_iff calendar clock zone hdaily, freshSince_foldl]
  simp only [Option.bind_eq_some_iff, Option.ite_none_right_eq_some, Option.some.injEq]
  constructor
  · rintro ⟨last, ⟨r, hr, hclean, rfl⟩, hdate⟩
    exact ⟨r, hr, hclean, hdate, fun d hd ↦ sessionClose_le (hd.trans_le hdate),
      fun hne ↦ sessionClose_le (lt_of_le_of_ne hdate hne)⟩
  · rintro ⟨r, hr, hclean, hcovers⟩
    exact ⟨r.now, ⟨r, hr, hclean, rfl⟩, hcovers.date⟩

theorem completed_previousTradingDay (calendar : HolidayCalendar) (clock : Clock) :
    Completed calendar clock.now (calendar.previousTradingDay clock.today) := by
  obtain ⟨hlt, hopen, -⟩ := calendar.previousTradingDay_spec clock.today
  exact ⟨hopen, sessionClose_le hlt⟩

/-- A result was written down at or after the close of each session that is over by now. -/
def AfterCloses (calendar : HolidayCalendar) (now : ℤ) (r : IngestionResult) : Prop :=
  ∀ d, Completed calendar now d → sessionClose d ≤ r.now

/-- A result dated on the previous trading day was written down after its close, and one dated then
or later after the close of each later session that is over. -/
structure Timely (calendar : HolidayCalendar) (clock : Clock) (zone : ZoneOffset)
    (r : IngestionResult) : Prop where
  onPrevious : (r.now + zone.micros) / Timestamp.dayLength =
      calendar.previousTradingDay clock.today →
    sessionClose (calendar.previousTradingDay clock.today) ≤ r.now
  later : calendar.previousTradingDay clock.today ≤ (r.now + zone.micros) / Timestamp.dayLength →
    ∀ d, calendar.previousTradingDay clock.today < d → Completed calendar clock.now d →
      sessionClose d ≤ r.now

/-- A daily dataset that is reported fresh has been updated since the close of the last session that
is over, exactly if the last result reported for it, when clean, is timely. -/
theorem fresh_after_closes_iff (calendar : HolidayCalendar) (clock : Clock) (zone : ZoneOffset)
    (writes : List Write) (datasetName : String) (hdaily : cadenceKind datasetName = .daily) :
    (isFresh calendar clock zone (writes.foldl apply .empty) datasetName →
      ∃ r, lastResult writes datasetName = some r ∧ r.Clean ∧
        AfterCloses calendar clock.now r) ↔
      ∀ r, lastResult writes datasetName = some r → r.Clean →
        Timely calendar clock zone r := by
  rw [fresh_iff_coversPrevious calendar clock zone writes datasetName hdaily]
  constructor
  · intro h r hr hclean
    have hcloses (hdate : calendar.previousTradingDay clock.today ≤
        (r.now + zone.micros) / Timestamp.dayLength) : AfterCloses calendar clock.now r := by
      have hcovers : CoversPrevious calendar clock zone r.now :=
        ⟨hdate, fun d hd ↦ sessionClose_le (hd.trans_le hdate),
          fun hne ↦ sessionClose_le (lt_of_le_of_ne hdate hne)⟩
      obtain ⟨r', hr', -, hafter⟩ := h ⟨r, hr, hclean, hcovers⟩
      obtain rfl := Option.some.inj (hr.symm.trans hr')
      exact hafter
    constructor
    · intro hon
      exact hcloses hon.ge _ (completed_previousTradingDay calendar clock)
    · intro hdate d _ hover
      exact hcloses hdate d hover
  · rintro h ⟨r, hr, hclean, hcovers⟩
    obtain ⟨hon, hlater⟩ := h r hr hclean
    refine ⟨r, hr, hclean, fun d hover ↦ ?_⟩
    rcases lt_trichotomy d (calendar.previousTradingDay clock.today) with hd | rfl | hd
    · exact hcovers.before d hd
    · by_cases hdate : (r.now + zone.micros) / Timestamp.dayLength =
          calendar.previousTradingDay clock.today
      · exact hon hdate
      · exact hcovers.session (Ne.symm hdate)
    · exact hlater hcovers.date d hd hover

namespace Ohlcv

/-- An update on Monday at 11:00 in India. -/
def mondayMorning : IngestionResult :=
  ⟨"ohlcv_daily", true, true, true, none, 20003 * Timestamp.dayLength + 19800000000⟩

/-- Tuesday at 10:00 in India. -/
def tuesdayMorning : Clock := ⟨20004 * Timestamp.dayLength + 16200000000, .utc⟩

theorem previousTradingDay_tuesday (clock : Clock) (htoday : clock.today = 20004) :
    nseHolidays.previousTradingDay clock.today = 20003 := by
  rw [htoday]
  exact nseHolidays.previousTradingDay_eq (by decide) (by decide) fun e hlow hhigh ↦ by omega

/-- Monday's session is the last one over, and the update that counts for it came before its
close. -/
theorem morning_counts :
    isFresh nseHolidays tuesdayMorning .utc ([.ingestion mondayMorning].foldl apply .empty)
        "ohlcv_daily" ∧
      Completed nseHolidays tuesdayMorning.now 20003 ∧
      (∀ d, Completed nseHolidays tuesdayMorning.now d → d ≤ 20003) ∧
      mondayMorning.now < sessionClose 20003 := by
  refine ⟨?_, ⟨by decide, by decide⟩, fun d hd ↦ ?_, by decide⟩
  · rw [isFresh_daily_iff nseHolidays tuesdayMorning .utc (by decide), freshSince_foldl,
      previousTradingDay_tuesday tuesdayMorning (by decide)]
    exact ⟨mondayMorning.now, by decide, by decide⟩
  · have hclose := hd.2
    simp only [sessionClose, tuesdayMorning, Timestamp.dayLength, Timestamp.istOffset] at hclose
    omega

theorem fresh_after_closes_iff_morning :
    (isFresh nseHolidays tuesdayMorning .utc ([.ingestion mondayMorning].foldl apply .empty)
        "ohlcv_daily" →
      ∃ r, lastResult [.ingestion mondayMorning] "ohlcv_daily" = some r ∧ r.Clean ∧
        AfterCloses nseHolidays tuesdayMorning.now r) ↔
      ∀ r, lastResult [.ingestion mondayMorning] "ohlcv_daily" = some r → r.Clean →
        Timely nseHolidays tuesdayMorning .utc r :=
  fresh_after_closes_iff nseHolidays tuesdayMorning .utc [.ingestion mondayMorning] "ohlcv_daily"
    (by decide)

end Ohlcv

end TradingOS.Orchestration.DatasetFreshness
