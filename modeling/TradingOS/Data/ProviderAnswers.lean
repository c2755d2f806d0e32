import TradingOS.Data.ProviderFailover
import TradingOS.Lib.Document
import TradingOS.Lib.Fallible

namespace TradingOS.Data.ProviderAnswers

open Lib

/-- The `timestamp` of a candle: naive, aware, or pandas' `NaT`. -/
inductive Stamp
  | naive (wall : ℤ)
  | aware (ts : Timestamp)
  | notATime
  deriving DecidableEq

namespace Stamp

/-- What stamps of one kind are compared by. -/
def key : Stamp → ℤ
  | naive wall => wall
  | aware ts => ts.instant
  | notATime => 0

def Equal : Stamp → Stamp → Bool
  | naive wall, naive wall' => wall = wall'
  | aware ts, aware ts' => ts.instant = ts'.instant
  | notATime, notATime => true
  | _, _ => false

/-- `<`; a list with both naive and aware stamps does not get this far. -/
def Before : Stamp → Stamp → Bool
  | naive wall, naive wall' => wall < wall'
  | aware ts, aware ts' => ts.instant < ts'.instant
  | _, _ => false

/-- `.date()`, which `NaT` has none of. -/
def date : Stamp → Option ℤ
  | naive wall => some (wall / Timestamp.dayLength)
  | aware ts => some ts.date
  | notATime => none

end Stamp

/-- A `Candle` as a provider's parser builds it, before any check. -/
structure Quote where
  timestamp : Stamp
  openPrice : Number
  high : Number
  low : Number
  close : Number
  volume : ℤ
  openInterest : Option ℤ
  instrumentKey : String
  symbol : String
  timeframe : Timeframe
  provider : String

namespace Quote

def OhlcValid (q : Quote) : Bool :=
  q.low.le q.high && q.openPrice.le q.high && q.close.le q.high && q.low.le q.openPrice &&
    q.low.le q.close

def issues (seen : List Stamp) (previous : Option Stamp) (q : Quote) : List DataQualityIssue :=
  (if seen.any (q.timestamp.Equal ·) then [.duplicateTimestamp] else []) ++
    (if previous.any (q.timestamp.Before ·) then [.unsorted] else []) ++
    (if q.volume < 0 then [.negativeVolume] else []) ++
    if q.OhlcValid then [] else [.invalidOhlc]

end Quote

/-- `validate_candles` of whatever a parser let through. -/
def validateQuotesFrom (seen : List Stamp) (previous : Option Stamp) :
    List Quote → List DataQualityIssue
  | [] => []
  | q :: qs => q.issues seen previous ++ validateQuotesFrom (q.timestamp :: seen) q.timestamp qs

def validateQuotes (quotes : List Quote) : List DataQualityIssue :=
  validateQuotesFrom [] none quotes

/-- The readings that the parsers leave to Python's library. -/
structure Readings extends Conversions where
  fromisoformat : String → Option (ℤ ⊕ Timestamp)

section Parsers

variable (readings : Readings) (request : MarketRequest)

/-- An exception of a built-in operation is none that the manager handles. -/
def raised {α : Type} : Except BuiltinError α → Except Raised α
  | .ok a => .ok a
  | .error e => .error (.other e.name)

def stampOf : ℤ ⊕ Timestamp → Stamp
  | .inl wall => .naive wall
  | .inr ts => .aware ts

/-- `datetime.fromisoformat`. -/
def fromisoformat : Document → Except BuiltinError Stamp
  | .str s =>
    match readings.fromisoformat s with
    | some t => .ok (stampOf t)
    | none => .error .value
  | _ => .error .type

def openInterestOf (d : Document) : Except BuiltinError (Option ℤ) :=
  if d.isNull then .ok none else (d.toInt readings.toConversions).map some

namespace UpstoxV3Provider

/-- One candle of the comprehension in `get_historical_data`. -/
def candleOf (row : Document) : Except BuiltinError Quote := do
  let timestamp ← fromisoformat readings (← row.entry 0)
  let openPrice ← (← row.entry 1).toFloat readings.toConversions
  let high ← (← row.entry 2).toFloat readings.toConversions
  let low ← (← row.entry 3).toFloat readings.toConversions
  let close ← (← row.entry 4).toFloat readings.toConversions
  let volume ← (← row.entry 5).toInt readings.toConversions
  let openInterest ← openInterestOf readings (← row.entry 6)
  .ok ⟨timestamp, openPrice, high, low, close, volume, openInterest, request.instrumentKey,
    request.symbol, request.timeframe, "upstox_v3"⟩

def isNaive (q : Quote) : Bool :=
  match q.timestamp with
  | .naive _ => true
  | _ => false

/-- `candles.sort`, whose comparisons meet both kinds of stamps if the list has both. -/
def sort (quotes : List Quote) : Except BuiltinError (List Quote) :=
  if quotes.any isNaive && quotes.any (!isNaive ·) then .error .type
  else .ok (quotes.insertionSort (·.timestamp.key ≤ ·.timestamp.key))

/-- `get_historical_data` of the answer to a call. -/
def getHistoricalData (payload : Document) : Except Raised (List Quote) := do
  let rawCandles ← raised (do (← payload.item "data").item "candles")
  if rawCandles.truthy then
    raised (do sort (← (← rawCandles.iterate).mapM (candleOf readings request)))
  else .error (.provider .emptyData)

end UpstoxV3Provider

/-- A label of a frame's index. -/
inductive Label
  | timestamp (t : ℤ ⊕ Timestamp)
  | notATime
  | other
  deriving DecidableEq

/-- A frame by its rows, each cell under the name of its column. -/
structure Frame where
  columns : List String
  rows : List (Label × List (String × Document))

namespace YahooFinanceProvider

/-- `row[column]`: of several columns of one name it is a series, which is no number. -/
def cell (row : List (String × Document)) (column : String) : Except BuiltinError Document :=
  match row.filter (·.1 = column) with
  | [] => .error .key
  | [v] => .ok v.2
  | _ => .error .type

/-- `_to_ist(ts.to_pydatetime())`. -/
def stamp : Label → Except BuiltinError Stamp
  | .timestamp t => .ok (.aware (YahooFinanceProvider.toIst t))
  | .notATime => .ok .notATime
  | .other => .error .missingAttribute

def candleOf (row : Label × List (String × Document)) : Except BuiltinError Quote := do
  let timestamp ← stamp row.1
  let openPrice ← (← cell row.2 "Open").toFloat readings.toConversions
  let high ← (← cell row.2 "High").toFloat readings.toConversions
  let low ← (← cell row.2 "Low").toFloat readings.toConversions
  let close ← (← cell row.2 "Close").toFloat readings.toConversions
  let volume ← (← cell row.2 "Volume").toInt readings.toConversions
  .ok ⟨timestamp, openPrice, high, low, close, volume, none, request.instrumentKey,
    request.symbol, .oneDay, "yfinance"⟩

/-- `get_historical_data` of the frame that the library returns. -/
def getHistoricalData (history : Frame) : Except Raised (List Quote) :=
  if request.timeframe ≠ .oneDay then .error (.provider .unsupportedInterval)
  else if history.rows.isEmpty || history.columns.isEmpty then .error (.provider .emptyData)
  else raised (history.rows.mapM (candleOf readings request))

end YahooFinanceProvider

/-- The fetch comes back with candles or an error that the manager handles. -/
def Handled (fetched : Except Raised (List Quote)) : Prop :=
  (∃ quotes, fetched = .ok quotes) ∨ ∃ e, fetched = .error (.provider e)

def IsFloat (d : Document) : Prop := ∃ x, d.toFloat readings.toConversions = .ok x

def IsInt (d : Document) : Prop := ∃ n, d.toInt readings.toConversions = .ok n

/-- The text of a time, as the parser reads it. -/
def IsTime (d : Document) (t : ℤ ⊕ Timestamp) : Prop :=
  ∃ s, d = .str s ∧ readings.fromisoformat s = some t

/-- Seven entries of the types that a candle has. -/
structure RowReadable (row : Document) : Prop where
  timestamp : ∃ d t, row.entry 0 = .ok d ∧ IsTime readings d t
  price : ∀ i ∈ [1, 2, 3, 4], ∃ d, row.entry i = .ok d ∧ IsFloat readings d
  volume : ∃ d, row.entry 5 = .ok d ∧ IsInt readings d
  openInterest : ∃ d, row.entry 6 = .ok d ∧ (d.isNull ∨ IsInt readings d)

/-- A document with candles in their place, none at all or all of them readable, and their times
all naive or all aware. -/
def DocumentReadable (payload : Document) : Prop :=
  ∃ data candles, payload.item "data" = .ok data ∧ data.item "candles" = .ok candles ∧
    (candles.truthy = false ∨ ∃ rows, candles.iterate = .ok rows ∧
      (∀ row ∈ rows, RowReadable readings row) ∧
      ¬ ((∃ row ∈ rows, ∃ d wall, row.entry 0 = .ok d ∧ IsTime readings d (.inl wall)) ∧
        ∃ row ∈ rows, ∃ d ts, row.entry 0 = .ok d ∧ IsTime readings d (.inr ts)))

/-- A row under a time, with the five columns once each and numbers in them. -/
structure FrameRowReadable (row : Label × List (String × Document)) : Prop where
  label : row.1 ≠ .other
  price : ∀ column ∈ ["Open", "High", "Low", "Close"], ∃ d,
    YahooFinanceProvider.cell row.2 column = .ok d ∧ IsFloat readings d
  volume : ∃ d, YahooFinanceProvider.cell row.2 "Volume" = .ok d ∧ IsInt readings d

def FrameReadable (history : Frame) : Prop :=
  history.rows = [] ∨ history.columns = [] ∨
    ∀ row ∈ history.rows, FrameRowReadable readings row

end Parsers

section Totality

variable {readings : Readings} {request : MarketRequest} {row : Document}

theorem fromisoformat_eq_ok {d : Document} {stamp : Stamp} :
    fromisoformat readings d = .ok stamp ↔ ∃ t, IsTime readings d t ∧ stampOf t = stamp := by
  cases d with
  | str s => cases h : readings.fromisoformat s <;> simp [fromisoformat, IsTime, h]
  | _ => simp [fromisoformat, IsTime]

theorem exists_openInterestOf {d : Document} :
    (∃ n, openInterestOf readings d = .ok n) ↔ d.isNull ∨ IsInt readings d := by
  rw [openInterestOf, IsInt]
  cases hnull : d.isNull with
  | true => simp
  | false => cases d.toInt readings.toConversions <;> simp [Except.map]

theorem candleOf_eq_ok {q : Quote} (h : UpstoxV3Provider.candleOf readings request row = .ok q) :
    RowReadable readings row ∧
      ∃ d t, row.entry 0 = .ok d ∧ IsTime readings d t ∧ q.timestamp = stampOf t := by
  simp only [UpstoxV3Provider.candleOf, bind_eq_ok] at h
  obtain ⟨d₀, h₀, stamp, hstamp, d₁, h₁, x₁, hx₁, d₂, h₂, x₂, hx₂, d₃, h₃, x₃, hx₃, d₄, h₄, x₄, hx₄,
    d₅, h₅, n, hn, d₆, h₆, o, ho, hq⟩ := h
  obtain ⟨t, ht, rfl⟩ := fromisoformat_eq_ok.mp hstamp
  refine ⟨⟨⟨d₀, t, h₀, ht⟩, ?_, ⟨d₅, h₅, n, hn⟩, ⟨d₆, h₆, exists_openInterestOf.mp ⟨o, ho⟩⟩⟩,
    d₀, t, h₀, ht, ?_⟩
  · simp only [List.mem_cons, List.not_mem_nil, or_false, forall_eq_or_imp, forall_eq]
    exact ⟨⟨d₁, h₁, x₁, hx₁⟩, ⟨d₂, h₂, x₂, hx₂⟩, ⟨d₃, h₃, x₃, hx₃⟩, ⟨d₄, h₄, x₄, hx₄⟩⟩
  · obtain rfl := Except.ok.inj hq
    rfl

theorem exists_candleOf (h : RowReadable readings row) :
    ∃ q, UpstoxV3Provider.candleOf readings request row = .ok q := by
  obtain ⟨⟨d₀, t, h₀, ht⟩, hprice, ⟨d₅, h₅, n, hn⟩, d₆, h₆, ho⟩ := h
  obtain ⟨o, ho⟩ := exists_openInterestOf.mpr ho
  obtain ⟨d₁, h₁, x₁, hx₁⟩ := hprice 1 (by simp)
  obtain ⟨d₂, h₂, x₂, hx₂⟩ := hprice 2 (by simp)
  obtain ⟨d₃, h₃, x₃, hx₃⟩ := hprice 3 (by simp)
  obtain ⟨d₄, h₄, x₄, hx₄⟩ := hprice 4 (by simp)
  refine ⟨⟨stampOf t, x₁, x₂, x₃, x₄, n, o, request.instrumentKey, request.symbol,
    request.timeframe, "upstox_v3"⟩, ?_⟩
  simp only [UpstoxV3Provider.candleOf, bind_eq_ok]
  exact ⟨d₀, h₀, _, fromisoformat_eq_ok.mpr ⟨t, ht, rfl⟩, d₁, h₁, x₁, hx₁, d₂, h₂, x₂, hx₂,
    d₃, h₃, x₃, hx₃, d₄, h₄, x₄, hx₄, d₅, h₅, n, hn, d₆, h₆, o, ho, rfl⟩

theorem not_handled_iff {fetched : Except Raised (List Quote)} :
    ¬ Handled fetched ↔ ∃ text, fetched = .error (.other text) := by
  rcases fetched with (e | text) | quotes <;> simp [Handled]

theorem handled_raised {x : Except BuiltinError (List Quote)} :
    Handled (raised x) ↔ ∃ quotes, x = .ok quotes := by
  cases x <;> simp [Handled, raised]

theorem exists_sort {quotes : List Quote} :
    (∃ sorted, UpstoxV3Provider.sort quotes = .ok sorted) ↔
      ¬ ((∃ q ∈ quotes, UpstoxV3Provider.isNaive q) ∧
        ∃ q ∈ quotes, UpstoxV3Provider.isNaive q = false) := by
  have hmixed : (quotes.any UpstoxV3Provider.isNaive &&
      quotes.any (!UpstoxV3Provider.isNaive ·)) = true ↔
        (∃ q ∈ quotes, UpstoxV3Provider.isNaive q) ∧
          ∃ q ∈ quotes, UpstoxV3Provider.isNaive q = false := by
    rw [Bool.and_eq_true, List.any_eq_true, List.any_eq_true]
    simp only [Bool.not_eq_true']
  rw [UpstoxV3Provider.sort, ← hmixed]
  split
  · next h => simp [h]
  · next h => simp [h]

/-- What a parsed candle's kind of stamp says of its row. -/
theorem isNaive_iff {q : Quote} (h : UpstoxV3Provider.candleOf readings request row = .ok q) :
    (UpstoxV3Provider.isNaive q ↔ ∃ d wall, row.entry 0 = .ok d ∧ IsTime readings d (.inl wall)) ∧
      (UpstoxV3Provider.isNaive q = false ↔
        ∃ d ts, row.entry 0 = .ok d ∧ IsTime readings d (.inr ts)) := by
  obtain ⟨-, d, t, hd, ⟨s, rfl, ht⟩, hstamp⟩ := candleOf_eq_ok h
  have hunique (t' : ℤ ⊕ Timestamp) :
      (∃ d', row.entry 0 = .ok d' ∧ IsTime readings d' t') ↔ t = t' := by
    simp [hd, IsTime, ht]
  simp only [exists_comm (α := Document), hunique]
  cases t <;> simp [UpstoxV3Provider.isNaive, hstamp, stampOf]

/-- The parsed rows can be sorted unless some of their times are naive and others aware. -/
theorem exists_parsed {rows : List Document} :
    (∃ quotes, rows.mapM (UpstoxV3Provider.candleOf readings request) >>= UpstoxV3Provider.sort =
        .ok quotes) ↔
      (∀ row ∈ rows, RowReadable readings row) ∧
      ¬ ((∃ row ∈ rows, ∃ d wall, row.entry 0 = .ok d ∧ IsTime readings d (.inl wall)) ∧
        ∃ row ∈ rows, ∃ d ts, row.entry 0 = .ok d ∧ IsTime readings d (.inr ts)) := by
  constructor
  · rintro ⟨quotes, h⟩
    obtain ⟨parsed, hmap, hsort⟩ := bind_eq_ok.mp h
    refine ⟨fun row hrow ↦ ?_, ?_⟩
    · obtain ⟨q, -, hq⟩ := exists_mem_of_mapM hmap hrow
      exact (candleOf_eq_ok hq).1
    · rw [← exists_mem_mapM_iff hmap fun row q h ↦ (isNaive_iff h).1,
        ← exists_mem_mapM_iff hmap fun row q h ↦ (isNaive_iff h).2]
      exact exists_sort.mp ⟨quotes, hsort⟩
  · rintro ⟨hrows, hkinds⟩
    obtain ⟨parsed, hmap⟩ := exists_mapM_eq_ok.mpr fun row hrow ↦
      exists_candleOf (hrows row hrow)
    rw [← exists_mem_mapM_iff hmap fun row q h ↦ (isNaive_iff h).1,
      ← exists_mem_mapM_iff hmap fun row q h ↦ (isNaive_iff h).2] at hkinds
    obtain ⟨quotes, hsort⟩ := exists_sort.mpr hkinds
    exact ⟨quotes, bind_eq_ok.mpr ⟨parsed, hmap, hsort⟩⟩

/-- A document of the endpoint is handled exactly if it is readable. -/
theorem upstox_handled_iff {payload : Document} :
    Handled (UpstoxV3Provider.getHistoricalData readings request payload) ↔
      DocumentReadable readings payload := by
  rw [UpstoxV3Provider.getHistoricalData, DocumentReadable]
  cases hdata : payload.item "data" with
  | error e => simp [raised, Handled, bind, Except.bind]
  | ok data =>
    cases hcandles : data.item "candles" with
    | error e => simp [raised, Handled, bind, Except.bind, hcandles]
    | ok candles =>
      have hraw : raised (Except.ok data >>= fun data ↦ data.item "candles") =
          Except.ok candles := by
        change raised (data.item "candles") = _
        rw [hcandles]
        rfl
      rw [hraw]
      change Handled (if candles.truthy then _ else _) ↔ _
      simp only [Except.ok.injEq, exists_and_left, exists_eq_left', hcandles]
      cases htruthy : candles.truthy with
      | false => simp [Handled]
      | true =>
        simp only [if_true, handled_raised, Bool.true_eq_false, false_or]
        cases hrows : candles.iterate with
        | error e => simp [bind, Except.bind]
        | ok rows =>
          simp only [Except.ok.injEq, exists_eq_left']
          have hparsed := @exists_parsed readings request rows
          simp only [exists_and_left] at hparsed
          exact hparsed

/-- A frame that is looked at is handled exactly if it is empty or readable. -/
theorem yahoo_handled_iff {history : Frame} :
    Handled (YahooFinanceProvider.getHistoricalData readings request history) ↔
      request.timeframe ≠ .oneDay ∨ FrameReadable readings history := by
  have hrow (row : Label × List (String × Document)) :
      (∃ q, YahooFinanceProvider.candleOf readings request row = .ok q) ↔
        FrameRowReadable readings row := by
    simp only [YahooFinanceProvider.candleOf, bind_eq_ok]
    constructor
    · rintro ⟨q, stamp, hstamp, d₁, h₁, x₁, hx₁, d₂, h₂, x₂, hx₂, d₃, h₃, x₃, hx₃, d₄, h₄, x₄, hx₄,
        d₅, h₅, n, hn, -⟩
      refine ⟨?_, ?_, d₅, h₅, n, hn⟩
      · rintro hother
        rw [hother] at hstamp
        cases hstamp
      · simp only [List.mem_cons, List.not_mem_nil, or_false, forall_eq_or_imp, forall_eq]
        exact ⟨⟨d₁, h₁, x₁, hx₁⟩, ⟨d₂, h₂, x₂, hx₂⟩, ⟨d₃, h₃, x₃, hx₃⟩, ⟨d₄, h₄, x₄, hx₄⟩⟩
    · rintro ⟨hlabel, hprice, d₅, h₅, n, hn⟩
      obtain ⟨stamp, hstamp⟩ : ∃ stamp, YahooFinanceProvider.stamp row.1 = .ok stamp := by
        cases h : row.1 with
        | timestamp t => exact ⟨_, rfl⟩
        | notATime => exact ⟨_, rfl⟩
        | other => exact absurd h hlabel
      obtain ⟨d₁, h₁, x₁, hx₁⟩ := hprice "Open" (by simp)
      obtain ⟨d₂, h₂, x₂, hx₂⟩ := hprice "High" (by simp)
      obtain ⟨d₃, h₃, x₃, hx₃⟩ := hprice "Low" (by simp)
      obtain ⟨d₄, h₄, x₄, hx₄⟩ := hprice "Close" (by simp)
      exact ⟨_, stamp, hstamp, d₁, h₁, x₁, hx₁, d₂, h₂, x₂, hx₂, d₃, h₃, x₃, hx₃, d₄, h₄, x₄, hx₄,
        d₅, h₅, n, hn, rfl⟩
  rw [YahooFinanceProvider.getHistoricalData, FrameReadable]
  by_cases htimeframe : request.timeframe = .oneDay
  case neg => exact iff_of_true (.inr ⟨_, if_pos htimeframe⟩) (.inl htimeframe)
  rw [if_neg (not_not.mpr htimeframe), or_iff_right (not_not.mpr htimeframe)]
  split
  · next hempty =>
    refine iff_of_true (.inr ⟨_, rfl⟩) ?_
    rcases Bool.or_eq_true_iff.mp hempty with h | h
    · exact .inl (List.isEmpty_iff.mp h)
    · exact .inr (.inl (List.isEmpty_iff.mp h))
  · next hempty =>
    rw [Bool.or_eq_true_iff, List.isEmpty_iff, List.isEmpty_iff, not_or] at hempty
    rw [handled_raised, exists_mapM_eq_ok, or_iff_right hempty.1, or_iff_right hempty.2]
    exact forall₂_congr fun row _ ↦ hrow row

end Totality

end TradingOS.Data.ProviderAnswers
