import TradingOS.Data.Bhavcopy
import TradingOS.Data.ParquetLake

namespace TradingOS.Data

open Lib

structure MarketRequest where
  instrumentKey : String
  symbol : String
  start : ℤ
  stop : ℤ
  timeframe : Timeframe

def Candle.ofBar (request : MarketRequest) (provider : String) (openInterest : Option ℤ)
    (timestamp : Timestamp) (bar : Ohlcv) : Candle where
  timestamp := timestamp
  openPrice := bar.openPrice
  high := bar.high
  low := bar.low
  close := bar.close
  volume := bar.volume
  openInterest := openInterest
  instrumentKey := request.instrumentKey
  symbol := request.symbol
  timeframe := request.timeframe
  provider := provider

namespace YahooFinanceProvider

/-- `YahooSymbolMapper.to_yahoo_symbol`. -/
def toYahooSymbol (symbol exchange : String) : Option String :=
  if symbol.startsWith "^" || symbol.endsWith ".NS" || symbol.endsWith ".BO" then some symbol
  else if exchange = "NSE" then some (symbol ++ ".NS")
  else if exchange = "BSE" then some (symbol ++ ".BO")
  else none

/-- `_to_ist` of a time that may be naive, which is then its wall clock alone. -/
def toIst : ℤ ⊕ Timestamp → Timestamp
  | .inl wall => ⟨wall, Timestamp.istOffset⟩
  | .inr ts => ts.astimezone Timestamp.istOffset

/-- `Ticker(..).history(..)`: its index and values, or an exception of the library. -/
abbrev History := (ticker : String) → (start stop : ℤ) → Except String (List ((ℤ ⊕ Timestamp) × Ohlcv))

def getHistoricalData (history : History) (request : MarketRequest) : Except Raised (List Candle) :=
  if request.timeframe ≠ .oneDay then .error (.provider .unsupportedInterval)
  else
    match toYahooSymbol request.symbol "NSE" with
    | none => .error (.provider .instrumentNotFound)
    | some ticker =>
      match history ticker request.start request.stop with
      | .error _ => .error (.provider .network)
      | .ok [] => .error (.provider .emptyData)
      | .ok rows => .ok (rows.map fun row ↦
          Candle.ofBar request "yfinance" none (toIst row.1) row.2)

end YahooFinanceProvider

namespace UpstoxV3Provider

/-- `TIMEFRAME_MAP`, which has every timeframe. -/
def unitAndInterval : Timeframe → String × String
  | .oneMinute => ("minutes", "1")
  | .fiveMinutes => ("minutes", "5")
  | .fifteenMinutes => ("minutes", "15")
  | .thirtyMinutes => ("minutes", "30")
  | .oneHour => ("hours", "1")
  | .oneDay => ("days", "1")
  | .oneWeek => ("weeks", "1")
  | .oneMonth => ("months", "1")

structure CandleRow where
  timestamp : Timestamp
  bar : Ohlcv
  openInterest : Option ℤ

/-- `_get` of the candles' path, where the last day comes before the first. -/
abbrev Endpoint := (instrumentKey unit interval : String) → (toDate fromDate : ℤ) →
  Except Raised (List CandleRow)

def getHistoricalData (endpoint : Endpoint) (request : MarketRequest) :
    Except Raised (List Candle) :=
  let (unit, interval) := unitAndInterval request.timeframe
  match endpoint request.instrumentKey unit interval request.stop request.start with
  | .error raised => .error raised
  | .ok [] => .error (.provider .emptyData)
  | .ok rows => .ok ((rows.map fun row ↦
      Candle.ofBar request "upstox_v3" row.openInterest row.timestamp row.bar).insertionSort
        (·.timestamp.instant ≤ ·.timestamp.instant))

end UpstoxV3Provider

/-- The three providers with what they ask: the library, the endpoint, and the archive at a time. -/
structure Vendors where
  history : YahooFinanceProvider.History
  endpoint : UpstoxV3Provider.Endpoint
  reader : FoReader
  archive : Archive
  time : ℤ

inductive Vendor
  | yahooFinance
  | upstoxV3
  | nseFoBhavcopy
  deriving DecidableEq

namespace Vendors

variable (vendors : Vendors)

/-- `get_historical_data` of a provider. -/
def fetch (request : MarketRequest) : Vendor → Except Raised (List Candle)
  | .yahooFinance => YahooFinanceProvider.getHistoricalData vendors.history request
  | .upstoxV3 => UpstoxV3Provider.getHistoricalData vendors.endpoint request
  | .nseFoBhavcopy =>
    (NseFoBhavcopy.getHistoricalData vendors.reader vendors.archive
      ⟨request.instrumentKey, request.symbol, request.start, request.stop, request.timeframe,
        vendors.time, fun _ ↦ true⟩ .empty).2.mapError Prod.snd

end Vendors

structure DailyBar where
  date : ℤ
  bar : Ohlcv
  deriving DecidableEq

def Candle.dailyBar (c : Candle) : DailyBar :=
  ⟨c.timestamp.date, c.openPrice, c.high, c.low, c.close, c.volume⟩

/-- The daily bars of an instrument. -/
structure Series where
  bars : List DailyBar
  increasing : bars.Pairwise (·.date < ·.date)

namespace Series

variable (s : Series)

def window (start stop : ℤ) : List DailyBar := s.bars.filter fun b ↦ start ≤ b.date ∧ b.date ≤ stop

def at? (d : ℤ) : Option Ohlcv := (s.bars.find? (·.date = d)).map DailyBar.bar

end Series

/-- What a fetch has to come to: the bars, or `ProviderEmptyDataError` if there are none. -/
def expected (bars : List DailyBar) : Except Raised (List DailyBar) :=
  if bars = [] then .error (.provider .emptyData) else .ok bars

def Delivers (fetched : Except Raised (List Candle)) (bars : List DailyBar) : Prop :=
  fetched.map (List.map Candle.dailyBar) = expected bars

/-- The library holds the series under a ticker, with the dates its index has in India. -/
def YahooFinanceProvider.Holds (history : History) (ticker : String) (s : Series) : Prop :=
  ∀ start stop, ∃ rows, history ticker start stop = .ok rows ∧
    rows.map (fun row ↦ DailyBar.mk (toIst row.1).date row.2) =
      s.bars.filter fun b ↦ start ≤ b.date ∧ b.date < stop

/-- The endpoint holds the series under a key, with Indian times and in any order. -/
def UpstoxV3Provider.Holds (endpoint : Endpoint) (instrumentKey : String) (s : Series) : Prop :=
  ∀ fromDate toDate, fromDate ≤ toDate →
    ∃ rows, endpoint instrumentKey "days" "1" toDate fromDate = .ok rows ∧
      (rows.map fun row ↦ DailyBar.mk row.timestamp.date row.bar).Perm (s.window fromDate toDate) ∧
      ∀ row ∈ rows, row.timestamp.offset = Timestamp.istOffset

/-- The archive holds the series of a contract over a window: the files of its days can be read, or
there is none. -/
def NseFoBhavcopy.Holds (reader : FoReader) (archive : Archive) (time : ℤ) (contract : FoContract)
    (s : Series) (start stop : ℤ) : Prop :=
  ∀ d, start ≤ d → d ≤ stop → ∃ row, rowOf reader archive time contract .empty d = .ok row ∧
    row.map (fun row ↦ (row.toCandle d "" "").dailyBar.bar) = s.at? d

/-- A day that the provider looks at: a trading day of what it takes for the contract's life. -/
def NseFoBhavcopy.Scans (contract : FoContract) (d : ℤ) : Prop :=
  isTradingHoliday d = false ∧ contract.expiry - maxContractLookbackDays ≤ d ∧
    d ≤ contract.expiry + 2

instance (contract : FoContract) (d : ℤ) : Decidable (NseFoBhavcopy.Scans contract d) :=
  inferInstanceAs (Decidable (_ ∧ _))

/-- Each vendor holds its series of the instrument asked for. -/
structure Vendors.Hold (vendors : Vendors) (request : MarketRequest) (series : Vendor → Series) :
    Prop where
  yahooFinance : ∀ ticker, YahooFinanceProvider.toYahooSymbol request.symbol "NSE" = some ticker →
    YahooFinanceProvider.Holds vendors.history ticker (series .yahooFinance)
  upstoxV3 : UpstoxV3Provider.Holds vendors.endpoint request.instrumentKey (series .upstoxV3)
  nseFoBhavcopy : ∀ contract, vendors.reader.parseFoSymbol request.symbol = some contract →
    NseFoBhavcopy.Holds vendors.reader vendors.archive vendors.time contract (series .nseFoBhavcopy)
      request.start request.stop

section Windows

variable {s : Series} {bars bars' : List DailyBar} {start stop d : ℤ} {b : DailyBar}
  {request : MarketRequest}

theorem expected_inj : expected bars = expected bars' ↔ bars = bars' := by
  simp only [expected]
  by_cases h : bars = [] <;> by_cases h' : bars' = [] <;> simp [h, h', eq_comm]

theorem expected_map {candles : List Candle} (h : candles.map Candle.dailyBar = bars)
    (hne : candles ≠ []) : Delivers (.ok candles) bars := by
  have hbars : bars ≠ [] := by
    rintro rfl
    exact hne (List.map_eq_nil_iff.mp h)
  rw [Delivers, expected, if_neg hbars, ← h]
  rfl

theorem delivers_empty (h : bars = []) : Delivers (.error (.provider .emptyData)) bars := by
  rw [Delivers, expected, if_pos h]
  rfl

namespace Series

theorem mem_window : b ∈ s.window start stop ↔ b ∈ s.bars ∧ start ≤ b.date ∧ b.date ≤ stop := by
  simp [window]

theorem pairwise_window : (s.window start stop).Pairwise (·.date < ·.date) := s.increasing.filter _

theorem eq_of_date_eq {b' : DailyBar} (hb : b ∈ s.bars) (hb' : b' ∈ s.bars)
    (h : b.date = b'.date) : b = b' :=
  List.inj_on_of_nodup_map (nodup_map_of_pairwise_lt s.increasing) hb hb' h

theorem at?_eq_some_iff {bar : Ohlcv} : s.at? d = some bar ↔ ⟨d, bar⟩ ∈ s.bars := by
  simp only [at?, Option.map_eq_some_iff]
  constructor
  · rintro ⟨b, hb, rfl⟩
    have hdate : b.date = d := by simpa using List.find?_some hb
    subst hdate
    exact List.mem_of_find?_eq_some hb
  · intro hb
    cases hfind : s.bars.find? (·.date = d) with
    | none => simpa using List.find?_eq_none.mp hfind _ hb
    | some b =>
      have hdate : b.date = d := by simpa using List.find?_some hfind
      refine ⟨b, rfl, ?_⟩
      rw [s.eq_of_date_eq (List.mem_of_find?_eq_some hfind) hb hdate]

/-- A window without its last day is the whole one exactly if that day has no bar. -/
theorem filter_lt_eq_window_iff (h : start ≤ stop) :
    s.bars.filter (fun b ↦ start ≤ b.date ∧ b.date < stop) = s.window start stop ↔
      ∀ b ∈ s.bars, b.date ≠ stop := by
  constructor
  · intro heq b hb hstop
    have hmem : b ∈ s.window start stop := mem_window.mpr ⟨hb, hstop ▸ h, hstop.le⟩
    rw [← heq] at hmem
    simp [hstop] at hmem
  · intro hnone
    refine List.filter_congr fun b hb ↦ ?_
    have hne := hnone b hb
    simp only [decide_eq_decide]
    omega

theorem filter_eq_window_iff {p : DailyBar → Prop} [DecidablePred p] :
    (s.window start stop).filter p = s.window start stop ↔ ∀ b ∈ s.window start stop, p b := by
  simp [List.filter_eq_self]

end Series

/-- A symbol of the exchange has a ticker, whatever it looks like. -/
theorem YahooFinanceProvider.exists_ticker (symbol : String) :
    ∃ ticker, toYahooSymbol symbol "NSE" = some ticker := by
  simp only [toYahooSymbol, if_true]
  split <;> exact ⟨_, rfl⟩

theorem YahooFinanceProvider.delivers {history : History} {ticker : String}
    (hticker : toYahooSymbol request.symbol "NSE" = some ticker)
    (htimeframe : request.timeframe = .oneDay) (h : Holds history ticker s) :
    Delivers (getHistoricalData history request)
      (s.bars.filter fun b ↦ request.start ≤ b.date ∧ b.date < request.stop) := by
  obtain ⟨rows, hrows, hbars⟩ := h request.start request.stop
  simp only [getHistoricalData, htimeframe, ne_eq, not_true_eq_false, if_false, hticker, hrows]
  split
  · next hrow => cases hrow
  · next hrow =>
    obtain rfl := Except.ok.inj hrow
    exact delivers_empty hbars.symm
  · next rows' hne hrow =>
    obtain rfl := Except.ok.inj hrow
    refine expected_map ?_ fun hnil ↦ hne (List.map_eq_nil_iff.mp hnil)
    rw [← hbars, List.map_map]
    rfl

theorem date_le_of_instant_le {c c' : Candle} (hc : c.timestamp.offset = Timestamp.istOffset)
    (hc' : c'.timestamp.offset = Timestamp.istOffset)
    (hle : c.timestamp.instant ≤ c'.timestamp.instant) : c.dailyBar.date ≤ c'.dailyBar.date := by
  simp only [Timestamp.instant, hc, hc'] at hle
  exact Int.ediv_le_ediv (by decide) (by omega)

/-- Indian candles sorted by their instants are in the order of their dates. -/
theorem map_dailyBar_sorted {candles : List Candle}
    (hperm : (candles.map Candle.dailyBar).Perm (s.window start stop))
    (hoffset : ∀ c ∈ candles, c.timestamp.offset = Timestamp.istOffset) :
    (candles.insertionSort (·.timestamp.instant ≤ ·.timestamp.instant)).map Candle.dailyBar =
      s.window start stop := by
  let S : Sorting (fun c : Candle ↦ c.timestamp.instant) := .insertion _
  change (S.sort candles).map Candle.dailyBar = _
  have hsorted := ((S.perm candles).map Candle.dailyBar).trans hperm
  have hnodup : (((S.sort candles).map Candle.dailyBar).map DailyBar.date).Nodup :=
    (hsorted.map DailyBar.date).nodup_iff.mpr (nodup_map_of_pairwise_lt Series.pairwise_window)
  refine eq_of_pairwise_lt DailyBar.date ?_ Series.pairwise_window fun b ↦ hsorted.mem_iff
  rw [List.pairwise_map]
  rw [List.map_map, List.Nodup, List.pairwise_map] at hnodup
  refine ((S.sorted candles).and hnodup).imp_of_mem fun hc hc' hle ↦ ?_
  rw [Sorting.mem_sort] at hc hc'
  exact lt_of_le_of_ne (date_le_of_instant_le (hoffset _ hc) (hoffset _ hc') hle.1) hle.2

theorem UpstoxV3Provider.delivers {endpoint : Endpoint} (htimeframe : request.timeframe = .oneDay)
    (hle : request.start ≤ request.stop) (h : Holds endpoint request.instrumentKey s) :
    Delivers (getHistoricalData endpoint request) (s.window request.start request.stop) := by
  obtain ⟨rows, hrows, hperm, hoffset⟩ := h request.start request.stop hle
  simp only [getHistoricalData, htimeframe, unitAndInterval, hrows]
  split
  · next hrow => cases hrow
  · next hrow =>
    obtain rfl := Except.ok.inj hrow
    exact delivers_empty hperm.symm.eq_nil
  · next rows' hne hrow =>
    obtain rfl := Except.ok.inj hrow
    refine expected_map (map_dailyBar_sorted ?_ ?_) fun hnil ↦ hne ?_
    · rw [List.map_map]
      exact hperm
    · intro c hc
      obtain ⟨row, hrow, rfl⟩ := List.mem_map.mp hc
      exact hoffset row hrow
    · have hlength := congrArg List.length hnil
      rwa [List.length_insertionSort, List.length_map, List.length_nil,
        List.length_eq_zero_iff] at hlength

namespace NseFoBhavcopy

variable {reader : FoReader} {archive : Archive} {time : ℤ} {contract : FoContract}

theorem collect_of_ok {ε γ : Type} {f : ℤ → Except ε (Option γ)} {k : ℤ → Option γ} {days : List ℤ}
    (h : ∀ d ∈ days, f d = .ok (k d)) : collect f days = .ok (days.filterMap k) := by
  induction days with
  | nil => rfl
  | cons day days ih =>
    rw [List.forall_mem_cons] at h
    rw [collect, h.1, ih h.2]
    cases hk : k day with
    | none => rw [List.filterMap_cons_none hk]; rfl
    | some c => rw [List.filterMap_cons_some hk]; rfl

theorem mem_scanDays : d ∈ scanDays contract start stop ↔
    (start ≤ d ∧ d ≤ stop) ∧ Scans contract d := by
  rw [scanDays, mem_tradingDaysBetween, max_le_iff, le_min_iff, Scans]
  tauto

/-- Scanning the days of a window finds its bars of these days. -/
theorem filterMap_scanDays (contract : FoContract) (s : Series) (start stop : ℤ) :
    (scanDays contract start stop).filterMap (fun d ↦ (s.at? d).map (DailyBar.mk d)) =
      (s.window start stop).filter fun b ↦ Scans contract b.date := by
  have hmem (b : DailyBar) (d : ℤ) : (s.at? d).map (DailyBar.mk d) = some b ↔
      b ∈ s.bars ∧ b.date = d := by
    simp only [Option.map_eq_some_iff, Series.at?_eq_some_iff]
    constructor
    · rintro ⟨bar, hb, rfl⟩
      exact ⟨hb, rfl⟩
    · rintro ⟨hb, rfl⟩
      exact ⟨b.bar, hb, rfl⟩
  refine eq_of_pairwise_lt DailyBar.date ?_ (Series.pairwise_window.filter _) fun b ↦ ?_
  · refine List.pairwise_filterMap.mpr ((pairwise_tradingDaysBetween _ _).imp ?_)
    intro d d' hlt b hb b' hb'
    rwa [((hmem b d).mp hb).2, ((hmem b' d').mp hb').2]
  · rw [List.mem_filterMap, List.mem_filter, Series.mem_window, decide_eq_true_iff]
    constructor
    · rintro ⟨d, hd, hb⟩
      obtain ⟨hbars, rfl⟩ := (hmem b d).mp hb
      obtain ⟨hwindow, hscans⟩ := mem_scanDays.mp hd
      exact ⟨⟨hbars, hwindow⟩, hscans⟩
    · rintro ⟨⟨hb, hwindow⟩, hscans⟩
      exact ⟨b.date, mem_scanDays.mpr ⟨hwindow, hscans⟩, (hmem b b.date).mpr ⟨hb, rfl⟩⟩

/-- The provider delivers the bars of the days it looks at. -/
theorem delivers (foRequest : FoRequest) (htimeframe : foRequest.timeframe = .oneDay)
    (hcontract : reader.parseFoSymbol foRequest.symbol = some contract)
    (h : Holds reader archive foRequest.time contract s foRequest.start foRequest.stop) :
    Delivers ((getHistoricalData reader archive foRequest .empty).2.mapError Prod.snd)
      ((s.window foRequest.start foRequest.stop).filter fun b ↦ Scans contract b.date) := by
  choose! row hrow hbar using h
  have hdays : (scanDays contract foRequest.start foRequest.stop).Nodup :=
    (pairwise_tradingDaysBetween _ _).imp ne_of_lt
  have hrows : (rowsForDays reader archive foRequest.time contract foRequest.started .empty
      (scanDays contract foRequest.start foRequest.stop)).2 =
        collect (fun d ↦ (rowOf reader archive foRequest.time contract .empty d).map (·.map (d, ·)))
          (scanDays contract foRequest.start foRequest.stop) :=
    rowsForDays_eq_collect hdays fun _ _ ↦ rfl
  rw [collect_of_ok (k := fun d ↦ (row d).map (d, ·)) fun d hd ↦ by
    obtain ⟨⟨hstart, hstop⟩, -⟩ := mem_scanDays.mp hd
    rw [hrow d hstart hstop]
    rfl] at hrows
  have hbars : ((scanDays contract foRequest.start foRequest.stop).filterMap
      fun d ↦ (row d).map (d, ·)).map (fun r ↦ (candleOf foRequest r).dailyBar) =
        (s.window foRequest.start foRequest.stop).filter fun b ↦ Scans contract b.date := by
    rw [List.map_filterMap, ← filterMap_scanDays]
    refine List.filterMap_congr fun d hd ↦ ?_
    obtain ⟨⟨hstart, hstop⟩, -⟩ := mem_scanDays.mp hd
    rw [← hbar d hstart hstop]
    cases row d with
    | none => rfl
    | some r =>
      simp [candleOf, FoRow.toCandle, Candle.dailyBar]
  simp only [getHistoricalData, htimeframe, ne_eq, not_true_eq_false, if_false, hcontract, hrows]
  revert hbars
  generalize (scanDays contract foRequest.start foRequest.stop).filterMap
    (fun d ↦ (row d).map (d, ·)) = rows
  intro hbars
  cases rows with
  | nil => exact delivers_empty hbars.symm
  | cons r rows =>
    refine expected_map ?_ (List.cons_ne_nil _ _)
    rw [← hbars, List.map_map]
    rfl

end NseFoBhavcopy

end Windows

end TradingOS.Data
