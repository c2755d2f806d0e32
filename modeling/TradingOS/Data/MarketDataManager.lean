import TradingOS.Data.Providers

namespace TradingOS.Data

/-- `_RETRYABLE`; what is neither in it nor in `_NON_RETRYABLE` is not caught. -/
def ProviderError.isRetryable : ProviderError → Bool
  | .timeout | .network | .server | .rateLimit => true
  | _ => false

/-- A provider of a chain. An attempt may end in an outage before it gets what there is to get. -/
structure MarketDataProvider where
  name : String
  healthCheck : Bool
  outage : (attempt : ℕ) → Option ProviderError
  fetch : MarketRequest → Except Raised (List Candle)

/-- Why a provider was passed over. -/
inductive ProviderFailure
  | healthCheck
  | raised (error : ProviderError)
  | dataQuality (issues : List DataQualityIssue)

structure MarketDataResult where
  candles : List Candle
  providerRequested : String
  providerUsed : String

inductive ManagerError
  | marketDataUnavailable (errors : List (String × ProviderFailure))
  | other (text : String)

structure MarketDataManager where
  providers : List MarketDataProvider
  foProviders : Option (List MarketDataProvider)
  maxRetries : ℕ
  enableFailover : Bool

namespace MarketDataManager

variable (request : MarketRequest)

def attempt (p : MarketDataProvider) (k : ℕ) : Except Raised (List Candle) :=
  match p.outage k with
  | some e => .error (.provider e)
  | none => p.fetch request

/-- The loop of `_fetch_with_retry` from attempt `k` on. -/
def fetchFrom (p : MarketDataProvider) (lastExc : Option ProviderError) (k : ℕ) :
    ℕ → Except Raised (List Candle)
  | 0 =>
    match lastExc with
    | some e => .error (.provider e)
    | none => .error (.other "AssertionError")
  | left + 1 =>
    match attempt request p k with
    | .ok candles => .ok candles
    | .error (.provider e) =>
      if e.isRetryable then fetchFrom p (some e) (k + 1) left else .error (.provider e)
    | .error (.other text) => .error (.other text)

def fetchWithRetry (p : MarketDataProvider) (maxRetries : ℕ) : Except Raised (List Candle) :=
  fetchFrom request p none 0 maxRetries

variable (m : MarketDataManager) (parseFoSymbol : String → Option FoContract)

/-- `_is_fo_instrument`. -/
def isFoInstrument : Bool :=
  request.instrumentKey.startsWith "NSE_FO|" || request.instrumentKey.startsWith "BSE_FO|" ||
    (parseFoSymbol request.symbol).isSome

def chain : List MarketDataProvider :=
  let full :=
    match m.foProviders with
    | some (p :: ps) => if isFoInstrument request parseFoSymbol then p :: ps else m.providers
    | _ => m.providers
  if m.enableFailover then full else full.take 1

/-- The loop over the chain. -/
def tryChain (requested : String) (errors : List (String × ProviderFailure)) :
    List MarketDataProvider → Except ManagerError MarketDataResult
  | [] => .error (.marketDataUnavailable errors)
  | p :: ps =>
    if ¬ p.healthCheck then tryChain requested (errors ++ [(p.name, .healthCheck)]) ps
    else
      match fetchWithRetry request p m.maxRetries with
      | .error (.provider e) => tryChain requested (errors ++ [(p.name, .raised e)]) ps
      | .error (.other text) => .error (.other text)
      | .ok candles =>
        if validateCandles candles ≠ [] then
          tryChain requested (errors ++ [(p.name, .dataQuality (validateCandles candles))]) ps
        else .ok ⟨candles, requested, p.name⟩

def getHistoricalData : Except ManagerError MarketDataResult :=
  match m.chain request parseFoSymbol with
  | [] => .error (.other "IndexError")
  | p :: ps => m.tryChain request p.name [] (p :: ps)

variable {request m parseFoSymbol}

theorem fetch_of_fetchFrom {p : MarketDataProvider} {lastExc : Option ProviderError}
    {k left : ℕ} {candles : List Candle} (h : fetchFrom request p lastExc k left = .ok candles) :
    p.fetch request = .ok candles := by
  induction left generalizing lastExc k with
  | zero => cases lastExc <;> cases h
  | succ left ih =>
    rw [fetchFrom] at h
    split at h
    · next hattempt =>
      obtain rfl := Except.ok.inj h
      rw [attempt] at hattempt
      split at hattempt
      · cases hattempt
      · exact hattempt
    · split at h
      · exact ih h
      · cases h
    · cases h

/-- What the manager returns, a provider of the chain has fetched, and it is a valid series. -/
theorem fetch_of_tryChain {requested : String} {errors : List (String × ProviderFailure)}
    {ps : List MarketDataProvider} {result : MarketDataResult}
    (h : m.tryChain request requested errors ps = .ok result) :
    ∃ p ∈ ps, p.fetch request = .ok result.candles ∧ WellFormedSeries result.candles := by
  induction ps generalizing errors with
  | nil => cases h
  | cons p ps ih =>
    have hlater {errors : List (String × ProviderFailure)}
        (h : m.tryChain request requested errors ps = .ok result) :
        ∃ p' ∈ p :: ps, p'.fetch request = .ok result.candles ∧
          WellFormedSeries result.candles := by
      obtain ⟨p', hp', hfetch⟩ := ih h
      exact ⟨p', List.mem_cons_of_mem _ hp', hfetch⟩
    rw [tryChain] at h
    split at h
    · exact hlater h
    · split at h
      · exact hlater h
      · cases h
      · next candles hcandles =>
        split at h
        · exact hlater h
        · next hvalid =>
          obtain rfl := Except.ok.inj h
          exact ⟨p, List.mem_cons_self, fetch_of_fetchFrom hcandles,
            validateCandles_eq_nil_iff.mp (not_not.mp hvalid)⟩

end MarketDataManager

/-- The vendors that have instruments of the request's kind. -/
def Vendors.Covers (vendors : Vendors) (request : MarketRequest) (v : Vendor) : Prop :=
  v = .nseFoBhavcopy → (vendors.reader.parseFoSymbol request.symbol).isSome

/-- Each vendor's fetch gives the bars of its window; and when the providers of a chain hold one
series, what the manager returns is what the first of them would have fetched. -/
def WindowContract (vendors : Vendors) (request : MarketRequest) (series : Vendor → Series) : Prop :=
  (∀ v, vendors.Covers request v →
    Delivers (vendors.fetch request v) ((series v).window request.start request.stop)) ∧
  ∀ (m : MarketDataManager) (s : Series) first rest result,
    m.chain request vendors.reader.parseFoSymbol = first :: rest →
    (∀ p ∈ first :: rest, ∃ v, vendors.Covers request v ∧ series v = s ∧
      p.fetch request = vendors.fetch request v) →
    m.getHistoricalData request vendors.reader.parseFoSymbol = .ok result →
    (first.fetch request).map (List.map Candle.dailyBar) = .ok (result.candles.map Candle.dailyBar)

section Contract

variable {vendors : Vendors} {request : MarketRequest} {series : Vendor → Series}

theorem yahoo_delivers_iff (htimeframe : request.timeframe = .oneDay)
    (hle : request.start ≤ request.stop) (h : vendors.Hold request series) :
    Delivers (vendors.fetch request .yahooFinance)
        ((series .yahooFinance).window request.start request.stop) ↔
      ∀ b ∈ (series .yahooFinance).bars, b.date ≠ request.stop := by
  obtain ⟨ticker, hticker⟩ := YahooFinanceProvider.exists_ticker request.symbol
  have hyahoo := YahooFinanceProvider.delivers hticker htimeframe (h.yahooFinance ticker hticker)
  rw [← Series.filter_lt_eq_window_iff hle, ← expected_inj, ← hyahoo]
  exact Iff.rfl

theorem bhavcopy_delivers_iff {contract : FoContract} (htimeframe : request.timeframe = .oneDay)
    (hcontract : vendors.reader.parseFoSymbol request.symbol = some contract)
    (h : vendors.Hold request series) :
    Delivers (vendors.fetch request .nseFoBhavcopy)
        ((series .nseFoBhavcopy).window request.start request.stop) ↔
      ∀ b ∈ (series .nseFoBhavcopy).window request.start request.stop,
        NseFoBhavcopy.Scans contract b.date := by
  have hbhavcopy := NseFoBhavcopy.delivers
    ⟨request.instrumentKey, request.symbol, request.start, request.stop, request.timeframe,
      vendors.time, fun _ ↦ true⟩ htimeframe hcontract (h.nseFoBhavcopy contract hcontract)
  rw [← Series.filter_eq_window_iff, ← expected_inj, ← hbhavcopy]
  exact Iff.rfl

/-- The last day has no bar at Yahoo, which leaves it out; and the bhavcopy provider looks at every
day of the window on which the contract has a bar. -/
def KeepsWindow (vendors : Vendors) (request : MarketRequest) (series : Vendor → Series) : Prop :=
  (∀ b ∈ (series .yahooFinance).bars, b.date ≠ request.stop) ∧
  ∀ contract, vendors.reader.parseFoSymbol request.symbol = some contract →
    ∀ b ∈ (series .nseFoBhavcopy).window request.start request.stop,
      NseFoBhavcopy.Scans contract b.date

theorem delivers_iff (htimeframe : request.timeframe = .oneDay)
    (hle : request.start ≤ request.stop) (h : vendors.Hold request series) :
    (∀ v, vendors.Covers request v →
        Delivers (vendors.fetch request v) ((series v).window request.start request.stop)) ↔
      KeepsWindow vendors request series := by
  constructor
  · intro hdelivers
    refine ⟨(yahoo_delivers_iff htimeframe hle h).mp (hdelivers .yahooFinance nofun),
      fun contract hcontract ↦ ?_⟩
    exact (bhavcopy_delivers_iff htimeframe hcontract h).mp
      (hdelivers .nseFoBhavcopy fun _ ↦ by simp [hcontract])
  · rintro ⟨hyahoo, hbhavcopy⟩ v hcovers
    cases v with
    | yahooFinance => exact (yahoo_delivers_iff htimeframe hle h).mpr hyahoo
    | upstoxV3 => exact UpstoxV3Provider.delivers htimeframe hle h.upstoxV3
    | nseFoBhavcopy =>
      obtain ⟨contract, hcontract⟩ := Option.isSome_iff_exists.mp (hcovers rfl)
      exact (bhavcopy_delivers_iff htimeframe hcontract h).mpr (hbhavcopy contract hcontract)

end Contract

namespace Reliance

/-- Vendors of one series of an equity, each with its own window and order. -/
def vendorsOf (s : Series) : Vendors where
  history _ start stop := .ok ((s.bars.filter fun b ↦ start ≤ b.date ∧ b.date < stop).map
    fun b ↦ (.inr (.midnight b.date), b.bar))
  endpoint _ _ _ toDate fromDate :=
    .ok ((s.window fromDate toDate).reverse.map fun b ↦ ⟨.midnight b.date, b.bar, none⟩)
  reader := ⟨fun _ ↦ none, fun _ _ _ ↦ .ok []⟩
  archive := ⟨fun _ ↦ .emptyZip, fun _ _ ↦ false, fun _ ↦ id⟩
  time := 0

theorem hold_vendorsOf (s : Series) (request : MarketRequest) :
    (vendorsOf s).Hold request fun _ ↦ s where
  yahooFinance ticker _ start stop := by
    refine ⟨_, rfl, ?_⟩
    rw [List.map_map]
    refine (List.map_congr_left fun b _ ↦ ?_).trans (List.map_id _)
    have hdate : (YahooFinanceProvider.toIst (.inr (.midnight b.date))).date = b.date := by
      simp [YahooFinanceProvider.toIst, Timestamp.astimezone, Timestamp.instant, Timestamp.midnight,
        Timestamp.date, Timestamp.dayLength]
    simp [hdate]
  upstoxV3 fromDate toDate _ := by
    refine ⟨_, rfl, ?_, fun row hrow ↦ ?_⟩
    · rw [List.map_map]
      have hid : (fun row : UpstoxV3Provider.CandleRow ↦ DailyBar.mk row.timestamp.date row.bar) ∘
          (fun b : DailyBar ↦ ⟨.midnight b.date, b.bar, none⟩) = id := by
        funext b
        simp
      rw [hid, List.map_id]
      exact List.reverse_perm _
    · obtain ⟨b, -, rfl⟩ := List.mem_map.mp hrow
      rfl
  nseFoBhavcopy _ hcontract := by cases hcontract

def series : Series where
  bars := [⟨19999, 2580, 2610, 2575, 2600, 4000⟩, ⟨20000, 2600, 2660, 2590, 2650, 5000⟩]
  increasing := by simp

def request (stop : ℤ) : MarketRequest := ⟨"NSE_EQ|INE002A01018", "RELIANCE", 19999, stop, .oneDay⟩

end Reliance

end TradingOS.Data
