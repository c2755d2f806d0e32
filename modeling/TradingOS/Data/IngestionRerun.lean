import TradingOS.Data.IncrementalIngestion
import TradingOS.Orchestration.DatasetFreshness

namespace TradingOS.Data.IngestionRerun

open Lib Lib.Runs ProviderFailover IncrementalIngestion Orchestration.DatasetFreshness

def Vendor.name : Vendor → String
  | .yahooFinance => "yfinance"
  | .upstoxV3 => "upstox_v3"
  | .nseFoBhavcopy => "nse_fo_bhavcopy"

/-- The configured manager over the three providers, as a run finds them. -/
structure Desk where
  vendors : Vendors
  chain : List Vendor
  foChain : Option (List Vendor)
  healthCheck : Vendor → Bool
  maxRetries : ℕ
  enableFailover : Bool
  configured : chain ≠ []

namespace Desk

variable (desk : Desk) (request : MarketRequest)

def provider (v : Vendor) : Provider Candle :=
  ⟨Vendor.name v, desk.healthCheck v, fun _ ↦ desk.vendors.fetch request v⟩

def manager : Manager Candle where
  providers := desk.chain.map (desk.provider request)
  foProviders := desk.foChain.map (List.map (desk.provider request))
  maxRetries := desk.maxRetries
  enableFailover := desk.enableFailover
  configured := by simpa using desk.configured

end Desk

/-- A row of `candles_to_eod_dataframe`. -/
def rowOf (symbol : String) (c : Candle) : Row ℤ Ohlcv :=
  ⟨symbol, c.timestamp.date, ⟨c.openPrice, c.high, c.low, c.close, c.volume⟩⟩

/-- The daily lake behind a run. -/
def dailyStore (engine : Engine ℤ Ohlcv) : Store DailyLake Candle where
  listSymbols := DataLake.listSymbols
  latestDate := DataLake.latestDate engine
  write lake symbol candles :=
    .ok (ParquetLakeWriter.write engine lake (candles.map (rowOf symbol)))

/-- A run's day and what it meets besides its providers. -/
structure Day where
  today : ℤ
  universes : List (Option (List String))
  instrumentSync : Option ℕ
  resolveInstrumentKey : String → Option String

def job (engine : Engine ℤ Ohlcv) (desk : Desk) (day : Day) : Job DailyLake Candle where
  store := dailyStore engine
  today := day.today
  universes := day.universes
  instrumentSync := day.instrumentSync
  resolveInstrumentKey := day.resolveInstrumentKey
  manager := desk.manager
  parseFoSymbol := desk.vendors.reader.parseFoSymbol
  validate := validateCandles

section Windows

variable {desk : Desk} {request : MarketRequest} {series : Vendor → Series}

theorem delivers_nil {fetched : Except Raised (List Candle)} (h : Delivers fetched []) :
    fetched = .error (.provider .emptyData) := by
  cases fetched with
  | ok candles => cases h
  | error raised =>
    obtain rfl := Except.error.inj h
    rfl

/-- No provider has candles for a window that none of its bars is in. -/
theorem fetch_of_no_bars (htimeframe : request.timeframe = .oneDay)
    (hle : request.start ≤ request.stop) (hold : desk.vendors.Hold request series)
    (hnone : ∀ v, ∀ b ∈ (series v).bars, b.date ≤ request.stop → b.date < request.start)
    (v : Vendor) :
    ∃ e, desk.vendors.fetch request v = .error (.provider e) := by
  have hempty {p : DailyBar → Bool}
      (hp : ∀ b ∈ (series v).bars, p b → request.start ≤ b.date ∧ b.date ≤ request.stop) :
      (series v).bars.filter p = [] := by
    refine List.filter_eq_nil_iff.mpr fun b hb hpb ↦ ?_
    obtain ⟨hstart, hstop⟩ := hp b hb hpb
    exact absurd hstart (hnone v b hb hstop).not_ge
  cases v with
  | yahooFinance =>
    obtain ⟨ticker, hticker⟩ := YahooFinanceProvider.exists_ticker request.symbol
    have hyahoo := YahooFinanceProvider.delivers hticker htimeframe
      (hold.yahooFinance ticker hticker)
    rw [hempty fun b _ hb ↦ (of_decide_eq_true hb).imp_right le_of_lt] at hyahoo
    exact ⟨_, delivers_nil hyahoo⟩
  | upstoxV3 =>
    have hupstox := UpstoxV3Provider.delivers htimeframe hle hold.upstoxV3
    rw [Series.window, hempty fun b _ hb ↦ of_decide_eq_true hb] at hupstox
    exact ⟨_, delivers_nil hupstox⟩
  | nseFoBhavcopy =>
    cases hcontract : desk.vendors.reader.parseFoSymbol request.symbol with
    | none =>
      refine ⟨.instrumentNotFound, ?_⟩
      simp only [Vendors.fetch, NseFoBhavcopy.getHistoricalData, htimeframe, ne_eq,
        not_true_eq_false, if_false, hcontract]
      rfl
    | some contract =>
      have hbhavcopy := NseFoBhavcopy.delivers
        ⟨request.instrumentKey, request.symbol, request.start, request.stop, request.timeframe,
          desk.vendors.time, fun _ ↦ true⟩ htimeframe hcontract
        (hold.nseFoBhavcopy contract hcontract)
      rw [Series.window, hempty fun b _ hb ↦ of_decide_eq_true hb, List.filter_nil] at hbhavcopy
      exact ⟨_, delivers_nil hbhavcopy⟩

end Windows

section Stored

variable {engine : Engine ℤ Ohlcv} {lake : DailyLake} {rows : List (Row ℤ Ohlcv)} {symbol : String}
  {p : String × ℤ × ℤ}

theorem rowsAt_write_ne_nil (h : p ∈ rows.map (·.partition ParquetLakeWriter.layout)) :
    (ParquetLakeWriter.write engine lake rows).rowsAt p ≠ [] := by
  rw [ParquetLakeWriter.write, Lake.rowsAt_write, if_pos h]
  obtain ⟨r, hr, hpartition⟩ := List.mem_map.mp h
  have hmem : r ∈ rowsOf ParquetLakeWriter.layout p rows := mem_rowsOf.mpr ⟨hr, hpartition⟩
  cases lake.files.get? p with
  | none => exact List.ne_nil_of_mem (engine.sort.mem_sort.mpr hmem)
  | some existing =>
    intro hnil
    have hnone (x : Row ℤ Ohlcv) : x ∉ uniqueLast Row.key (existing ++ rowsOf _ p rows) := fun hx ↦
      List.ne_nil_of_mem (engine.sort.mem_sort.mpr hx) hnil
    exact forall_mem_uniqueLast.mp (fun x hx ↦ absurd hx (hnone x)) r
      (List.mem_append_right _ hmem) rfl

theorem exists_latestDate_iff : (∃ latest, DataLake.latestDate engine lake symbol = some latest) ↔
    ∃ p, engine.glob symbol p.1 ∧ lake.rowsAt p ≠ [] := by
  rw [← Option.ne_none_iff_exists', DataLake.latestDate, ne_eq, List.max?_eq_none_iff,
    List.map_eq_nil_iff]
  constructor
  · intro hne
    obtain ⟨r, hr⟩ := List.exists_mem_of_ne_nil _ hne
    obtain ⟨-, p, hglob, hp⟩ := Lake.mem_readSymbol.mp hr
    exact ⟨p, hglob, List.ne_nil_of_mem hp⟩
  · rintro ⟨p, hglob, hne⟩
    obtain ⟨r, hr⟩ := List.exists_mem_of_ne_nil _ hne
    exact List.ne_nil_of_mem (Lake.mem_readSymbol.mpr ⟨rfl, p, hglob, hr⟩)

end Stored

/-- The lake has bars of a symbol up to the latest, and no provider holds a newer one up to the day
of the run. -/
structure UpToDate (engine : Engine ℤ Ohlcv) (desk : Desk) (day : Day) (lake : DailyLake)
    (symbol key : String) (latest : ℤ) : Prop where
  stored : DataLake.latestDate engine lake symbol = some latest
  held : ∃ series : Vendor → Series,
    desk.vendors.Hold ⟨key, symbol, latest + 1, day.today, .oneDay⟩ series ∧
      ∀ v, ∀ b ∈ (series v).bars, b.date ≤ day.today → b.date ≤ latest

section Turns

variable {engine : Engine ℤ Ohlcv} {desk : Desk} {day : Day} {s : Progress DailyLake}
  {symbol key : String} {latest : ℤ}

theorem fetched_of_supplied {request : MarketRequest} {candles : List Candle}
    (h : (job engine desk day).Supplied request candles) :
    ∃ v, desk.vendors.fetch request v = .ok candles := by
  obtain ⟨pre, p, post, hchain, -, hsupplies⟩ := h
  have hp : p ∈ (desk.manager request).chain request desk.vendors.reader.parseFoSymbol := by
    rw [show (desk.manager request).chain request desk.vendors.reader.parseFoSymbol = _ from hchain]
    exact List.mem_append_right _ List.mem_cons_self
  obtain ⟨v, rfl⟩ : ∃ v, p = desk.provider request v := by
    rcases Manager.mem_chain hp with hp | ⟨fo, hfo, hp⟩
    · obtain ⟨v, -, rfl⟩ := List.mem_map.mp hp
      exact ⟨v, rfl⟩
    · obtain ⟨vendors, -, rfl⟩ := Option.map_eq_some_iff.mp hfo
      obtain ⟨v, -, rfl⟩ := List.mem_map.mp hp
      exact ⟨v, rfl⟩
  obtain ⟨k, -, -, hok, -⟩ := hsupplies.delivers
  exact ⟨v, hok⟩

/-- No provider answers with an empty list. -/
theorem fetch_ne_nil (request : MarketRequest) (v : Vendor) :
    desk.vendors.fetch request v ≠ .ok [] := by
  cases v with
  | yahooFinance =>
    simp only [Vendors.fetch, YahooFinanceProvider.getHistoricalData]
    split
    · simp
    · split
      · simp
      · split <;> simp_all
  | upstoxV3 =>
    simp only [Vendors.fetch, UpstoxV3Provider.getHistoricalData]
    split
    · simp
    · simp
    · next rows hne _ =>
      rw [ne_eq, Except.ok.injEq, ← List.length_eq_zero_iff, List.length_insertionSort,
        List.length_map, List.length_eq_zero_iff]
      exact hne
  | nseFoBhavcopy =>
    simp only [Vendors.fetch, NseFoBhavcopy.getHistoricalData]
    split
    · simp [Except.mapError]
    · split
      · simp [Except.mapError]
      · simp only [NseFoBhavcopy.answer]
        split <;> simp_all [Except.mapError]

/-- An up-to-date symbol is counted as fresh in its turn if the latest bar is of the day of the
run, and put down as failed, if the run gets past it at all, when that bar is older. -/
theorem turn_upToDate (hkey : day.resolveInstrumentKey symbol = some key)
    (h : UpToDate engine desk day s.lake symbol key latest) :
    if day.today ≤ latest then
      (job engine desk day).step s symbol = some { s with summary.symbolsAlreadyFresh :=
        s.summary.symbolsAlreadyFresh ++ [symbol] }
    else ∀ t, (job engine desk day).step s symbol = some t →
      t.lake = s.lake ∧ t.summary.symbolsFailed = s.summary.symbolsFailed ++ [symbol] := by
  have hstored : (job engine desk day).store.latestDate s.lake symbol = some latest := h.stored
  have hresolve : (job engine desk day).resolveInstrumentKey symbol = some key := hkey
  split
  · next hle =>
    have hasks : (job engine desk day).asks s.lake symbol = none := by
      simp only [Job.asks, hresolve, hstored, Job.startOf]
      rw [if_pos (by change day.today < latest + 1; omega)]
    rw [Job.step, Job.ingestSymbol, hresolve]
    simp only [hasks]
    rfl
  · next hlt =>
    intro t ht
    have hasks : (job engine desk day).asks s.lake symbol =
        some ⟨key, symbol, latest + 1, day.today, .oneDay⟩ := by
      simp only [Job.asks, hresolve, hstored, Job.startOf]
      rw [if_neg (by change ¬ day.today < latest + 1; omega)]
      rfl
    obtain ⟨series, hold, hnewest⟩ := h.held
    have hnone := fetch_of_no_bars rfl (by dsimp only; omega) hold
      fun v b hb hstop ↦ Int.lt_add_one_of_le (hnewest v b hb hstop)
    rcases (Job.accounted ht).failed with ⟨hfailed, hlake, -⟩ | ⟨-, hsupplied⟩
    · exact ⟨hlake, hfailed⟩
    · obtain ⟨candles, hcandles⟩ := hsupplied _ hasks
      obtain ⟨v, hv⟩ := fetched_of_supplied hcandles
      obtain ⟨e, he⟩ := hnone v
      cases hv.symm.trans he

/-- A turn that counts a symbol it resolves as no failure leaves bars of it in the lake. -/
theorem stored_of_turn (hglob : engine.glob symbol symbol)
    (hkey : day.resolveInstrumentKey symbol = some key) {t : Progress DailyLake}
    (h : (job engine desk day).step s symbol = some t)
    (hfailed : t.summary.symbolsFailed = s.summary.symbolsFailed) :
    ∃ latest, DataLake.latestDate engine t.lake symbol = some latest := by
  have hresolve : (job engine desk day).resolveInstrumentKey symbol = some key := hkey
  have hturn := (job engine desk day).turn s symbol
  rw [Job.step] at h
  generalize (job engine desk day).ingestSymbol s symbol = r at hturn h
  cases hturn with
  | raised | unwritten => cases h
  | notAsked hasks hlake =>
    obtain rfl := Option.some.inj h
    rw [hlake]
    cases hstored : DataLake.latestDate engine s.lake symbol with
    | some latest => exact ⟨latest, rfl⟩
    | none =>
      have hstored' : (job engine desk day).store.latestDate s.lake symbol = none := hstored
      simp only [Job.asks, hresolve, hstored', Job.startOf, initialBackfillDays] at hasks
      rw [if_neg (by omega)] at hasks
      cases hasks
  | unavailable _ _ _ hfailed' =>
    obtain rfl := Option.some.inj h
    simp [hfailed'] at hfailed
  | nothing _ hsupplied =>
    obtain ⟨v, hv⟩ := fetched_of_supplied hsupplied
    exact absurd hv (fetch_ne_nil _ v)
  | written _ hne _ hwrite =>
    obtain rfl := Option.some.inj h
    rw [← Except.ok.inj hwrite]
    obtain ⟨c, hc⟩ := List.exists_mem_of_ne_nil _ hne
    refine exists_latestDate_iff.mpr
      ⟨(rowOf symbol c).partition ParquetLakeWriter.layout, hglob, ?_⟩
    exact rowsAt_write_ne_nil (List.mem_map_of_mem (List.mem_map_of_mem hc))

end Turns

/-- A symbol's turn leaves the lake alone and counts the symbol as fresh, not as failed. -/
def CountedFresh (engine : Engine ℤ Ohlcv) (desk : Desk) (day : Day) (s : Progress DailyLake)
    (symbol : String) : Prop :=
  ∃ t, (job engine desk day).step s symbol = some t ∧ t.lake = s.lake ∧
    t.summary.symbolsFailed = s.summary.symbolsFailed ∧ symbol ∈ t.summary.symbolsAlreadyFresh

/-- A run over an up-to-date lake leaves it alone, and counts every symbol it can resolve as fresh
and none as failed. -/
def Repeats (engine : Engine ℤ Ohlcv) (desk : Desk) (day : Day) (lake : DailyLake)
    (provenance : Table String String) : Prop :=
  ∃ t, (job engine desk day).runIncrementalIngestion lake provenance = .ok t ∧ t.lake = lake ∧
    t.summary.symbolsFailed = [] ∧ ∀ symbol ∈ (job engine desk day).targetSymbols lake,
      (day.resolveInstrumentKey symbol).isSome → symbol ∈ t.summary.symbolsAlreadyFresh

/-- Every symbol that a run resolves is up to date. -/
def AllUpToDate (engine : Engine ℤ Ohlcv) (desk : Desk) (day : Day) (lake : DailyLake) : Prop :=
  ∀ symbol ∈ (job engine desk day).targetSymbols lake, ∀ key,
    day.resolveInstrumentKey symbol = some key →
      ∃ latest, UpToDate engine desk day lake symbol key latest

/-- The lake reaches the day of the run for every symbol that it resolves. -/
def ReachesToday (engine : Engine ℤ Ohlcv) (desk : Desk) (day : Day) (lake : DailyLake) : Prop :=
  ∀ symbol ∈ (job engine desk day).targetSymbols lake,
    (day.resolveInstrumentKey symbol).isSome → ∀ latest,
      DataLake.latestDate engine lake symbol = some latest → day.today ≤ latest

section Runs

variable {engine : Engine ℤ Ohlcv} {desk : Desk} {day : Day} {lake : DailyLake}
  {s t : Progress DailyLake} {symbol key : String} {latest : ℤ} {symbols : List String}

theorem countedFresh_iff (hkey : day.resolveInstrumentKey symbol = some key)
    (h : UpToDate engine desk day s.lake symbol key latest) :
    CountedFresh engine desk day s symbol ↔ day.today ≤ latest := by
  have hturn := turn_upToDate hkey h
  constructor
  · rintro ⟨t, ht, -, hfailed, -⟩
    by_contra hlt
    rw [if_neg hlt] at hturn
    simpa [hfailed] using (hturn t ht).2
  · intro hle
    rw [if_pos hle] at hturn
    exact ⟨_, hturn, rfl, rfl, by simp⟩

theorem step_of_unresolved (h : day.resolveInstrumentKey symbol = none) :
    (job engine desk day).step s symbol = some { s with summary.symbolsSkippedUnresolvable :=
      s.summary.symbolsSkippedUnresolvable ++ [symbol] } := by
  have hresolve : (job engine desk day).resolveInstrumentKey symbol = none := h
  rw [Job.step, Job.ingestSymbol, hresolve]
  rfl

/-- While all is up to date, no turn writes to the lake. -/
theorem lake_of_run (hall : ∀ symbol ∈ symbols, ∀ key,
      day.resolveInstrumentKey symbol = some key →
        ∃ latest, UpToDate engine desk day s.lake symbol key latest)
    (h : Run (job engine desk day).step s symbols t) : t.lake = s.lake := by
  induction h with
  | nil => rfl
  | @cons s next t symbol symbols hstep _ ih =>
    obtain ⟨hfirst, hrest⟩ := List.forall_mem_cons.mp hall
    have hlake : next.lake = s.lake := by
      cases hkey : day.resolveInstrumentKey symbol with
      | none =>
        obtain rfl := Option.some.inj ((step_of_unresolved hkey).symm.trans hstep)
        rfl
      | some key =>
        obtain ⟨latest, hlatest⟩ := hfirst key hkey
        have hturn := turn_upToDate hkey hlatest
        split at hturn
        · obtain rfl := Option.some.inj (hturn.symm.trans hstep)
          rfl
        · exact (hturn next hstep).1
    rw [← hlake] at hrest ⊢
    exact ih hrest

/-- Where the lake reaches the day of the run, every turn passes without a write or a failure. -/
theorem run_of_reaches (hall : ∀ symbol ∈ symbols, ∀ key,
      day.resolveInstrumentKey symbol = some key →
        ∃ latest, UpToDate engine desk day s.lake symbol key latest ∧ day.today ≤ latest) :
    ∃ t, Run (job engine desk day).step s symbols t ∧ t.lake = s.lake ∧
      t.summary.symbolsFailed = s.summary.symbolsFailed ∧
      (∀ symbol ∈ s.summary.symbolsAlreadyFresh, symbol ∈ t.summary.symbolsAlreadyFresh) ∧
      ∀ symbol ∈ symbols, (day.resolveInstrumentKey symbol).isSome →
        symbol ∈ t.summary.symbolsAlreadyFresh := by
  induction symbols generalizing s with
  | nil => exact ⟨s, .nil s, rfl, rfl, fun _ ↦ id, by simp⟩
  | cons symbol symbols ih =>
    obtain ⟨hfirst, hrest⟩ := List.forall_mem_cons.mp hall
    obtain ⟨next, hstep, hlake, hfailed, hkept, hcounted⟩ : ∃ next,
        (job engine desk day).step s symbol = some next ∧ next.lake = s.lake ∧
        next.summary.symbolsFailed = s.summary.symbolsFailed ∧
        (∀ symbol ∈ s.summary.symbolsAlreadyFresh, symbol ∈ next.summary.symbolsAlreadyFresh) ∧
        ((day.resolveInstrumentKey symbol).isSome →
          symbol ∈ next.summary.symbolsAlreadyFresh) := by
      cases hkey : day.resolveInstrumentKey symbol with
      | none => exact ⟨_, step_of_unresolved hkey, rfl, rfl, fun _ ↦ id, by simp⟩
      | some key =>
        obtain ⟨latest, hlatest, hle⟩ := hfirst key hkey
        have hturn := turn_upToDate hkey hlatest
        rw [if_pos hle] at hturn
        exact ⟨_, hturn, rfl, rfl, fun _ ↦ List.mem_append_left _, fun _ ↦ by simp⟩
    rw [← hlake] at hrest
    obtain ⟨t, hrun, hlake', hfailed', hkept', hcounted'⟩ := ih hrest
    exact ⟨t, .cons hstep hrun, hlake'.trans hlake, hfailed'.trans hfailed,
      fun x hx ↦ hkept' x (hkept x hx),
      List.forall_mem_cons.mpr ⟨fun hresolves ↦ hkept' _ (hcounted hresolves), hcounted'⟩⟩

/-- A run over an up-to-date lake ends without a failed symbol only if every turn counts its
symbol as fresh. -/
theorem reachesToday_of_run {provenance : Table String String}
    (hall : AllUpToDate engine desk day lake)
    (h : Run (job engine desk day).step ((job engine desk day).start lake provenance)
      ((job engine desk day).targetSymbols lake) t)
    (hfailed : t.summary.symbolsFailed = []) : ReachesToday engine desk day lake := by
  intro symbol hsymbol hresolves latest hstored
  obtain ⟨key, hkey⟩ := Option.isSome_iff_exists.mp hresolves
  obtain ⟨pre, post, hsplit⟩ := List.append_of_mem hsymbol
  obtain ⟨latest', hlatest⟩ := hall symbol hsymbol key hkey
  obtain rfl := Option.some.inj (hlatest.stored.symm.trans hstored)
  rw [AllUpToDate, hsplit] at hall
  rw [hsplit] at h
  obtain ⟨s, hpre, hrest⟩ := run_append_iff.mp h
  have hlake : s.lake = lake := lake_of_run
    (fun x hx ↦ hall x (List.mem_append_left _ hx)) hpre
  cases hrest with
  | @cons _ next _ _ _ hstep hpost =>
    rw [← hlake] at hlatest
    have hturn := turn_upToDate hkey hlatest
    by_contra hlt
    rw [if_neg hlt] at hturn
    -- what one turn puts down as failed stays in the summary to the end
    obtain ⟨more, hmore, -⟩ := Job.failed_of_run hpost
    rw [(hturn next hstep).2, hfailed] at hmore
    simp at hmore

theorem repeats_iff {provenance : Table String String} (hall : AllUpToDate engine desk day lake) :
    Repeats engine desk day lake provenance ↔ ReachesToday engine desk day lake := by
  constructor
  · rintro ⟨t, ht, -, hfailed, -⟩
    exact reachesToday_of_run hall (Job.foldlM_eq_ok_iff.mp ht) hfailed
  · intro hreaches
    obtain ⟨t, hrun, hlake, hfailed, -, hcounted⟩ := run_of_reaches
      (s := (job engine desk day).start lake provenance)
      (fun symbol (hsymbol : symbol ∈ (job engine desk day).targetSymbols lake) key hkey ↦ by
        obtain ⟨latest, hlatest⟩ := hall symbol hsymbol key hkey
        exact ⟨latest, hlatest, hreaches symbol hsymbol (by simp [hkey]) latest hlatest.stored⟩)
    exact ⟨t, Job.foldlM_eq_ok_iff.mpr hrun, hlake, hfailed, hcounted⟩

end Runs

structure JobResult where
  status : String
  detail : String
  deriving DecidableEq

def detailOf (summary : Summary) : String :=
  "backfilled=" ++ toString summary.symbolsBackfilled.length ++
    " topped_up=" ++ toString summary.symbolsToppedUp.length ++
    " failed=" ++ toString summary.symbolsFailed.length

/-- The job, and what it makes of the datasets' records. `enabled` is `is_agent_enabled`. -/
def runMarketDataIngestion (engine : Engine ℤ Ohlcv) (desk : Desk) (day : Day) (enabled : Bool)
    (now : ℤ) (lake : DailyLake) (provenance : Table String String) (records : Records) :
    JobResult × Records :=
  if isTradingHoliday day.today then (⟨"Skipped", "not a trading day"⟩, records)
  else if !enabled then (⟨"Skipped", "data_ingestion_agent disabled"⟩, records)
  else
    match (job engine desk day).runIncrementalIngestion lake provenance with
    | .ok t =>
      let clean := t.summary.symbolsFailed.isEmpty
      (⟨"Completed", detailOf t.summary⟩, recordIngestionResult records
        ⟨"ohlcv_daily", true, clean, clean, some (detailOf t.summary), now⟩)
    | .error text =>
      (⟨"Failed", text⟩, recordIngestionResult records
        ⟨"ohlcv_daily", false, false, false, some text, now⟩)

/-- The dataset's recorded outcome is a success. -/
def RecordedSuccess (records : Records) : Prop := freshSince records "ohlcv_daily" ≠ none

instance (records : Records) : Decidable (RecordedSuccess records) :=
  inferInstanceAs (Decidable (_ ≠ _))

section Outcome

variable {engine : Engine ℤ Ohlcv} {desk : Desk} {day : Day} {enabled : Bool} {now : ℤ}
  {lake : DailyLake} {provenance : Table String String} {records : Records}

theorem recordedSuccess_record (r : IngestionResult) (h : r.datasetName = "ohlcv_daily") :
    RecordedSuccess (recordIngestionResult records r) ↔ r.Clean := by
  rw [RecordedSuccess, freshSince_recordIngestionResult, if_pos h.symm]
  by_cases hclean : r.Clean <;> simp [hclean]

theorem recordedSuccess_iff (hall : AllUpToDate engine desk day lake)
    (hrecords : RecordedSuccess records) :
    RecordedSuccess (runMarketDataIngestion engine desk day enabled now lake provenance records).2 ↔
      isTradingHoliday day.today ∨ enabled = false ∨ ReachesToday engine desk day lake := by
  rw [runMarketDataIngestion]
  by_cases hholiday : isTradingHoliday day.today
  · simp [hholiday, hrecords]
  rw [if_neg hholiday]
  cases enabled with
  | false => simp [hrecords]
  | true =>
    simp only [hholiday, Bool.not_true, Bool.false_eq_true, Bool.true_eq_false, if_false, false_or]
    cases hrun : (job engine desk day).runIncrementalIngestion lake provenance with
    | error text =>
      rw [recordedSuccess_record _ rfl]
      refine iff_of_false (fun h ↦ by cases h.1) fun hreaches ↦ ?_
      obtain ⟨t, ht, -⟩ := (repeats_iff hall).mpr hreaches
      cases hrun.symm.trans ht
    | ok t =>
      rw [recordedSuccess_record _ rfl]
      simp only [IngestionResult.Clean, List.isEmpty_iff, true_and, and_self]
      constructor
      · exact reachesToday_of_run hall (Job.foldlM_eq_ok_iff.mp hrun)
      · intro hreaches
        obtain ⟨t', ht', -, hfailed, -⟩ := ((repeats_iff hall).mpr hreaches :
          Repeats engine desk day lake provenance)
        rw [Except.ok.inj (hrun.symm.trans ht')]
        exact hfailed

end Outcome

/-- While no provider holds a bar newer than the lake does, another run counts a symbol as fresh
exactly if its latest bar is of the day of that run or later; and the run as a whole repeats, and
the dataset stays recorded as a success, exactly if that is so of each symbol, where a day on which
the job is skipped leaves the record alone. -/
theorem counted_fresh_iff (engine : Engine ℤ Ohlcv) (desk : Desk) (day : Day) (enabled : Bool)
    (now : ℤ) (lake : DailyLake) (provenance : Table String String) (records : Records)
    (hall : AllUpToDate engine desk day lake) (hrecords : RecordedSuccess records) :
    (∀ s symbol key latest, day.resolveInstrumentKey symbol = some key →
      UpToDate engine desk day s.lake symbol key latest →
      (CountedFresh engine desk day s symbol ↔ day.today ≤ latest)) ∧
    (Repeats engine desk day lake provenance ↔ ReachesToday engine desk day lake) ∧
    (RecordedSuccess
        (runMarketDataIngestion engine desk day enabled now lake provenance records).2 ↔
      isTradingHoliday day.today ∨ enabled = false ∨ ReachesToday engine desk day lake) :=
  ⟨fun _ _ _ _ hkey h ↦ countedFresh_iff hkey h, repeats_iff hall,
    recordedSuccess_iff hall hrecords⟩

namespace Reliance

open Data.Reliance

def engine : Engine ℤ Ohlcv :=
  ⟨.insertion _, .insertion _, fun symbol name ↦ symbol = name⟩

def desk : Desk where
  vendors := vendorsOf series
  chain := [.upstoxV3, .yahooFinance]
  foChain := none
  healthCheck _ := true
  maxRetries := 3
  enableFailover := true
  configured := by simp

def onDay (today : ℤ) : Day where
  today := today
  universes := [some ["RELIANCE"]]
  instrumentSync := some 0
  resolveInstrumentKey symbol := if symbol = "RELIANCE" then some "NSE_EQ|INE002A01018" else none

/-- The lake that Friday's run, the first one, leaves. -/
def fridayLake : DailyLake := ParquetLakeWriter.write engine .empty
  [⟨"RELIANCE", 19999, ⟨2580, 2610, 2575, 2600, 4000⟩⟩,
    ⟨"RELIANCE", 20000, ⟨2600, 2660, 2590, 2650, 5000⟩⟩]

theorem targetSymbols_onDay (today : ℤ) :
    (job engine desk (onDay today)).targetSymbols fridayLake = ["RELIANCE"] := by
  have hsymbols : DataLake.listSymbols fridayLake = ["RELIANCE"] := by decide +kernel
  simp only [Job.targetSymbols, job, dailyStore, hsymbols]
  rfl

theorem latestDate_fridayLake :
    DataLake.latestDate engine fridayLake "RELIANCE" = some 20000 := by decide +kernel

theorem allUpToDate_onDay (today : ℤ) : AllUpToDate engine desk (onDay today) fridayLake := by
  rw [AllUpToDate, targetSymbols_onDay]
  intro symbol hsymbol key _
  obtain rfl := List.mem_singleton.mp hsymbol
  refine ⟨20000, latestDate_fridayLake, fun _ ↦ series, hold_vendorsOf series _, fun _ ↦ ?_⟩
  simp [series]

theorem friday_run :
    ∃ t, (job engine desk (onDay 20000)).runIncrementalIngestion Lake.empty .empty = .ok t ∧
      t.lake = fridayLake ∧ t.summary.symbolsBackfilled = ["RELIANCE"] ∧
      t.summary.symbolsFailed = [] := by
  have htargets : (job engine desk (onDay 20000)).targetSymbols Lake.empty = ["RELIANCE"] := by
    decide
  rw [Job.runIncrementalIngestion, htargets]
  refine ⟨⟨_, _, _⟩, rfl, ?_, ?_, ?_⟩
  · rfl
  · rfl
  · rfl

def records : Records := recordIngestionResult .empty ⟨"ohlcv_daily", true, true, true, none, 0⟩

theorem recordedSuccess_records : RecordedSuccess records :=
  (recordedSuccess_record _ rfl).mpr ⟨rfl, rfl, rfl⟩

/-- Friday's run again. -/
theorem friday_counted_fresh :
    AllUpToDate engine desk (onDay 20000) fridayLake ∧ RecordedSuccess records ∧
      Repeats engine desk (onDay 20000) fridayLake .empty ∧
      RecordedSuccess (runMarketDataIngestion engine desk (onDay 20000) true 1 fridayLake .empty
        records).2 := by
  have hiff := counted_fresh_iff engine desk (onDay 20000) true 1 fridayLake .empty records
    (allUpToDate_onDay 20000) recordedSuccess_records
  have hreaches : ReachesToday engine desk (onDay 20000) fridayLake := by
    rw [ReachesToday, targetSymbols_onDay]
    intro symbol hsymbol _ latest hlatest
    obtain rfl := List.mem_singleton.mp hsymbol
    exact (Option.some.inj (latestDate_fridayLake.symm.trans hlatest)).le
  exact ⟨allUpToDate_onDay 20000, recordedSuccess_records, hiff.2.1.mpr hreaches,
    hiff.2.2.mpr (.inr (.inr hreaches))⟩

/-- On Monday, before there is a new bar, the symbol that Friday's run has stored fails, and so
does the dataset. -/
theorem monday_failed :
    (∃ t, (job engine desk (onDay 20000)).runIncrementalIngestion Lake.empty .empty = .ok t ∧
      t.lake = fridayLake ∧ t.summary.symbolsFailed = []) ∧
    AllUpToDate engine desk (onDay 20003) fridayLake ∧ RecordedSuccess records ∧
    ((job engine desk (onDay 20003)).runIncrementalIngestion fridayLake .empty).toOption.map
      (·.summary.symbolsFailed) = some ["RELIANCE"] ∧
    ¬ Repeats engine desk (onDay 20003) fridayLake .empty ∧
    ¬ RecordedSuccess (runMarketDataIngestion engine desk (onDay 20003) true 1 fridayLake .empty
      records).2 := by
  have hnot : ¬ ReachesToday engine desk (onDay 20003) fridayLake := by
    intro hreaches
    have hle := hreaches "RELIANCE" (by simp [targetSymbols_onDay]) rfl 20000 latestDate_fridayLake
    simp [onDay] at hle
  obtain ⟨t, ht, hlake, -, hfailed⟩ := friday_run
  refine ⟨⟨t, ht, hlake, hfailed⟩, allUpToDate_onDay _, recordedSuccess_records, ?_, ?_, ?_⟩
  · decide +kernel
  · exact fun h ↦ hnot ((repeats_iff (allUpToDate_onDay _)).mp h)
  · intro h
    rcases (recordedSuccess_iff (allUpToDate_onDay _) recordedSuccess_records).mp h with h | h | h
    · revert h
      decide
    · cases h
    · exact hnot h

end Reliance

end TradingOS.Data.IngestionRerun
