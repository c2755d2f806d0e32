import TradingOS.Data.IncrementalIngestion
import TradingOS.Data.ProviderAnswers

namespace TradingOS.Data.IngestionTotality

open Lib Lib.Runs ProviderFailover ProviderAnswers IncrementalIngestion

/-- What a call comes to: a document of the endpoint, a frame of the library, an error that its
provider has classified, or the candles of another provider. -/
inductive Answer
  | document (payload : Document)
  | frame (history : Frame)
  | raises (error : ProviderError)
  | candles (quotes : List Quote)

namespace Answer

variable (readings : Readings)

def fetched (request : MarketRequest) : Answer → Except Raised (List Quote)
  | document payload =>
    ProviderAnswers.UpstoxV3Provider.getHistoricalData readings request payload
  | frame history =>
    ProviderAnswers.YahooFinanceProvider.getHistoricalData readings request history
  | raises e => .error (.provider e)
  | candles quotes => .ok quotes

def Readable (request : MarketRequest) : Answer → Prop
  | document payload => DocumentReadable readings payload
  | frame history => request.timeframe ≠ .oneDay ∨ FrameReadable readings history
  | _ => True

variable {readings} {request : MarketRequest}

theorem handled_fetched_iff {answer : Answer} :
    Handled (answer.fetched readings request) ↔ answer.Readable readings request := by
  cases answer with
  | document payload => exact upstox_handled_iff
  | frame history => exact yahoo_handled_iff
  | raises e => exact iff_of_true (.inr ⟨e, rfl⟩) trivial
  | candles quotes => exact iff_of_true (.inl ⟨quotes, rfl⟩) trivial

end Answer

/-- A provider by the answers that its calls for one request get. -/
structure Source where
  name : String
  healthCheck : Bool
  answer : (attempt : ℕ) → Answer

def Source.provider (readings : Readings) (request : MarketRequest) (src : Source) :
    Provider Quote :=
  ⟨src.name, src.healthCheck, fun attempt ↦ (src.answer attempt).fetched readings request⟩

/-- The manager's configuration, and the sources as each request finds them. -/
structure Feed where
  sources : MarketRequest → List Source
  foSources : MarketRequest → Option (List Source)
  maxRetries : ℕ
  enableFailover : Bool
  configured : ∀ request, sources request ≠ []

def Feed.manager (readings : Readings) (feed : Feed) (request : MarketRequest) :
    Manager Quote where
  providers := (feed.sources request).map (Source.provider readings request)
  foProviders := (feed.foSources request).map (List.map (Source.provider readings request))
  maxRetries := feed.maxRetries
  enableFailover := feed.enableFailover
  configured := by simpa using feed.configured request

/-- What the volume column of the lake holds. -/
def IsInt64 (n : ℤ) : Prop := -2 ^ 63 ≤ n ∧ n < 2 ^ 63

instance : DecidablePred IsInt64 := fun _ ↦ inferInstanceAs (Decidable (_ ∧ _))

/-- The lake's files, which take rows with a date each. A frame takes its column of volumes from
the numbers in it, and a larger number may give one that cannot be joined to what the files hold. -/
structure Files (L : Type) where
  listSymbols : L → List String
  latestDate : L → String → Option ℤ
  takes : L → String → List ℤ → Bool
  put : L → String → List (ℤ × Quote) → L
  takes_int64 : ∀ lake symbol volumes, (∀ n ∈ volumes, IsInt64 n) → takes lake symbol volumes

/-- `candles_to_eod_dataframe` takes the date of every candle. -/
def dated (quotes : List Quote) : Option (List (ℤ × Quote)) :=
  quotes.mapM fun q ↦ q.timestamp.date.map (·, q)

def Files.store {L : Type} (files : Files L) : Store L Quote where
  listSymbols := files.listSymbols
  latestDate := files.latestDate
  write lake symbol quotes :=
    match dated quotes with
    | some rows =>
      if files.takes lake symbol (quotes.map Quote.volume) then .ok (files.put lake symbol rows)
      else .error "SchemaError"
    | none => .error "ValueError"

/-- A run's day and what it meets besides its sources. -/
structure Setting (L : Type) where
  files : Files L
  today : ℤ
  universes : List (Option (List String))
  instrumentSync : Option ℕ
  resolveInstrumentKey : String → Option String
  parseFoSymbol : String → Option FoContract

def job {L : Type} (readings : Readings) (feed : Feed) (setting : Setting L) : Job L Quote where
  store := setting.files.store
  today := setting.today
  universes := setting.universes
  instrumentSync := setting.instrumentSync
  resolveInstrumentKey := setting.resolveInstrumentKey
  manager := feed.manager readings
  parseFoSymbol := setting.parseFoSymbol
  validate := validateQuotes

/-- A healthy provider gets at least one call, answers each with what can be read, and gives no
valid list that has a candle without a date or volumes that the files refuse. -/
structure Sound {L : Type} (readings : Readings) (files : Files L) (lake : L)
    (request : MarketRequest) (maxRetries : ℕ) (src : Source) : Prop where
  called : 0 < maxRetries
  readable : ∀ k < maxRetries, (∀ j < k, (src.provider readings request).Retried j) →
    (src.answer k).Readable readings request
  dated : ∀ quotes, Supplies validateQuotes maxRetries (src.provider readings request) quotes →
    ∀ q ∈ quotes, q.timestamp ≠ .notATime
  taken : ∀ quotes, Supplies validateQuotes maxRetries (src.provider readings request) quotes →
    files.takes lake request.symbol (quotes.map Quote.volume)

/-- Whatever healthy source the search for a request gets to is sound. -/
def Undisturbed {L : Type} (readings : Readings) (feed : Feed) (setting : Setting L) (lake : L)
    (request : MarketRequest) : Prop :=
  ∀ pre src post, (feed.manager readings request).chain request setting.parseFoSymbol =
      pre ++ src.provider readings request :: post →
    (∀ q ∈ pre, ∃ failure, PassedOver validateQuotes feed.maxRetries q failure) →
    src.healthCheck → Sound readings setting.files lake request feed.maxRetries src

section Search

variable {L : Type} {readings : Readings} {feed : Feed} {setting : Setting L}
  {request : MarketRequest}

theorem exists_source {p : Provider Quote}
    (h : p ∈ (feed.manager readings request).chain request setting.parseFoSymbol) :
    ∃ src : Source, p = src.provider readings request := by
  have hmap {l : List Source} (hp : p ∈ l.map (Source.provider readings request)) :
      ∃ src : Source, p = src.provider readings request := by
    obtain ⟨src, -, rfl⟩ := List.mem_map.mp hp
    exact ⟨src, rfl⟩
  rcases Manager.mem_chain h with hp | ⟨fo, hfo, hp⟩
  · exact hmap hp
  · obtain ⟨sources, -, rfl⟩ := Option.map_eq_some_iff.mp hfo
    exact hmap hp

/-- A healthy source breaks the search off unless it is called and can be read. -/
theorem breaksOff_iff {maxRetries : ℕ} {src : Source} :
    BreaksOff maxRetries (src.provider readings request) ↔ src.healthCheck ∧
      ¬ (0 < maxRetries ∧ ∀ k < maxRetries,
        (∀ j < k, (src.provider readings request).Retried j) →
          (src.answer k).Readable readings request) := by
  constructor
  · rintro ⟨hhealthy, hraises⟩
    refine ⟨hhealthy, ?_⟩
    rintro ⟨hpos, hreadable⟩
    rcases hraises with rfl | ⟨text, k, hk, hbefore, htext, -⟩
    · exact absurd hpos (by omega)
    · exact not_handled_iff.mpr ⟨text, htext⟩
        (Answer.handled_fetched_iff.mpr (hreadable k hk hbefore))
  · rintro ⟨hhealthy, hnot⟩
    refine ⟨hhealthy, ?_⟩
    rcases Nat.eq_zero_or_pos maxRetries with rfl | hpos
    · exact .inl rfl
    · right
      by_contra hnone
      refine hnot ⟨hpos, fun k hk hbefore ↦ Answer.handled_fetched_iff.mp ?_⟩
      by_contra hhandled
      obtain ⟨text, htext⟩ := not_handled_iff.mp hhandled
      refine hnone ⟨text, k, hk, hbefore, htext, ?_⟩
      rintro ⟨e, he, -⟩
      rw [show (src.provider readings request).answer k = .error (.other text) from htext] at he
      cases he

theorem dated_eq_none_iff {quotes : List Quote} :
    dated quotes = none ↔ ∃ q ∈ quotes, q.timestamp = .notATime := by
  have hdate (q : Quote) : q.timestamp.date.map (·, q) = none ↔ q.timestamp = .notATime := by
    cases q.timestamp <;> simp [Stamp.date]
  induction quotes with
  | nil => simp [dated]
  | cons q quotes ih =>
    rw [dated] at ih
    simp only [dated, List.mapM_cons, Option.bind_eq_bind, Option.bind_eq_none_iff,
      List.exists_mem_cons_iff, ← hdate q, ← ih]
    cases q.timestamp.date.map (·, q) <;>
      cases quotes.mapM (fun q ↦ q.timestamp.date.map (·, q)) <;> simp

theorem store_write_error_iff {lake : L} {symbol : String} {quotes : List Quote} :
    (∃ text, setting.files.store.write lake symbol quotes = .error text) ↔
      (∃ q ∈ quotes, q.timestamp = .notATime) ∨
        setting.files.takes lake symbol (quotes.map Quote.volume) = false := by
  rw [← dated_eq_none_iff]
  cases h : dated quotes with
  | none => simp [Files.store, h]
  | some rows =>
    cases htakes : setting.files.takes lake symbol (quotes.map Quote.volume) <;>
      simp [Files.store, h, htakes]

theorem symbol_of_asks {lake : L} {symbol : String}
    (h : (job readings feed setting).asks lake symbol = some request) : request.symbol = symbol := by
  simp only [Job.asks] at h
  split at h
  · cases h
  · split at h
    · cases h
    · obtain rfl := Option.some.inj h
      rfl

/-- A turn raises exactly if its search gets to a healthy source that is not sound. -/
theorem step_ne_none_iff {s : Progress L} {symbol : String} :
    (job readings feed setting).step s symbol ≠ none ↔
      ∀ request, (job readings feed setting).asks s.lake symbol = some request →
        Undisturbed readings feed setting s.lake request := by
  rw [Ne, Job.step_eq_none_iff, not_exists]
  refine forall_congr' fun request ↦ not_and.trans (imp_congr_right fun hasks ↦ ?_)
  obtain rfl := symbol_of_asks hasks
  have hother := getHistoricalData_other_iff validateQuotes
    (feed.manager readings request) request setting.parseFoSymbol
  rw [not_or, not_exists]
  constructor
  · rintro ⟨hsearch, hwrite⟩ pre src post hchain hpre hhealthy
    have hunbroken : ¬ BreaksOff feed.maxRetries (src.provider readings request) := by
      intro hbreaks
      obtain ⟨text, htext⟩ := hother.mpr ⟨pre, _, post, hchain, hpre, hbreaks⟩
      exact hsearch text htext
    rw [breaksOff_iff, not_and, not_not] at hunbroken
    obtain ⟨hcalled, hreadable⟩ := hunbroken hhealthy
    refine ⟨hcalled, hreadable, fun quotes hsupplies q hq hstamp ↦ ?_, fun quotes hsupplies ↦ ?_⟩
    · exact hwrite ⟨quotes, List.ne_nil_of_mem hq, ⟨pre, _, post, hchain, hpre, hsupplies⟩,
        store_write_error_iff.mpr (.inl ⟨q, hq, hstamp⟩)⟩
    · by_contra hrefused
      have hne : quotes ≠ [] := by
        rintro rfl
        exact hrefused (setting.files.takes_int64 _ _ _ (by simp))
      exact hwrite ⟨quotes, hne, ⟨pre, _, post, hchain, hpre, hsupplies⟩,
        store_write_error_iff.mpr (.inr (Bool.not_eq_true _ ▸ hrefused))⟩
  · intro h
    constructor
    · intro text htext
      obtain ⟨pre, p, post, hchain, hpre, hbreaks⟩ := hother.mp ⟨text, htext⟩
      obtain ⟨src, rfl⟩ := exists_source (p := p) (hchain ▸ List.mem_append_right _
        List.mem_cons_self)
      obtain ⟨hhealthy, hnot⟩ := breaksOff_iff.mp hbreaks
      have hsound := h pre src post hchain hpre hhealthy
      exact hnot ⟨hsound.called, hsound.readable⟩
    · rintro ⟨quotes, -, ⟨pre, p, post, hchain, hpre, hsupplies⟩, hraises⟩
      obtain ⟨src, rfl⟩ := exists_source (p := p) (hchain ▸ List.mem_append_right _
        List.mem_cons_self)
      have hsound := h pre src post hchain hpre hsupplies.healthy
      rcases store_write_error_iff.mp hraises with ⟨q, hq, hstamp⟩ | hrefused
      · exact hsound.dated quotes hsupplies q hq hstamp
      · exact absurd (hrefused.symm.trans (hsound.taken quotes hsupplies)) (by simp)

end Search

/-- An answer of either parser is handled exactly if it can be read, and a run gives every symbol
its due exactly if the searches of its turns get to no other healthy source. -/
theorem handled_and_completes_iff {L : Type} (readings : Readings) (request : MarketRequest)
    (payload : Document) (history : Frame) (feed : Feed) (setting : Setting L) (lake : L)
    (provenance : Table String String) :
    (Handled (ProviderAnswers.UpstoxV3Provider.getHistoricalData readings request payload) ↔
      DocumentReadable readings payload) ∧
    (Handled (ProviderAnswers.YahooFinanceProvider.getHistoricalData readings request history) ↔
      request.timeframe ≠ .oneDay ∨ FrameReadable readings history) ∧
    ((job readings feed setting).Completes lake provenance ↔
      ∀ pre symbol post s request,
        (job readings feed setting).targetSymbols lake = pre ++ symbol :: post →
        Run (job readings feed setting).step ((job readings feed setting).start lake provenance)
          pre s →
        (job readings feed setting).asks s.lake symbol = some request →
        Undisturbed readings feed setting s.lake request) := by
  refine ⟨upstox_handled_iff, yahoo_handled_iff, ?_⟩
  rw [Job.completes_iff]
  constructor
  · intro h pre symbol post s request hsplit hrun hasks
    exact step_ne_none_iff.mp (h pre symbol post s hsplit hrun) request hasks
  · intro h pre symbol post s hsplit hrun
    exact step_ne_none_iff.mpr fun request hasks ↦ h pre symbol post s request hsplit hrun hasks

/-- An endpoint that answers without candles, and a library that has them. -/
def statusOnly : Feed where
  sources _ := [⟨"upstox_v3", true, fun _ ↦ .document (.dict [("status", .str "success")])⟩,
    ⟨"yfinance", true, fun _ ↦ .frame ⟨["Open", "High", "Low", "Close", "Volume"],
      [(.timestamp (.inr (.midnight 20000)), [("Open", .int 2600), ("High", .int 2660),
        ("Low", .int 2590), ("Close", .int 2650), ("Volume", .int 5000)])]⟩⟩]
  foSources _ := none
  maxRetries := 3
  enableFailover := true
  configured := by simp

def twoSymbols : Setting (List String) where
  files :=
    { listSymbols := fun lake ↦ lake
      latestDate := fun _ _ ↦ none
      takes := fun _ _ volumes ↦ volumes.all fun n ↦ decide (IsInt64 n)
      put := fun lake symbol _ ↦ lake ++ [symbol]
      takes_int64 := fun _ _ _ h ↦ List.all_eq_true.mpr fun n hn ↦ decide_eq_true (h n hn) }
  today := 20003
  universes := [some ["INFY"], some ["TCS"]]
  instrumentSync := some 0
  resolveInstrumentKey symbol := some symbol
  parseFoSymbol _ := none

def plainReadings : Readings :=
  ⟨⟨fun _ ↦ none, fun n ↦ some (.finite n), fun _ ↦ none⟩, fun _ ↦ none⟩

/-- The missing entry ends the run at its first symbol, though the second source has candles. -/
theorem statusOnly_aborts :
    ¬ Handled (ProviderAnswers.UpstoxV3Provider.getHistoricalData plainReadings
        ⟨"INFY", "INFY", 19273, 20003, .oneDay⟩ (.dict [("status", .str "success")])) ∧
      (job plainReadings statusOnly twoSymbols).runIncrementalIngestion [] .empty =
        .error "KeyError" ∧
      ¬ (job plainReadings statusOnly twoSymbols).Completes [] .empty := by
  have htargets : (job plainReadings statusOnly twoSymbols).targetSymbols [] = ["INFY", "TCS"] := by
    decide
  have hrun : (job plainReadings statusOnly twoSymbols).runIncrementalIngestion [] .empty =
      .error "KeyError" := by
    rw [Job.runIncrementalIngestion, htargets]
    rfl
  refine ⟨not_handled_iff.mpr ⟨"KeyError", rfl⟩, hrun, ?_⟩
  rintro ⟨t, ht, -⟩
  rw [hrun] at ht
  cases ht

end TradingOS.Data.IngestionTotality
