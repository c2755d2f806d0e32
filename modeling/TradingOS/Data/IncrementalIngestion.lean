import TradingOS.Data.ProviderFailover
import TradingOS.Data.ScheduledSync
import TradingOS.Lib.Fallible

namespace TradingOS.Data.IncrementalIngestion

open Lib Lib.Runs ProviderFailover

/-- An `IncrementalIngestionSummary`. -/
structure Summary where
  instrumentsSynced : ℕ
  symbolsBackfilled : List String
  symbolsToppedUp : List String
  symbolsAlreadyFresh : List String
  symbolsSkippedUnresolvable : List String
  symbolsFailed : List String
  deriving DecidableEq

/-- What a run does with the lake; a write may raise. -/
structure Store (L γ : Type) where
  listSymbols : L → List String
  latestDate : L → String → Option ℤ
  write : L → String → List γ → Except String L

/-- A run's day and what it meets: the strategies' universes, what the sync of the instruments
returned unless it raised, their keys, and the manager as each request finds it. -/
structure Job (L γ : Type) where
  store : Store L γ
  today : ℤ
  universes : List (Option (List String))
  instrumentSync : Option ℕ
  resolveInstrumentKey : String → Option String
  manager : MarketRequest → Manager γ
  parseFoSymbol : String → Option FoContract
  validate : List γ → List DataQualityIssue

/-- The lake, the summary so far, and the provider recorded last for each symbol. -/
structure Progress (L : Type) where
  lake : L
  summary : Summary
  provenance : Table String String

namespace Job

variable {L γ : Type} (job : Job L γ)

/-- `_target_symbols`, sorted. -/
def targetSymbols (lake : L) : List String :=
  (job.store.listSymbols lake ++
    (job.universes.filterMap id).filterMap List.head?).dedup.insertionSort (· ≤ ·)

def startOf (latest : Option ℤ) : ℤ :=
  match latest with
  | none => job.today - initialBackfillDays
  | some latest => latest + 1

/-- The request that a symbol's turn comes to, if it comes to one. -/
def asks (lake : L) (symbol : String) : Option MarketRequest :=
  match job.resolveInstrumentKey symbol with
  | none => none
  | some key =>
    let start := job.startOf (job.store.latestDate lake symbol)
    if job.today < start then none else some ⟨key, symbol, start, job.today, .oneDay⟩

def search (request : MarketRequest) : Except ManagerError (Delivered γ) :=
  ((job.manager request).getHistoricalData job.validate request job.parseFoSymbol).result

/-- The body of the loop over the symbols. -/
def ingestSymbol (s : Progress L) (symbol : String) : Except String (Progress L) :=
  match job.resolveInstrumentKey symbol with
  | none => .ok { s with summary.symbolsSkippedUnresolvable :=
      s.summary.symbolsSkippedUnresolvable ++ [symbol] }
  | some _ =>
    match job.asks s.lake symbol with
    | none => .ok { s with summary.symbolsAlreadyFresh :=
        s.summary.symbolsAlreadyFresh ++ [symbol] }
    | some request =>
      match job.search request with
      | .error (.marketDataUnavailable _) => .ok { s with summary.symbolsFailed :=
          s.summary.symbolsFailed ++ [symbol] }
      | .error (.other text) => .error text
      | .ok result =>
        if result.candles.isEmpty then .ok { s with summary.symbolsAlreadyFresh :=
          s.summary.symbolsAlreadyFresh ++ [symbol] }
        else
          match job.store.write s.lake symbol result.candles with
          | .error text => .error text
          | .ok lake =>
            .ok ⟨lake, if (job.store.latestDate s.lake symbol).isNone then
                { s.summary with symbolsBackfilled := s.summary.symbolsBackfilled ++ [symbol] }
              else { s.summary with symbolsToppedUp := s.summary.symbolsToppedUp ++ [symbol] },
              s.provenance.assign symbol result.providerUsed⟩

def start (lake : L) (provenance : Table String String) : Progress L :=
  ⟨lake, ⟨job.instrumentSync.getD 0, [], [], [], [], []⟩, provenance⟩

def runIncrementalIngestion (lake : L) (provenance : Table String String) :
    Except String (Progress L) :=
  (job.targetSymbols lake).foldlM job.ingestSymbol (job.start lake provenance)

/-- A turn of the loop, where an exception leaves the run without a next state. -/
def step (s : Progress L) (symbol : String) : Option (Progress L) :=
  (job.ingestSymbol s symbol).toOption

/-- A provider of the chain supplies the candles, after others that are passed over. -/
def Supplied (request : MarketRequest) (candles : List γ) : Prop :=
  ∃ pre p post, (job.manager request).chain request job.parseFoSymbol = pre ++ p :: post ∧
    (∀ q ∈ pre, ∃ failure, PassedOver job.validate (job.manager request).maxRetries q failure) ∧
    Supplies job.validate (job.manager request).maxRetries p candles

/-- A symbol's turn stores what is supplied for it and puts it down as failed if nothing is. -/
structure Accounted (s : Progress L) (symbol : String) (t : Progress L) : Prop where
  supplied : ∀ request candles, job.asks s.lake symbol = some request → candles ≠ [] →
    job.Supplied request candles → job.store.write s.lake symbol candles = .ok t.lake ∧
      (symbol ∈ t.summary.symbolsBackfilled ∨ symbol ∈ t.summary.symbolsToppedUp)
  failed : t.summary.symbolsFailed = s.summary.symbolsFailed ++ [symbol] ∧ t.lake = s.lake ∧
      (∃ request, job.asks s.lake symbol = some request ∧
        ¬ ∃ candles, job.Supplied request candles) ∨
    t.summary.symbolsFailed = s.summary.symbolsFailed ∧
      ∀ request, job.asks s.lake symbol = some request → ∃ candles, job.Supplied request candles

section Turns

variable {job} {s t : Progress L} {symbol : String} {request : MarketRequest} {candles : List γ}

theorem supplied_iff : job.Supplied request candles ↔
    ∃ result, job.search request = .ok result ∧ result.candles = candles := by
  have hfails := failsOver_getHistoricalData job.validate (job.manager request) request
    job.parseFoSymbol
  constructor
  · rintro ⟨pre, p, post, hchain, hpre, hp⟩
    obtain ⟨requested, hrequested, -⟩ := getHistoricalData_eq job.validate
      (job.manager request) request job.parseFoSymbol
    exact ⟨⟨candles, requested, p.name⟩,
      (hfails.returned _).mpr ⟨pre, p, post, hchain, hpre, hp, rfl, hrequested⟩, rfl⟩
  · rintro ⟨result, hresult, rfl⟩
    obtain ⟨pre, p, post, hchain, hpre, hp, -, -⟩ := (hfails.returned result).mp hresult
    exact ⟨pre, p, post, hchain, hpre, hp⟩

theorem Supplied.eq {candles' : List γ} (h : job.Supplied request candles)
    (h' : job.Supplied request candles') : candles = candles' := by
  obtain ⟨result, hresult, rfl⟩ := supplied_iff.mp h
  obtain ⟨result', hresult', rfl⟩ := supplied_iff.mp h'
  rw [Except.ok.inj (hresult.symm.trans hresult')]

/-- The ways in which a symbol's turn ends. -/
inductive Turn (s : Progress L) (symbol : String) : Except String (Progress L) → Prop
  | notAsked {t : Progress L} (hasks : job.asks s.lake symbol = none) (hlake : t.lake = s.lake)
      (hfailed : t.summary.symbolsFailed = s.summary.symbolsFailed) : Turn s symbol (.ok t)
  | unavailable {request : MarketRequest} {errors : List (String × ProviderFailure)}
      {t : Progress L} (hasks : job.asks s.lake symbol = some request)
      (hsearch : job.search request = .error (.marketDataUnavailable errors)) (hlake : t.lake = s.lake)
      (hfailed : t.summary.symbolsFailed = s.summary.symbolsFailed ++ [symbol]) :
      Turn s symbol (.ok t)
  | raised {request : MarketRequest} {text : String}
      (hasks : job.asks s.lake symbol = some request)
      (hsearch : job.search request = .error (.other text)) : Turn s symbol (.error text)
  | nothing {request : MarketRequest} {t : Progress L}
      (hasks : job.asks s.lake symbol = some request) (hsupplied : job.Supplied request [])
      (hlake : t.lake = s.lake)
      (hfailed : t.summary.symbolsFailed = s.summary.symbolsFailed) : Turn s symbol (.ok t)
  | unwritten {request : MarketRequest} {candles : List γ} {text : String}
      (hasks : job.asks s.lake symbol = some request) (hne : candles ≠ [])
      (hsupplied : job.Supplied request candles)
      (hwrite : job.store.write s.lake symbol candles = .error text) :
      Turn s symbol (.error text)
  | written {request : MarketRequest} {candles : List γ} {t : Progress L}
      (hasks : job.asks s.lake symbol = some request) (hne : candles ≠ [])
      (hsupplied : job.Supplied request candles)
      (hwrite : job.store.write s.lake symbol candles = .ok t.lake)
      (hlisted : symbol ∈ t.summary.symbolsBackfilled ∨ symbol ∈ t.summary.symbolsToppedUp)
      (hfailed : t.summary.symbolsFailed = s.summary.symbolsFailed) : Turn s symbol (.ok t)

theorem turn (s : Progress L) (symbol : String) :
    job.Turn s symbol (job.ingestSymbol s symbol) := by
  rw [ingestSymbol]
  cases hkey : job.resolveInstrumentKey symbol with
  | none =>
    have hasks : job.asks s.lake symbol = none := by rw [asks, hkey]
    exact .notAsked hasks rfl rfl
  | some key =>
    dsimp only
    cases hasks : job.asks s.lake symbol with
    | none => exact .notAsked hasks rfl rfl
    | some request =>
      dsimp only
      cases hsearch : job.search request with
      | error e =>
        cases e with
        | marketDataUnavailable errors => exact .unavailable hasks hsearch rfl rfl
        | other text => exact .raised hasks hsearch
      | ok result =>
        have hsupplied : job.Supplied request result.candles :=
          supplied_iff.mpr ⟨result, hsearch, rfl⟩
        dsimp only
        cases hcandles : result.candles with
        | nil =>
          rw [hcandles] at hsupplied
          exact .nothing hasks hsupplied rfl rfl
        | cons c cs =>
          rw [hcandles] at hsupplied
          simp only [List.isEmpty_cons, Bool.false_eq_true, if_false]
          cases hwrite : job.store.write s.lake symbol (c :: cs) with
          | error text => exact .unwritten hasks (List.cons_ne_nil c cs) hsupplied hwrite
          | ok lake =>
            refine .written hasks (List.cons_ne_nil c cs) hsupplied hwrite ?_ ?_
            · split <;> simp
            · split <;> rfl

theorem not_supplied_of_error {e : ManagerError} (h : job.search request = .error e) :
    ¬ job.Supplied request candles := by
  intro hsupplied
  obtain ⟨result, hresult, -⟩ := supplied_iff.mp hsupplied
  rw [h] at hresult
  cases hresult

/-- An exception leaves a turn from the search or from the write of what it found. -/
theorem step_eq_none_iff : job.step s symbol = none ↔
    ∃ request, job.asks s.lake symbol = some request ∧
      ((∃ text, job.search request = .error (.other text)) ∨
        ∃ candles, candles ≠ [] ∧ job.Supplied request candles ∧
          ∃ text, job.store.write s.lake symbol candles = .error text) := by
  have hturn := job.turn s symbol
  rw [step]
  generalize job.ingestSymbol s symbol = r at hturn
  constructor
  · intro h
    cases hturn with
    | raised hasks hsearch => exact ⟨_, hasks, .inl ⟨_, hsearch⟩⟩
    | unwritten hasks hne hsupplied hwrite =>
      exact ⟨_, hasks, .inr ⟨_, hne, hsupplied, _, hwrite⟩⟩
    | _ => cases h
  · rintro ⟨request, hasks, h⟩
    cases hturn with
    | raised => rfl
    | unwritten => rfl
    | notAsked hasks' =>
      rw [hasks] at hasks'
      cases hasks'
    | unavailable hasks' hsearch =>
      obtain rfl := Option.some.inj (hasks.symm.trans hasks')
      rcases h with ⟨text, htext⟩ | ⟨candles, -, hsupplied, -⟩
      · rw [hsearch] at htext
        cases htext
      · exact absurd hsupplied (not_supplied_of_error hsearch)
    | nothing hasks' hsupplied' =>
      obtain rfl := Option.some.inj (hasks.symm.trans hasks')
      rcases h with ⟨text, htext⟩ | ⟨candles, hne, hsupplied, -⟩
      · exact absurd hsupplied' (not_supplied_of_error htext)
      · exact absurd (hsupplied.eq hsupplied') hne
    | written hasks' hne' hsupplied' hwrite' =>
      obtain rfl := Option.some.inj (hasks.symm.trans hasks')
      rcases h with ⟨text, htext⟩ | ⟨candles, hne, hsupplied, text, hwrite⟩
      · exact absurd hsupplied' (not_supplied_of_error htext)
      · rw [hsupplied.eq hsupplied', hwrite'] at hwrite
        cases hwrite

theorem accounted (h : job.step s symbol = some t) : job.Accounted s symbol t := by
  have hturn := job.turn s symbol
  rw [step] at h
  generalize job.ingestSymbol s symbol = r at hturn h
  cases hturn with
  | raised | unwritten => cases h
  | notAsked hasks hlake hfailed =>
    obtain rfl := Option.some.inj h
    have hnever (request : MarketRequest) : job.asks s.lake symbol ≠ some request := by
      rw [hasks]
      exact Option.some_ne_none request ∘ Eq.symm
    exact ⟨fun request _ hrequest ↦ absurd hrequest (hnever request),
      .inr ⟨hfailed, fun request hrequest ↦ absurd hrequest (hnever request)⟩⟩
  | unavailable hasks hsearch hlake hfailed =>
    obtain rfl := Option.some.inj h
    refine ⟨fun request candles hrequest _ hsupplied ↦ ?_, .inl ⟨hfailed, hlake, _, hasks, ?_⟩⟩
    · obtain rfl := Option.some.inj (hasks.symm.trans hrequest)
      exact absurd hsupplied (not_supplied_of_error hsearch)
    · rintro ⟨candles, hsupplied⟩
      exact not_supplied_of_error hsearch hsupplied
  | nothing hasks hsupplied hlake hfailed =>
    obtain rfl := Option.some.inj h
    refine ⟨fun request candles hrequest hne hsupplied' ↦ ?_,
      .inr ⟨hfailed, fun request hrequest ↦ ?_⟩⟩
    · obtain rfl := Option.some.inj (hasks.symm.trans hrequest)
      exact absurd (hsupplied'.eq hsupplied) hne
    · obtain rfl := Option.some.inj (hasks.symm.trans hrequest)
      exact ⟨[], hsupplied⟩
  | written hasks hne hsupplied hwrite hlisted hfailed =>
    obtain rfl := Option.some.inj h
    refine ⟨fun request candles hrequest _ hsupplied' ↦ ?_,
      .inr ⟨hfailed, fun request hrequest ↦ ?_⟩⟩
    · obtain rfl := Option.some.inj (hasks.symm.trans hrequest)
      rw [hsupplied'.eq hsupplied]
      exact ⟨hwrite, hlisted⟩
    · obtain rfl := Option.some.inj (hasks.symm.trans hrequest)
      exact ⟨_, hsupplied⟩

end Turns

section Runs

variable {job} {s t : Progress L} {symbols : List String} {lake : L}
  {provenance : Table String String}

theorem foldlM_eq_ok_iff :
    symbols.foldlM job.ingestSymbol s = .ok t ↔ Run job.step s symbols t := by
  induction symbols generalizing s with
  | nil =>
    constructor
    · intro h
      obtain rfl := Except.ok.inj h
      exact .nil _
    · intro h
      cases h
      rfl
  | cons symbol symbols ih =>
    rw [List.foldlM_cons, bind_eq_ok]
    constructor
    · rintro ⟨next, hnext, hrest⟩
      exact .cons (by rw [step, hnext]; rfl) (ih.mp hrest)
    · intro h
      cases h with
      | cons hstep hrest =>
        rw [step] at hstep
        cases hnext : job.ingestSymbol s symbol with
        | error text =>
          rw [hnext] at hstep
          cases hstep
        | ok next =>
          rw [hnext] at hstep
          obtain rfl := Option.some.inj hstep
          exact ⟨_, rfl, ih.mpr hrest⟩

/-- A run adds to the failed symbols some of its own. -/
theorem failed_of_run (h : Run job.step s symbols t) : ∃ more,
    t.summary.symbolsFailed = s.summary.symbolsFailed ++ more ∧ ∀ symbol ∈ more, symbol ∈ symbols := by
  induction h with
  | nil s => exact ⟨[], by simp, by simp⟩
  | @cons s next t symbol symbols hstep _ ih =>
    obtain ⟨more, hmore, hsymbols⟩ := ih
    rcases (accounted hstep).failed with ⟨hfailed, -⟩ | ⟨hfailed, -⟩
    · refine ⟨symbol :: more, by rw [hmore, hfailed, List.append_assoc]; rfl, ?_⟩
      exact List.forall_mem_cons.mpr ⟨List.mem_cons_self, fun x hx ↦
        List.mem_cons_of_mem _ (hsymbols x hx)⟩
    · exact ⟨more, by rw [hmore, hfailed], fun x hx ↦ List.mem_cons_of_mem _ (hsymbols x hx)⟩

/-- The symbol of a turn is among the failed ones in the end if it fails in that turn. -/
theorem mem_failed_iff {pre post : List String} {symbol : String} {s₀ next : Progress L}
    (hnodup : (pre ++ symbol :: post).Nodup) (hstart : s₀.summary.symbolsFailed = [])
    (hpre : Run job.step s₀ pre s) (hstep : job.step s symbol = some next)
    (hpost : Run job.step next post t) : symbol ∈ t.summary.symbolsFailed ↔
      ∃ request, job.asks s.lake symbol = some request ∧
        ¬ ∃ candles, job.Supplied request candles := by
  obtain ⟨before, hbefore, hmem⟩ := failed_of_run hpre
  obtain ⟨after, hafter, hmem'⟩ := failed_of_run hpost
  obtain ⟨-, hpost', hdisjoint⟩ := List.nodup_append.mp hnodup
  have hb : symbol ∉ before := fun hs ↦
    hdisjoint symbol (hmem symbol hs) symbol List.mem_cons_self rfl
  have ha : symbol ∉ after := fun hs ↦ (List.nodup_cons.mp hpost').1 (hmem' symbol hs)
  rw [hstart, List.nil_append] at hbefore
  rw [hafter]
  rcases (accounted hstep).failed with ⟨hfailed, -, hnone⟩ | ⟨hfailed, hsome⟩
  · rw [hfailed, hbefore]
    exact iff_of_true (by simp) hnone
  · rw [hfailed, hbefore]
    refine iff_of_false (by simp [ha, hb]) ?_
    rintro ⟨request, hasks, hnone⟩
    exact hnone (hsome request hasks)

end Runs

/-- Every target symbol has its turn, which stores what is supplied for it, and in the end the
failed symbols are those for which nothing is. -/
def Completes (lake : L) (provenance : Table String String) : Prop :=
  ∃ t, job.runIncrementalIngestion lake provenance = .ok t ∧
    ∀ pre symbol post, job.targetSymbols lake = pre ++ symbol :: post → ∃ s next,
      Run job.step (job.start lake provenance) pre s ∧ job.step s symbol = some next ∧
      Run job.step next post t ∧ job.Accounted s symbol next ∧
      (symbol ∈ t.summary.symbolsFailed ↔ ∃ request, job.asks s.lake symbol = some request ∧
        ¬ ∃ candles, job.Supplied request candles)

theorem completes_iff {lake : L} {provenance : Table String String} :
    job.Completes lake provenance ↔ ∀ pre symbol post s,
      job.targetSymbols lake = pre ++ symbol :: post →
      Run job.step (job.start lake provenance) pre s → job.step s symbol ≠ none := by
  rw [← exists_run_iff]
  constructor
  · rintro ⟨t, ht, -⟩
    exact ⟨t, foldlM_eq_ok_iff.mp ht⟩
  · rintro ⟨t, ht⟩
    refine ⟨t, foldlM_eq_ok_iff.mpr ht, fun pre symbol post hsplit ↦ ?_⟩
    have hnodup : (job.targetSymbols lake).Nodup :=
      (List.perm_insertionSort _ _).nodup_iff.mpr (List.nodup_dedup _)
    rw [hsplit] at ht hnodup
    obtain ⟨s, hpre, hrest⟩ := run_append_iff.mp ht
    cases hrest with
    | @cons _ next _ _ _ hstep hpost =>
      exact ⟨s, next, hpre, hstep, hpost, accounted hstep,
        mem_failed_iff hnodup rfl hpre hstep hpost⟩

end Job

end TradingOS.Data.IncrementalIngestion
