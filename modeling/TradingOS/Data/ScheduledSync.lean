import Mathlib.Data.String.Basic
import Mathlib.Tactic.SplitIfs
import TradingOS.Data.ParquetLake

namespace TradingOS.Data

open Lib Lib.Runs

abbrev DailyLake := Lake ℤ (ℤ × ℤ) Ohlcv

/-- What the runs rely on: the lake's engine, the symbols that name instruments, and their final
bars. Such a symbol has no wildcard, so DuckDB takes it as it is. -/
structure Exchange where
  engine : Engine ℤ Ohlcv
  names : String → Bool
  glob_iff : ∀ symbol, names symbol → ∀ name, engine.glob symbol name ↔ name = symbol
  final : String → ℤ → Option Ohlcv

/-- A run and what it meets: its day, the first symbols of the universes, the instruments that are
active, the bars of the day that is not over, and the days each answer misses, where `none` is
`MarketDataUnavailable`. -/
structure IngestionRun where
  today : ℤ
  universes : List String
  isActive : String → Bool
  todayBar : String → Option Ohlcv
  answer : String → Option (ℤ → Bool)

def initialBackfillDays : ℤ := 730

namespace IngestionRun

variable (X : Exchange) (run : IngestionRun)

/-- `resolve_instrument_key` finds a row. -/
def resolves (symbol : String) : Bool := X.names symbol && run.isActive symbol

def barOf (symbol : String) (d : ℤ) : Option Ohlcv :=
  if d = run.today then run.todayBar symbol else X.final symbol d

/-- The bar of a day as the answer has it. -/
def answered (symbol : String) (d : ℤ) : Option Ohlcv :=
  match run.answer symbol with
  | none => none
  | some missed => if missed d then none else run.barOf X symbol d

/-- The frame of the candles from `start` to today. -/
def candles (symbol : String) (start : ℤ) : List (Row ℤ Ohlcv) :=
  (daysFrom start (run.today + 1 - start).toNat).filterMap fun d ↦
    (run.answered X symbol d).map (⟨symbol, d, ·⟩)

def startOf (latest : Option ℤ) : ℤ :=
  match latest with
  | none => run.today - initialBackfillDays
  | some latest => latest + 1

/-- The body of the loop over the symbols. -/
def ingestSymbol (lake : DailyLake) (symbol : String) : DailyLake :=
  if ¬ run.resolves X symbol then lake
  else
    let start := run.startOf (DataLake.latestDate X.engine lake symbol)
    if run.today < start then lake
    else if run.answer symbol = none then lake
    else ParquetLakeWriter.write X.engine lake (run.candles X symbol start)

end IngestionRun

def targetSymbols (lake : DailyLake) (universes : List String) : List String :=
  (DataLake.listSymbols lake ++ universes).dedup.insertionSort (· ≤ ·)

def runIncrementalIngestion (X : Exchange) (lake : DailyLake) (run : IngestionRun) : DailyLake :=
  (targetSymbols lake run.universes).foldl (run.ingestSymbol X) lake

namespace DataLake

/-- The bar a lake holds of a symbol and a day. -/
def bar (lake : DailyLake) (symbol : String) (d : ℤ) : Option Ohlcv :=
  (lastOf Row.key (lake.rowsAt (symbol, ParquetLakeWriter.layout d)) (symbol, d)).map Row.values

def WellFormed (lake : DailyLake) : Prop :=
  ∃ log, lake.LastWriteWins ParquetLakeWriter.layout log

variable {lake lake' : DailyLake} {symbol : String} {d : ℤ}

theorem bar_eq {log : List (Row ℤ Ohlcv)} (h : lake.LastWriteWins ParquetLakeWriter.layout log) :
    bar lake symbol d = (lastOf Row.key log (symbol, d)).map Row.values :=
  congrArg (Option.map Row.values) h.lastOf_rowsAt

theorem write_spec {engine : Engine ℤ Ohlcv} {rows : List (Row ℤ Ohlcv)} (h : WellFormed lake)
    (hrows : (rows.map Row.key).Nodup) : WellFormed (ParquetLakeWriter.write engine lake rows) ∧
      ∀ symbol d, bar (ParquetLakeWriter.write engine lake rows) symbol d =
        ((lastOf Row.key rows (symbol, d)).map Row.values).or (bar lake symbol d) := by
  obtain ⟨log, hlog⟩ := h
  have hunique : Lake.BeginsUnique ParquetLakeWriter.layout lake rows := fun p _ ↦
    hrows.sublist (List.filter_sublist.map Row.key)
  have hwrite : (ParquetLakeWriter.write engine lake rows).LastWriteWins ParquetLakeWriter.layout
      (log ++ rows) := (Lake.lastWriteWins_write_iff hlog).mpr hunique
  refine ⟨⟨_, hwrite⟩, fun symbol d ↦ ?_⟩
  rw [bar_eq hlog, ← Option.map_or, ← lastOf_append]
  exact bar_eq hwrite

theorem mem_listSymbols (h : bar lake symbol d ≠ none) : symbol ∈ listSymbols lake := by
  have hrows : lake.rowsAt (symbol, ParquetLakeWriter.layout d) ≠ [] := by
    intro hnil
    refine h ?_
    rw [bar, hnil]
    rfl
  obtain ⟨r, hr⟩ := List.exists_mem_of_ne_nil _ hrows
  obtain ⟨file, hfile, -⟩ := Lake.mem_rowsAt.mp hr
  exact List.mem_dedup.mpr (List.mem_map_of_mem (List.mem_map_of_mem hfile))

theorem mem_dates {X : Exchange} (h : WellFormed lake) (hname : X.names symbol) :
    d ∈ (readSymbol X.engine lake symbol none none).map Row.time ↔ bar lake symbol d ≠ none := by
  obtain ⟨log, hlog⟩ := h
  have hown : Lake.SelectsOwn X.engine lake symbol (withinDays (none, none))
      (withinDays (none, none)) :=
    ⟨fun p hp r _ ↦ and_iff_right ((X.glob_iff symbol hname p.1).mpr hp),
      fun p hp hglob ↦ absurd ((X.glob_iff symbol hname p.1).mp hglob) hp⟩
  obtain ⟨-, hread⟩ := (Lake.readsExactly_iff hlog).mpr hown
  rw [bar_eq hlog, Option.ne_none_iff_exists', List.mem_map]
  simp only [Option.map_eq_some_iff]
  constructor
  · rintro ⟨r, hr, rfl⟩
    obtain ⟨rfl, -, hlast⟩ := (hread r).mp hr
    exact ⟨r.values, r, hlast, rfl⟩
  · rintro ⟨b, r, hlast, -⟩
    obtain ⟨rfl, rfl⟩ := Prod.mk.inj (of_lastOf_eq_some hlast).2
    exact ⟨r, (hread r).mpr ⟨rfl, rfl, hlast⟩, rfl⟩

theorem latestDate_eq_some_iff {X : Exchange} (h : WellFormed lake) (hname : X.names symbol) :
    latestDate X.engine lake symbol = some d ↔
      bar lake symbol d ≠ none ∧ ∀ e, bar lake symbol e ≠ none → e ≤ d := by
  rw [latestDate, List.max?_eq_some_iff, mem_dates h hname]
  exact and_congr_right fun _ ↦ forall_congr' fun e ↦ imp_congr_left (mem_dates h hname)

theorem latestDate_eq_none_iff {X : Exchange} (h : WellFormed lake) (hname : X.names symbol) :
    latestDate X.engine lake symbol = none ↔ ∀ d, bar lake symbol d = none := by
  rw [latestDate, List.max?_eq_none_iff, List.eq_nil_iff_forall_not_mem]
  exact forall_congr' fun d ↦ (not_congr (mem_dates h hname)).trans not_not

theorem latestDate_congr {X : Exchange} (h : WellFormed lake) (h' : WellFormed lake')
    (hname : X.names symbol) (hbar : ∀ d, bar lake symbol d = bar lake' symbol d) :
    latestDate X.engine lake symbol = latestDate X.engine lake' symbol := by
  refine Option.ext fun d ↦ ?_
  rw [latestDate_eq_some_iff h hname, latestDate_eq_some_iff h' hname]
  simp only [hbar]

end DataLake

open DataLake

namespace IngestionRun

variable {X : Exchange} {run : IngestionRun} {lake lake' : DailyLake} {symbol symbol' : String}
  {d : ℤ}

theorem mem_candles {start : ℤ} {r : Row ℤ Ohlcv} : r ∈ run.candles X symbol start ↔
    r.symbol = symbol ∧ (start ≤ r.time ∧ r.time ≤ run.today) ∧
      run.answered X symbol r.time = some r.values := by
  have hrange (e : ℤ) : start ≤ e ∧ e < start + (run.today + 1 - start).toNat ↔
      start ≤ e ∧ e ≤ run.today := by omega
  simp only [candles, List.mem_filterMap, Option.map_eq_some_iff, mem_daysFrom, hrange]
  constructor
  · rintro ⟨e, he, b, hb, rfl⟩
    exact ⟨rfl, he, hb⟩
  · rintro ⟨rfl, he, hb⟩
    exact ⟨r.time, he, r.values, hb, rfl⟩

theorem nodup_candles {start : ℤ} : ((run.candles X symbol start).map Row.key).Nodup := by
  refine List.pairwise_map.mpr (List.pairwise_filterMap.mpr ?_)
  refine (pairwise_daysFrom start _).imp fun hlt r hr r' hr' hkey ↦ ?_
  obtain ⟨b, -, rfl⟩ := Option.map_eq_some_iff.mp hr
  obtain ⟨b', -, rfl⟩ := Option.map_eq_some_iff.mp hr'
  exact hlt.ne (Prod.mk.inj hkey).2

theorem lastOf_candles {start : ℤ} :
    (lastOf Row.key (run.candles X symbol start) (symbol', d)).map Row.values =
      if symbol' = symbol ∧ start ≤ d ∧ d ≤ run.today then run.answered X symbol d else none := by
  refine Option.ext fun b ↦ ?_
  rw [Option.map_eq_some_iff]
  simp only [lastOf_eq_some_iff_of_nodup nodup_candles, mem_candles, Option.ite_none_right_eq_some]
  constructor
  · rintro ⟨r, ⟨⟨rfl, hrange, hb⟩, hkey⟩, rfl⟩
    obtain ⟨rfl, rfl⟩ := Prod.mk.inj hkey
    exact ⟨⟨rfl, hrange⟩, hb⟩
  · rintro ⟨⟨rfl, hrange⟩, hb⟩
    exact ⟨⟨symbol', d, b⟩, ⟨⟨rfl, hrange, hb⟩, rfl⟩, rfl⟩

theorem answered_eq_none (h : run.answer symbol = none) (d : ℤ) : run.answered X symbol d = none := by
  rw [answered, h]

/-- What the answer to a symbol adds. -/
theorem ingestSymbol_spec (h : WellFormed lake) : WellFormed (run.ingestSymbol X lake symbol) ∧
    ∀ symbol' d, bar (run.ingestSymbol X lake symbol) symbol' d =
      (if symbol' = symbol ∧ run.resolves X symbol ∧
          run.startOf (latestDate X.engine lake symbol) ≤ d ∧ d ≤ run.today then
        run.answered X symbol d else none).or (bar lake symbol' d) := by
  simp only [ingestSymbol]
  split_ifs with hresolves hstart hanswer
  · refine ⟨h, fun symbol' d ↦ ?_⟩
    rw [if_neg, Option.none_or]
    omega
  · refine ⟨h, fun symbol' d ↦ ?_⟩
    rw [answered_eq_none hanswer, ite_self, Option.none_or]
  · obtain ⟨hwell, hbar⟩ := write_spec h nodup_candles
    refine ⟨hwell, fun symbol' d ↦ ?_⟩
    rw [hbar, lastOf_candles]
    simp only [hresolves, true_and]
  · refine ⟨h, fun symbol' d ↦ ?_⟩
    simp [hresolves]

theorem ingestSymbol_congr (h : WellFormed lake) (h' : WellFormed lake')
    (hbar : ∀ d, bar lake symbol d = bar lake' symbol d) (d : ℤ) :
    bar (run.ingestSymbol X lake symbol) symbol d =
      bar (run.ingestSymbol X lake' symbol) symbol d := by
  rw [(ingestSymbol_spec h).2, (ingestSymbol_spec h').2, hbar]
  by_cases hresolves : run.resolves X symbol
  · have hname : X.names symbol := (Bool.and_eq_true_iff.mp hresolves).1
    rw [latestDate_congr h h' hname hbar]
  · simp [hresolves]

/-- Symbols do not meet: a run does to each of its own what it would do to it alone. -/
theorem ingestSymbols_spec {symbols : List String} (hsymbols : symbols.Nodup)
    (h : WellFormed lake) : WellFormed (symbols.foldl (run.ingestSymbol X) lake) ∧
      ∀ symbol d, bar (symbols.foldl (run.ingestSymbol X) lake) symbol d =
        if symbol ∈ symbols then bar (run.ingestSymbol X lake symbol) symbol d
        else bar lake symbol d := by
  induction symbols generalizing lake with
  | nil => exact ⟨h, fun _ _ ↦ rfl⟩
  | cons first symbols ih =>
    obtain ⟨hfirst, hsymbols⟩ := List.nodup_cons.mp hsymbols
    obtain ⟨hwell, hbar⟩ := ingestSymbol_spec h (X := X)
    obtain ⟨hwell', hbar'⟩ := ih hsymbols hwell
    refine ⟨hwell', fun symbol d ↦ ?_⟩
    rw [List.foldl_cons, hbar']
    by_cases hsymbol : symbol = first
    · subst hsymbol
      simp [hfirst]
    · have hsame (e : ℤ) : bar (run.ingestSymbol X lake first) symbol e = bar lake symbol e := by
        rw [hbar]
        simp [hsymbol]
      simp only [List.mem_cons, hsymbol, false_or, hsame]
      rw [ingestSymbol_congr hwell h hsame]

end IngestionRun

open IngestionRun

variable {X : Exchange} {run last : IngestionRun} {lake s t : DailyLake} {symbol : String} {d : ℤ}

/-- The symbols a run asks the providers for. -/
def fetches (X : Exchange) (lake : DailyLake) (run : IngestionRun) (symbol : String) : Bool :=
  symbol ∈ targetSymbols lake run.universes ∧ run.resolves X symbol

theorem run_spec (h : WellFormed lake) : WellFormed (runIncrementalIngestion X lake run) ∧
    ∀ symbol d, bar (runIncrementalIngestion X lake run) symbol d =
      (if fetches X lake run symbol ∧
          run.startOf (latestDate X.engine lake symbol) ≤ d ∧ d ≤ run.today then
        run.answered X symbol d else none).or (bar lake symbol d) := by
  have hnodup : (targetSymbols lake run.universes).Nodup :=
    (List.perm_insertionSort _ _).nodup_iff.mpr (List.nodup_dedup _)
  obtain ⟨hwell, hbar⟩ :
      WellFormed ((targetSymbols lake run.universes).foldl (run.ingestSymbol X) lake) ∧ _ :=
    ingestSymbols_spec hnodup h
  refine ⟨hwell, fun symbol d ↦ ?_⟩
  rw [runIncrementalIngestion, hbar, (ingestSymbol_spec h).2]
  split
  · next hsymbol => simp [fetches, hsymbol]
  · next hsymbol => simp [fetches, hsymbol]

/-- Every call of the run succeeds and misses nothing. -/
def IngestionRun.Complete (run : IngestionRun) : Prop :=
  ∀ symbol, run.answer symbol = some fun _ ↦ false

/-- The days before a run that a backfill asks for. -/
def IngestionRun.Covers (run : IngestionRun) (d : ℤ) : Prop :=
  run.today - initialBackfillDays ≤ d ∧ d < run.today

/-- The lake a run would fill from nothing. -/
def backfill (X : Exchange) (lake : DailyLake) (run : IngestionRun) : DailyLake :=
  (targetSymbols lake run.universes).foldl (run.ingestSymbol X) Lake.empty

def Converges (X : Exchange) (last : IngestionRun) (lake : DailyLake) : Prop :=
  ∀ symbol, fetches X lake last symbol → ∀ d, last.Covers d →
    bar (runIncrementalIngestion X lake last) symbol d = bar (backfill X lake last) symbol d

/-- Up to the newest stored day the lake has the final bars. -/
def Settled (X : Exchange) (last : IngestionRun) (lake : DailyLake) : Prop :=
  ∀ symbol, last.resolves X symbol → ∀ d e, last.Covers d → d ≤ e → bar lake symbol e ≠ none →
    bar lake symbol d = X.final symbol d

/-- A run stores no bar but the final ones, and none after a day that it misses. -/
def StoresFinal (X : Exchange) (last : IngestionRun) (lake : DailyLake) (run : IngestionRun)
    (_ : DailyLake) : Prop :=
  ∀ symbol, last.resolves X symbol → fetches X lake run symbol → ∀ d e, last.Covers d →
    run.startOf (latestDate X.engine lake symbol) ≤ d → d ≤ e → e ≤ run.today →
      run.answered X symbol e ≠ none → run.answered X symbol d = X.final symbol d

def ingestionStep (X : Exchange) (lastDay : ℤ) (lake : DailyLake) (run : IngestionRun) :
    Option DailyLake :=
  if run.today ≤ lastDay then some (runIncrementalIngestion X lake run) else none

theorem wellFormed_empty : WellFormed Lake.empty := ⟨[], .init⟩

theorem bar_empty : bar Lake.empty symbol d = none := rfl

theorem bar_eq_none_of_start_le (h : WellFormed lake) (hname : X.names symbol)
    (hstart : run.startOf (latestDate X.engine lake symbol) ≤ d) : bar lake symbol d = none := by
  by_contra hbar
  cases hlatest : latestDate X.engine lake symbol with
  | none => exact hbar ((latestDate_eq_none_iff h hname).mp hlatest d)
  | some latest =>
    have hle := ((latestDate_eq_some_iff h hname).mp hlatest).2 d hbar
    rw [hlatest, startOf] at hstart
    omega

theorem answered_of_complete (h : last.Complete) (hd : last.Covers d) :
    last.answered X symbol d = X.final symbol d := by
  rw [answered, h symbol]
  simp [barOf, hd.2.ne]

theorem bar_backfill (h : last.Complete) (hfetches : fetches X lake last symbol)
    (hd : last.Covers d) : bar (backfill X lake last) symbol d = X.final symbol d := by
  obtain ⟨hsymbol, hresolves⟩ := of_decide_eq_true hfetches
  have hnodup : (targetSymbols lake last.universes).Nodup :=
    (List.perm_insertionSort _ _).nodup_iff.mpr (List.nodup_dedup _)
  have hlatest : latestDate X.engine Lake.empty symbol = none :=
    (latestDate_eq_none_iff wellFormed_empty (Bool.and_eq_true_iff.mp hresolves).1).mpr
      fun _ ↦ bar_empty
  rw [backfill, (ingestSymbols_spec hnodup wellFormed_empty).2, if_pos hsymbol,
    (ingestSymbol_spec wellFormed_empty).2, hlatest, if_pos ⟨rfl, hresolves, hd.1, hd.2.le⟩,
    answered_of_complete h hd, bar_empty, Option.or_none]

theorem converges_iff_settled (hlast : last.Complete) (h : WellFormed lake) :
    Converges X last lake ↔ Settled X last lake := by
  constructor
  · intro hconv symbol hresolves d e hd hle he
    have hname : X.names symbol := (Bool.and_eq_true_iff.mp hresolves).1
    have hfetches : fetches X lake last symbol := by
      simp [fetches, targetSymbols, mem_listSymbols he, hresolves]
    have hbar := hconv symbol hfetches d hd
    rw [bar_backfill hlast hfetches hd, (run_spec h).2, if_neg, Option.none_or] at hbar
    · exact hbar
    · rintro ⟨-, hstart, -⟩
      exact he (bar_eq_none_of_start_le h hname (hstart.trans hle))
  · intro hsettled symbol hfetches d hd
    obtain ⟨-, hresolves⟩ := of_decide_eq_true hfetches
    have hname : X.names symbol := (Bool.and_eq_true_iff.mp hresolves).1
    rw [bar_backfill hlast hfetches hd, (run_spec h).2]
    split
    · next hstart =>
      rw [answered_of_complete hlast hd, bar_eq_none_of_start_le h hname hstart.2.1,
        Option.or_none]
    · next hstart =>
      have hbefore : d < last.startOf (latestDate X.engine lake symbol) := by
        by_contra hge
        exact hstart ⟨hfetches, not_lt.mp hge, hd.2.le⟩
      cases hlatest : latestDate X.engine lake symbol with
      | none =>
        rw [hlatest] at hbefore
        exact absurd hd.1 hbefore.not_ge
      | some latest =>
        rw [hlatest, startOf] at hbefore
        rw [Option.none_or]
        exact hsettled symbol hresolves d latest hd (by omega)
          ((latestDate_eq_some_iff h hname).mp hlatest).1

theorem settled_step_iff {next : DailyLake} (h : WellFormed lake)
    (hstep : ingestionStep X last.today lake run = some next) :
    Settled X last next ↔ Settled X last lake ∧ StoresFinal X last lake run next := by
  simp only [ingestionStep, Option.ite_none_right_eq_some, Option.some.injEq] at hstep
  obtain ⟨htoday, rfl⟩ := hstep
  have hbar : ∀ symbol d, bar (runIncrementalIngestion X lake run) symbol d = _ := (run_spec h).2
  constructor
  · intro hnext
    refine ⟨fun symbol hresolves d e hd hle he ↦ ?_,
      fun symbol hresolves hfetches d e hd hstart hle hend he ↦ ?_⟩
    · have hname : X.names symbol := (Bool.and_eq_true_iff.mp hresolves).1
      -- neither day is asked for again
      have hsame (c : ℤ) (hc : c ≤ e) :
          bar (runIncrementalIngestion X lake run) symbol c = bar lake symbol c := by
        rw [hbar, if_neg, Option.none_or]
        rintro ⟨-, hstart, -⟩
        exact he (bar_eq_none_of_start_le h hname (hstart.trans hc))
      rw [← hsame d hle]
      exact hnext symbol hresolves d e hd hle (by rwa [hsame e le_rfl])
    · have hname : X.names symbol := (Bool.and_eq_true_iff.mp hresolves).1
      have hasked (c : ℤ) (hc : run.startOf (latestDate X.engine lake symbol) ≤ c)
          (hc' : c ≤ run.today) :
          bar (runIncrementalIngestion X lake run) symbol c = run.answered X symbol c := by
        rw [hbar, if_pos ⟨hfetches, hc, hc'⟩, bar_eq_none_of_start_le h hname hc, Option.or_none]
      rw [← hasked d hstart (hle.trans hend)]
      exact hnext symbol hresolves d e hd hle (by rwa [hasked e (hstart.trans hle) hend])
  · rintro ⟨hlake, hrun⟩ symbol hresolves d e hd hle he
    have hname : X.names symbol := (Bool.and_eq_true_iff.mp hresolves).1
    rw [hbar] at he ⊢
    by_cases hd' : run.startOf (latestDate X.engine lake symbol) ≤ d
    · have hnone := bar_eq_none_of_start_le h hname (hd'.trans hle)
      have hasked : fetches X lake run symbol ∧
          run.startOf (latestDate X.engine lake symbol) ≤ e ∧ e ≤ run.today := by
        by_contra hasked
        rw [if_neg hasked, hnone] at he
        exact he rfl
      rw [if_pos hasked, hnone, Option.or_none] at he
      rw [if_pos ⟨hasked.1, hd', hle.trans hasked.2.2⟩, bar_eq_none_of_start_le h hname hd',
        Option.or_none]
      exact hrun symbol hresolves hasked.1 d e hd hd' hle hasked.2.2 he
    · rw [if_neg (fun hasked ↦ hd' hasked.2.1), Option.none_or]
      cases hlatest : latestDate X.engine lake symbol with
      | none =>
        rw [hlatest] at hd'
        have hcovers := hd.1
        simp only [startOf] at hd'
        omega
      | some latest =>
        rw [hlatest, startOf] at hd'
        exact hlake symbol hresolves d latest hd (by omega)
          ((latestDate_eq_some_iff h hname).mp hlatest).1

/-- After any runs, a run whose calls all succeed completely leaves on each day before it what a
backfill would store, exactly if no earlier run stored a bar of its own day that was not final, nor
one of a day after another that it missed. -/
theorem converges_iff (hlast : last.Complete) {runs : List IngestionRun}
    (h : Run (ingestionStep X last.today) Lake.empty runs lake) : Converges X last lake ↔
      Along (ingestionStep X last.today) (StoresFinal X last) Lake.empty runs := by
  have hkeep (s : DailyLake) (run : IngestionRun) (t : DailyLake) (hs : WellFormed s)
      (hstep : ingestionStep X last.today s run = some t) : WellFormed t := by
    simp only [ingestionStep, Option.ite_none_right_eq_some, Option.some.injEq] at hstep
    obtain ⟨-, rfl⟩ := hstep
    exact (run_spec hs).1
  rw [converges_iff_settled hlast (h.invariant hkeep wellFormed_empty),
    h.iff_and_along hkeep (fun s run t hs hstep ↦ settled_step_iff hs hstep) wellFormed_empty]
  exact and_iff_right fun _ _ _ e _ _ he ↦ absurd bar_empty he

namespace Reliance

/-- One instrument with a bar on Thursday and one on Friday, the days 19999 and 20000. -/
def exchange : Exchange where
  engine := ⟨.insertion _, .insertion _, fun symbol name ↦ symbol = name⟩
  names _ := true
  glob_iff _ _ _ := decide_eq_true_iff.trans eq_comm
  final symbol d :=
    if symbol = "RELIANCE" then
      if d = 19999 then some ⟨2580, 2610, 2575, 2600, 4000⟩
      else if d = 20000 then some ⟨2600, 2660, 2590, 2650, 5000⟩
      else none
    else none

def duringFriday (missed : ℤ → Bool) : IngestionRun where
  today := 20000
  universes := ["RELIANCE"]
  isActive _ := true
  todayBar symbol := if symbol = "RELIANCE" then some ⟨2600, 2620, 2590, 2610, 1200⟩ else none
  answer _ := some missed

def monday : IngestionRun where
  today := 20003
  universes := ["RELIANCE"]
  isActive _ := true
  todayBar _ := none
  answer _ := some fun _ ↦ false

theorem run_duringFriday (missed : ℤ → Bool) :
    Run (ingestionStep exchange monday.today) Lake.empty [duringFriday missed]
      (runIncrementalIngestion exchange Lake.empty (duringFriday missed)) :=
  .cons (if_pos (by simp [duringFriday, monday])) (.nil _)

/-- An answer without the open day leaves it to the next run. -/
theorem friday_refetched :
    Converges exchange monday
      (runIncrementalIngestion exchange Lake.empty (duringFriday (· = 20000))) := by
  refine (converges_iff (fun _ ↦ rfl) (run_duringFriday _)).mpr ⟨?_, trivial⟩
  intro symbol _ _ d e _ _ hle hend he
  have hbefore : e ≠ 20000 := by
    rintro rfl
    exact he rfl
  simp only [duringFriday] at hend
  have hd : d ≠ 20000 := by omega
  simp [answered, barOf, duringFriday, hd]

/-- The bar of half a session stays. -/
theorem friday_unfinished :
    monday.Complete ∧
      Run (ingestionStep exchange monday.today) Lake.empty [duringFriday fun _ ↦ false]
        (runIncrementalIngestion exchange Lake.empty (duringFriday fun _ ↦ false)) ∧
      ¬ Converges exchange monday
        (runIncrementalIngestion exchange Lake.empty (duringFriday fun _ ↦ false)) := by
  refine ⟨fun _ ↦ rfl, run_duringFriday _, fun hconv ↦ ?_⟩
  have hwell : WellFormed
      (runIncrementalIngestion exchange Lake.empty (duringFriday fun _ ↦ false)) :=
    (run_spec wellFormed_empty).1
  have hbar : bar (runIncrementalIngestion exchange Lake.empty (duringFriday fun _ ↦ false))
      "RELIANCE" 20000 = some ⟨2600, 2620, 2590, 2610, 1200⟩ := by
    rw [(run_spec wellFormed_empty).2, if_pos (by decide)]
    rfl
  have hfinal := (converges_iff_settled (fun _ ↦ rfl) hwell).mp hconv "RELIANCE" rfl 20000 20000
    ⟨by decide, by decide⟩ le_rfl (by simp [hbar])
  rw [hbar] at hfinal
  revert hfinal
  decide

end Reliance

end TradingOS.Data
