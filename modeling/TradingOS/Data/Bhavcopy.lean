import Mathlib.Data.Rat.Floor
import TradingOS.Data.MarketData
import TradingOS.Lib.Runs
import TradingOS.Lib.Words

namespace TradingOS.Data

open Lib Lib.Runs

inductive OptionType
  | CE
  | PE
  deriving DecidableEq

structure FoContract where
  underlying : String
  expiry : ℤ
  optionType : Option OptionType
  strike : Option ℚ
  deriving DecidableEq

/-- The cells of a row that are read, as `_num` reads them. -/
structure FoRow where
  openPrice : ℚ
  high : ℚ
  low : ℚ
  close : ℚ
  settle : ℚ
  volume : ℚ
  openInterest : ℚ
  deriving DecidableEq

namespace FoRow

/-- `_ohlc_is_real`. -/
def ohlcIsReal (row : FoRow) : Bool :=
  0 < min (min row.openPrice row.high) (min row.low row.close) ∧
    row.low ≤ row.high ∧ row.openPrice ≤ row.high ∧ row.close ≤ row.high ∧
    row.low ≤ row.openPrice ∧ row.low ≤ row.close

def yieldsACandle (row : FoRow) : Bool := row.ohlcIsReal || 0 < row.settle

/-- `int` of a number: the part after the point is dropped. -/
def truncate (q : ℚ) : ℤ := if 0 ≤ q then ⌊q⌋ else ⌈q⌉

/-- `_to_candle`: a day without trades is a flat bar at its settlement price. -/
def toCandle (row : FoRow) (day : ℤ) (instrumentKey symbol : String) : Candle where
  timestamp := .midnight day
  openPrice := if row.ohlcIsReal then row.openPrice else row.settle
  high := if row.ohlcIsReal then row.high else row.settle
  low := if row.ohlcIsReal then row.low else row.settle
  close := if row.ohlcIsReal then row.close else row.settle
  volume := if row.ohlcIsReal then truncate row.volume else 0
  openInterest := some (truncate row.openInterest)
  instrumentKey := instrumentKey
  symbol := symbol
  timeframe := .oneDay
  provider := "nse_fo_bhavcopy"

end FoRow

/-- The readers of text: `parse_fo_symbol`, and `_read_csv` with `_match_contract`, which gives the
rows of a contract in the layout before or after the day the layout changed. -/
structure FoReader where
  parseFoSymbol : String → Option FoContract
  matchContract : (text : String) → FoContract → (legacy : Bool) → Except Raised (List FoRow)

/-- What NSE serves for a day once its file is out. -/
inductive DayFile
  | notAZip
  | emptyZip
  | csv (text : String)

/-- The archive over time: a day without a file is answered with 404. -/
structure Archive where
  file : ℤ → DayFile
  isOut : (day time : ℤ) → Bool
  stays_out : ∀ {day time time'}, time ≤ time' → isOut day time → isOut day time'

structure FoRequest where
  instrumentKey : String
  symbol : String
  start : ℤ
  stop : ℤ
  timeframe : Timeframe
  time : ℤ
  /-- The days whose task had started when an earlier day raised. -/
  started : ℤ → Bool

namespace NseFoBhavcopy

/-- The files under `_cache_dir` by their day, line ends aside. -/
abbrev Cache := ℤ → Option String

def Cache.empty : Cache := fun _ ↦ none

def Cache.write (cache : Cache) (day : ℤ) (text : String) : Cache :=
  fun day' ↦ if day' = day then some text else cache day'

/-- `not text.strip()`. -/
def isBlank (text : String) : Bool := text.toList.all isSpace

def udiffStart : ℤ := 19912

def maxContractLookbackDays : ℤ := 400

variable (reader : FoReader) (archive : Archive) (time : ℤ)

/-- `_load_day`. -/
def loadDay (cache : Cache) (day : ℤ) : Cache × Except Raised (Option String) :=
  match cache day with
  | some text => (cache, .ok (if isBlank text then none else some text))
  | none =>
    if archive.isOut day time then
      match archive.file day with
      | .notAZip => (cache, .error (.provider .invalidData))
      | .emptyZip => (cache, .error (.provider .invalidData))
      | .csv text => (cache.write day text, .ok (some text))
    else (cache.write day "", .ok none)

/-- `_row_for_day`. -/
def rowForDay (contract : FoContract) (cache : Cache) (day : ℤ) :
    Cache × Except Raised (Option FoRow) :=
  let loaded := loadDay archive time cache day
  (loaded.1, do
    match ← loaded.2 with
    | none => return none
    | some text =>
      let candidates ← reader.matchContract text contract (day < udiffStart)
      return candidates.find? FoRow.yieldsACandle)

/-- `_rows_for_days`: the first day that raises ends it, though later days may be loaded too. The
error is kept with the day it is of. -/
def rowsForDays (contract : FoContract) (started : ℤ → Bool) (cache : Cache) :
    List ℤ → Cache × Except (ℤ × Raised) (List (ℤ × FoRow))
  | [] => (cache, .ok [])
  | day :: days =>
    let first := rowForDay reader archive time contract cache day
    match first.2 with
    | .error raised =>
      ((days.filter started).foldl (fun cache day ↦ (loadDay archive time cache day).1) first.1,
        .error (day, raised))
    | .ok row =>
      let rest := rowsForDays contract started first.1 days
      (rest.1, rest.2.map (((row.map (day, ·)).toList) ++ ·))

/-- The days that are scanned: trading days in the window and the contract's life. -/
def scanDays (contract : FoContract) (start stop : ℤ) : List ℤ :=
  tradingDaysBetween (max start (contract.expiry - maxContractLookbackDays))
    (min stop (contract.expiry + 2))

def candleOf (request : FoRequest) (row : ℤ × FoRow) : Candle :=
  row.2.toCandle row.1 request.instrumentKey request.symbol

variable (request : FoRequest)

/-- The candles of the rows, or `ProviderEmptyDataError` if there are none. -/
def answer (rows : Except (ℤ × Raised) (List (ℤ × FoRow))) :
    Except (Option ℤ × Raised) (List Candle) :=
  match rows with
  | .error (day, raised) => .error (some day, raised)
  | .ok [] => .error (none, .provider .emptyData)
  | .ok rows => .ok (rows.map (candleOf request))

def getHistoricalData (cache : Cache) : Cache × Except (Option ℤ × Raised) (List Candle) :=
  if request.timeframe ≠ .oneDay then (cache, .error (none, .provider .unsupportedInterval))
  else
    match reader.parseFoSymbol request.symbol with
    | none => (cache, .error (none, .provider .instrumentNotFound))
    | some contract =>
      let rows := rowsForDays reader archive request.time contract request.started cache
        (scanDays contract request.start request.stop)
      (rows.1, answer request rows.2)

section Collect

variable {ε γ : Type} {f g : ℤ → Except ε (Option γ)} {dayOf : γ → ℤ}

/-- What the days give in their order, or the first error with its day. -/
def collect (f : ℤ → Except ε (Option γ)) : List ℤ → Except (ℤ × ε) (List γ)
  | [] => .ok []
  | day :: days =>
    match f day with
    | .error raised => .error (day, raised)
    | .ok item => (collect f days).map (item.toList ++ ·)

/-- The first of the days that raises. -/
structure RaisesFirst (f : ℤ → Except ε (Option γ)) (days : List ℤ) (day : ℤ) (raised : ε) :
    Prop where
  mem : day ∈ days
  raises : f day = .error raised
  first : ∀ d ∈ days, d < day → ∀ e, f d ≠ .error e

variable {day : ℤ} {days : List ℤ} {raised : ε} {item : Option γ}

theorem raisesFirst_cons_of_error (h : f day = .error raised) (hlater : ∀ d ∈ days, day < d)
    {d : ℤ} {e : ε} : RaisesFirst f (day :: days) d e ↔ d = day ∧ e = raised := by
  constructor
  · rintro ⟨hmem, hraises, hfirst⟩
    rcases List.mem_cons.mp hmem with rfl | hd
    · exact ⟨rfl, (Except.error.inj (h.symm.trans hraises)).symm⟩
    · exact absurd h (hfirst day List.mem_cons_self (hlater d hd) raised)
  · rintro ⟨rfl, rfl⟩
    refine ⟨List.mem_cons_self, h, fun d' hd' hlt ↦ ?_⟩
    rcases List.mem_cons.mp hd' with rfl | hd'
    · exact absurd hlt (lt_irrefl _)
    · exact absurd hlt (hlater d' hd').not_gt

theorem raisesFirst_cons_of_ok (h : f day = .ok item) {d : ℤ} {e : ε} :
    RaisesFirst f (day :: days) d e ↔ RaisesFirst f days d e := by
  constructor
  · rintro ⟨hmem, hraises, hfirst⟩
    refine ⟨?_, hraises, fun d' hd' ↦ hfirst d' (List.mem_cons_of_mem _ hd')⟩
    rcases List.mem_cons.mp hmem with rfl | hd
    · rw [h] at hraises
      cases hraises
    · exact hd
  · rintro ⟨hmem, hraises, hfirst⟩
    refine ⟨List.mem_cons_of_mem _ hmem, hraises, fun d' hd' hlt e' ↦ ?_⟩
    rcases List.mem_cons.mp hd' with rfl | hd'
    · rw [h]
      exact nofun
    · exact hfirst d' hd' hlt e'

theorem collect_eq_error_iff (hdays : days.Pairwise (· < ·)) :
    collect f days = .error (day, raised) ↔ RaisesFirst f days day raised := by
  induction days with
  | nil => exact iff_of_false nofun fun h ↦ by cases h.mem
  | cons first days ih =>
    obtain ⟨hlater, hdays⟩ := List.pairwise_cons.mp hdays
    rw [collect]
    cases hfirst : f first with
    | error e =>
      rw [raisesFirst_cons_of_error hfirst hlater]
      simp [eq_comm]
    | ok item =>
      rw [raisesFirst_cons_of_ok hfirst, ← ih hdays]
      cases collect f days <;> simp [Except.map]

theorem map_append_eq_iff {x y : Except (ℤ × ε) (List γ)} {items : List γ} :
    x.map (items ++ ·) = y.map (items ++ ·) ↔ x = y := by
  cases x <;> cases y <;> simp [Except.map]

theorem dayOf_mem {items : List γ} (hday : ∀ d c, f d = .ok (some c) → dayOf c = d)
    (h : collect f days = .ok items) : ∀ c ∈ items, dayOf c ∈ days := by
  induction days generalizing items with
  | nil =>
    cases h
    exact nofun
  | cons first days ih =>
    rw [collect] at h
    cases hfirst : f first with
    | error e =>
      rw [hfirst] at h
      cases h
    | ok item =>
      rw [hfirst] at h
      cases hrest : collect f days with
      | error e =>
        rw [hrest] at h
        cases h
      | ok rest =>
        rw [hrest] at h
        obtain rfl := Except.ok.inj h
        intro c hc
        rcases List.mem_append.mp hc with hc | hc
        · rw [Option.mem_toList] at hc
          rw [hday first c (hfirst.trans (congrArg _ hc))]
          exact List.mem_cons_self
        · exact List.mem_cons_of_mem _ (ih hrest c hc)

theorem left_out_eq_iff {first : ℤ} {c : γ} (hf : f first = .ok none)
    (hg : g first = .ok (some c)) (hfirst : first ∉ days) (hc : dayOf c = first)
    (hday : ∀ d c, f d = .ok (some c) → dayOf c = d) :
    collect f (first :: days) = collect g (first :: days) ↔
      ∃ d e, collect f days = .error (d, e) ∧ collect g days = .error (d, e) := by
  simp only [collect, hf, hg]
  cases hfrest : collect f days with
  | error x =>
    cases collect g days with
    | error y =>
      obtain ⟨d, e⟩ := y
      simp only [Except.map, Except.error.injEq]
      constructor
      · rintro rfl
        exact ⟨d, e, rfl, rfl⟩
      · rintro ⟨d', e', rfl, hy⟩
        exact hy.symm
    | ok items => simp [Except.map]
  | ok items =>
    cases hgrest : collect g days with
    | error x => simp [Except.map]
    | ok items' =>
      simp only [Except.map, Option.toList_none, Option.toList_some, List.nil_append,
        List.singleton_append, Except.ok.injEq, reduceCtorEq, false_and, exists_false, iff_false]
      rintro rfl
      exact hfirst (hc ▸ dayOf_mem hday hfrest c List.mem_cons_self)

/-- When `f` is `g` but for days left out, both give the same exactly if no day is left out, or
they raise for the same day. -/
theorem collect_eq_iff (hday : ∀ d c, g d = .ok (some c) → dayOf c = d)
    (h : ∀ d, f d = g d ∨ f d = .ok none) (hdays : days.Pairwise (· < ·)) :
    collect f days = collect g days ↔
      (∀ d ∈ days, f d = g d) ∨ ∃ d e, RaisesFirst g days d e ∧ f d = g d := by
  induction days with
  | nil => exact iff_of_true rfl (.inl nofun)
  | cons first days ih =>
    obtain ⟨hlater, hdays'⟩ := List.pairwise_cons.mp hdays
    specialize ih hdays'
    cases hg : g first with
    | error e =>
      simp only [raisesFirst_cons_of_error hg hlater, List.forall_mem_cons]
      rcases h first with hf | hf
      · rw [hg] at hf
        simp [collect, hf, hg]
      · have hne : f first ≠ g first := by simp [hf, hg]
        have hleft : collect f (first :: days) ≠ collect g (first :: days) := by
          rw [collect, collect, hf, hg]
          intro heq
          cases hrest : collect f days with
          | ok items => simp [hrest, Except.map] at heq
          | error x =>
            simp only [hrest, Except.map, Except.error.injEq] at heq
            subst heq
            have hmem : first ∈ days := ((collect_eq_error_iff hdays').mp hrest).mem
            exact (hlater first hmem).false
        simp [hleft, hne]
    | ok item =>
      simp only [raisesFirst_cons_of_ok hg, List.forall_mem_cons]
      by_cases hsame : f first = g first
      · rw [collect, collect, hsame, hg]
        simp only [map_append_eq_iff, true_and]
        exact ih
      · have hf : f first = .ok none := (h first).resolve_left hsame
        cases item with
        | none => exact absurd (hf.trans hg.symm) hsame
        | some c =>
          have hdayf (d : ℤ) (c : γ) (hfd : f d = .ok (some c)) : dayOf c = d := by
            rcases h d with he | he
            · exact hday d c (he.symm.trans hfd)
            · simp [he] at hfd
          rw [left_out_eq_iff hf hg (fun hmem ↦ (hlater first hmem).false) (hday first c hg) hdayf]
          simp only [hsame, false_and, false_or]
          constructor
          · rintro ⟨d, e, hfe, hge⟩
            have hraises := (collect_eq_error_iff hdays').mp hge
            rcases ih.mp (hfe.trans hge.symm) with hall | hsame
            · exact ⟨d, e, hraises, hall d hraises.mem⟩
            · exact hsame
          · rintro ⟨d, e, hraises, hsame⟩
            have hge := (collect_eq_error_iff hdays').mpr hraises
            exact ⟨d, e, (ih.mpr (.inr ⟨d, e, hraises, hsame⟩)).trans hge, hge⟩

end Collect

section Rows

variable {reader : FoReader} {archive : Archive} {time time' : ℤ} {contract : FoContract}
  {cache cache' : Cache} {day day' : ℤ} {days : List ℤ} {started : ℤ → Bool} {request : FoRequest}

/-- The cache has markers, and files as the archive has them by now. -/
def Sound (archive : Archive) (time : ℤ) (cache : Cache) : Prop :=
  ∀ day text, cache day = some text →
    text = "" ∨ archive.isOut day time ∧ archive.file day = .csv text

theorem Sound.later (h : Sound archive time cache) (hle : time ≤ time') :
    Sound archive time' cache := by
  intro day text htext
  exact (h day text htext).imp_right fun hfile ↦ ⟨archive.stays_out hle hfile.1, hfile.2⟩

theorem Sound.empty : Sound archive time .empty := nofun

theorem Sound.write {text : String} (h : Sound archive time cache)
    (htext : text = "" ∨ archive.isOut day time ∧ archive.file day = .csv text) :
    Sound archive time (cache.write day text) := by
  intro d t ht
  simp only [Cache.write] at ht
  split at ht
  · next hd =>
    obtain rfl := Option.some.inj ht
    exact hd ▸ htext
  · exact h d t ht

theorem loadDay_of_ne (hne : day' ≠ day) : (loadDay archive time cache day).1 day' = cache day' := by
  simp only [loadDay]
  split
  · rfl
  · split
    · split <;> simp [Cache.write, hne]
    · simp [Cache.write, hne]

theorem Sound.loadDay (h : Sound archive time cache) (day : ℤ) :
    Sound archive time (loadDay archive time cache day).1 := by
  simp only [NseFoBhavcopy.loadDay]
  split
  · exact h
  · split
    · next hout =>
      split
      · exact h
      · exact h
      · next text hfile => exact h.write (.inr ⟨hout, hfile⟩)
    · exact h.write (.inl rfl)

theorem Sound.loadDays (h : Sound archive time cache) (days : List ℤ) : Sound archive time
    (days.foldl (fun cache day ↦ (NseFoBhavcopy.loadDay archive time cache day).1) cache) := by
  induction days generalizing cache with
  | nil => exact h
  | cons day days ih => exact ih (h.loadDay day)

theorem Sound.rowsForDays (h : Sound archive time cache) (days : List ℤ) :
    Sound archive time (rowsForDays reader archive time contract started cache days).1 := by
  induction days generalizing cache with
  | nil => exact h
  | cons day days ih =>
    simp only [NseFoBhavcopy.rowsForDays]
    split
    · exact (h.loadDay day).loadDays _
    · exact ih (h.loadDay day)

theorem Sound.getHistoricalData (h : Sound archive request.time cache) :
    Sound archive request.time (getHistoricalData reader archive request cache).1 := by
  simp only [NseFoBhavcopy.getHistoricalData]
  split
  · exact h
  · split
    · exact h
    · exact h.rowsForDays _

def rowOf (reader : FoReader) (archive : Archive) (time : ℤ) (contract : FoContract) (cache : Cache)
    (day : ℤ) : Except Raised (Option FoRow) := (rowForDay reader archive time contract cache day).2

theorem rowOf_congr (h : cache day = cache' day) :
    rowOf reader archive time contract cache day =
      rowOf reader archive time contract cache' day := by
  have hload : (loadDay archive time cache day).2 = (loadDay archive time cache' day).2 := by
    simp only [loadDay, h]
    split
    · rfl
    · split
      · split <;> rfl
      · rfl
  simp only [rowOf, rowForDay, hload]

theorem rowsForDays_eq_collect (hdays : days.Nodup) (h : ∀ d ∈ days, cache d = cache' d) :
    (rowsForDays reader archive time contract started cache days).2 =
      collect (fun d ↦ (rowOf reader archive time contract cache' d).map (·.map (d, ·))) days := by
  induction days generalizing cache with
  | nil => rfl
  | cons day days ih =>
    obtain ⟨hnotin, hdays⟩ := List.nodup_cons.mp hdays
    have hrow : rowOf reader archive time contract cache day =
        rowOf reader archive time contract cache' day := rowOf_congr (h day List.mem_cons_self)
    cases hfirst : (rowForDay reader archive time contract cache day).2 with
    | error raised =>
      have hfirst' := hrow.symm.trans hfirst
      simp only [rowsForDays, collect, hfirst, hfirst', Except.map]
    | ok row =>
      have hfirst' := hrow.symm.trans hfirst
      simp only [rowsForDays, collect, hfirst, hfirst', Except.map]
      rw [ih hdays fun d hd ↦ ?_]
      · rfl
      · have hne : d ≠ day := fun he ↦ hnotin (he ▸ hd)
        exact (loadDay_of_ne hne).trans (h d (List.mem_cons_of_mem _ hd))

theorem rowOf_cases (h : Sound archive time cache) (day : ℤ) :
    (cache day).any isBlank ∧ rowOf reader archive time contract cache day = .ok none ∨
      ¬ (cache day).any isBlank ∧ rowOf reader archive time contract cache day =
        rowOf reader archive time contract .empty day := by
  cases hcache : cache day with
  | none => exact .inr ⟨nofun, rowOf_congr hcache⟩
  | some text =>
    rw [Option.any_some]
    by_cases hblank : isBlank text
    · refine .inl ⟨hblank, ?_⟩
      simp only [rowOf, rowForDay, loadDay, hcache, hblank, if_true]
      rfl
    · refine .inr ⟨hblank, ?_⟩
      rcases h day text hcache with rfl | ⟨hout, hfile⟩
      · exact absurd rfl hblank
      · simp only [rowOf, rowForDay, loadDay, hcache, hblank, Cache.empty, hout, hfile, if_true,
          Bool.false_eq_true, if_false]

/-- The cache marks the day as one without a file, and the archive has something of the contract
for it by now. -/
def Overtaken (reader : FoReader) (archive : Archive) (time : ℤ) (contract : FoContract)
    (cache : Cache) (day : ℤ) : Prop :=
  (cache day).any isBlank ∧ rowOf reader archive time contract .empty day ≠ .ok none

theorem rowOf_eq_iff (h : Sound archive time cache) :
    rowOf reader archive time contract cache day = rowOf reader archive time contract .empty day ↔
      ¬ Overtaken reader archive time contract cache day := by
  have hcases : (cache day).any isBlank ∧ rowOf reader archive time contract cache day = .ok none ∨ _ :=
    rowOf_cases h day
  rcases hcases with ⟨hblank, hnone⟩ | ⟨hblank, hsame⟩
  · simp [Overtaken, hblank, hnone, eq_comm]
  · simp [Overtaken, hblank, hsame]

end Rows

section Answers

variable {reader : FoReader} {archive : Archive} {time : ℤ} {contract : FoContract}
  {cache : Cache} {days : List ℤ} {request : FoRequest}

theorem collect_map {ε γ δ : Type} (k : γ → δ) (f : ℤ → Except ε (Option γ)) (days : List ℤ) :
    (collect f days).map (List.map k) = collect (fun d ↦ (f d).map (Option.map k)) days := by
  induction days with
  | nil => rfl
  | cons day days ih =>
    cases hf : f day with
    | error e =>
      simp only [collect, hf]
      rfl
    | ok item =>
      have hright : collect (fun d ↦ (f d).map (Option.map k)) (day :: days) =
          (collect (fun d ↦ (f d).map (Option.map k)) days).map ((item.map k).toList ++ ·) := by
        simp only [collect, hf]
        rfl
      rw [hright, ← ih, collect, hf]
      cases collect f days <;> cases item <;> rfl

theorem answer_eq_iff {x y : Except (ℤ × Raised) (List (ℤ × FoRow))} :
    answer request x = answer request y ↔
      x.map (List.map (candleOf request)) = y.map (List.map (candleOf request)) := by
  rcases x with ⟨d, e⟩ | (_ | ⟨r, rows⟩) <;> rcases y with ⟨d', e'⟩ | (_ | ⟨r', rows'⟩) <;>
    simp [answer, Except.map]

/-- The candle of a day. -/
def candleFor (request : FoRequest) (f : ℤ → Except Raised (Option FoRow)) (day : ℤ) :
    Except Raised (Option Candle) :=
  ((f day).map (·.map (day, ·))).map (Option.map (candleOf request))

variable {f g : ℤ → Except Raised (Option FoRow)} {day : ℤ} {raised : Raised}

theorem date_of_candleFor {c : Candle} (h : candleFor request f day = .ok (some c)) :
    c.timestamp.date = day := by
  simp only [candleFor] at h
  cases hf : f day with
  | error e => simp [hf, Except.map] at h
  | ok row =>
    cases row with
    | none => simp [hf, Except.map] at h
    | some row =>
      simp only [hf, Except.map, Option.map_some, Except.ok.injEq, Option.some.injEq] at h
      rw [← h]
      exact Timestamp.date_midnight day

theorem candleFor_eq_error_iff : candleFor request f day = .error raised ↔ f day = .error raised := by
  cases hf : f day <;> simp [candleFor, hf, Except.map]

theorem candleFor_eq_iff (h : f day = g day ∨ f day = .ok none) :
    candleFor request f day = candleFor request g day ↔ f day = g day := by
  rcases h with h | h
  · simp [candleFor, h]
  · rcases hg : g day with e | (_ | row) <;> simp [candleFor, h, hg, Except.map]

theorem raisesFirst_candleFor_iff :
    RaisesFirst (candleFor request f) days day raised ↔ RaisesFirst f days day raised := by
  constructor
  · rintro ⟨hmem, hraises, hfirst⟩
    exact ⟨hmem, candleFor_eq_error_iff.mp hraises, fun d hd hlt e he ↦
      hfirst d hd hlt e (candleFor_eq_error_iff.mpr he)⟩
  · rintro ⟨hmem, hraises, hfirst⟩
    exact ⟨hmem, candleFor_eq_error_iff.mpr hraises, fun d hd hlt e he ↦
      hfirst d hd hlt e (candleFor_eq_error_iff.mp he)⟩

theorem answer_rows_eq_iff (h : Sound archive time cache) (hdays : days.Pairwise (· < ·))
    {started : ℤ → Bool} :
    answer request (rowsForDays reader archive time contract started cache days).2 =
        answer request (rowsForDays reader archive time contract started .empty days).2 ↔
      (∀ day ∈ days, ¬ Overtaken reader archive time contract cache day) ∨
        ∃ day raised, RaisesFirst (rowOf reader archive time contract .empty) days day raised ∧
          ¬ Overtaken reader archive time contract cache day := by
  have hnodup : days.Nodup := hdays.imp ne_of_lt
  have hleft (day : ℤ) : rowOf reader archive time contract cache day =
      rowOf reader archive time contract .empty day ∨
        rowOf reader archive time contract cache day = .ok none :=
    (rowOf_cases h day).elim (fun hrow ↦ .inr hrow.2) fun hrow ↦ .inl hrow.2
  have hcandle (day : ℤ) : candleFor request (rowOf reader archive time contract cache) day =
      candleFor request (rowOf reader archive time contract .empty) day ↔ _ :=
    candleFor_eq_iff (hleft day)
  rw [answer_eq_iff, rowsForDays_eq_collect hnodup fun _ _ ↦ rfl,
    rowsForDays_eq_collect hnodup fun _ _ ↦ rfl, collect_map, collect_map]
  refine (collect_eq_iff (f := candleFor request _) (g := candleFor request _)
    (fun d c hc ↦ date_of_candleFor hc) (fun d ↦ ?_) hdays).trans ?_
  · refine (hleft d).imp (hcandle d).mpr fun hnone ↦ ?_
    simp [candleFor, hnone, Except.map]
  · simp only [hcandle, rowOf_eq_iff h, raisesFirst_candleFor_iff]

/-- No day of the scan is overtaken, or one that is not raises before any other does. -/
def Reliable (reader : FoReader) (archive : Archive) (cache : Cache) (request : FoRequest) : Prop :=
  request.timeframe = .oneDay → ∀ contract, reader.parseFoSymbol request.symbol = some contract →
    (∀ day ∈ scanDays contract request.start request.stop,
        ¬ Overtaken reader archive request.time contract cache day) ∨
      ∃ day raised, RaisesFirst (rowOf reader archive request.time contract .empty)
          (scanDays contract request.start request.stop) day raised ∧
        ¬ Overtaken reader archive request.time contract cache day

/-- A fetch answers as one without a cache would. -/
def Transparent (reader : FoReader) (archive : Archive) (cache : Cache) (request : FoRequest) :
    Prop :=
  (getHistoricalData reader archive request cache).2 =
    (getHistoricalData reader archive request .empty).2

theorem transparent_iff_reliable (h : Sound archive request.time cache) :
    Transparent reader archive cache request ↔ Reliable reader archive cache request := by
  by_cases htimeframe : request.timeframe = .oneDay
  · cases hcontract : reader.parseFoSymbol request.symbol with
    | none => simp [Transparent, Reliable, getHistoricalData, htimeframe, hcontract]
    | some contract =>
      have hdays : (scanDays contract request.start request.stop).Pairwise (· < ·) :=
        pairwise_tradingDaysBetween _ _
      have hrows : answer request (rowsForDays reader archive request.time contract request.started
          cache (scanDays contract request.start request.stop)).2 = _ ↔ _ :=
        answer_rows_eq_iff h hdays
      simpa [Transparent, Reliable, getHistoricalData, htimeframe, hcontract] using hrows
  · simp [Transparent, Reliable, getHistoricalData, htimeframe]

/-- A history of fetches. Time does not run backwards. -/
def step (reader : FoReader) (archive : Archive) (s : Cache × ℤ) (request : FoRequest) :
    Option (Cache × ℤ) :=
  if s.2 ≤ request.time then
    some ((getHistoricalData reader archive request s.1).1, request.time)
  else none

/-- Every fetch of a history answers as one without a cache would at its time, exactly if none of
them scans a day that an earlier one has marked as without a file and whose file by now has
something of the contract, unless it raises for another day. -/
theorem cache_transparent_iff (reader : FoReader) (archive : Archive) (clock : ℤ)
    (requests : List FoRequest) :
    Along (step reader archive) (fun s request _ ↦ Transparent reader archive s.1 request)
        (.empty, clock) requests ↔
      Along (step reader archive) (fun s request _ ↦ Reliable reader archive s.1 request)
        (.empty, clock) requests := by
  refine along_iff_of_invariant (fun s request t (hs : Sound archive s.2 s.1) h ↦ ?_)
    (fun s request t hs h ↦ ?_) .empty
  all_goals simp only [step, Option.ite_none_right_eq_some, Option.some.injEq] at h
  · obtain ⟨htime, rfl⟩ := h
    exact (hs.later htime).getHistoricalData
  · exact transparent_iff_reliable (hs.later h.1)

end Answers

/-- Friday's file comes out at seven in the evening. A fetch at two marks the day, and the fetch at
eight, which asks for it again, still goes without it. -/
theorem marked_before_published :
    let contract : FoContract := ⟨"NIFTY", 20027, none, none⟩
    let reader : FoReader :=
      ⟨fun _ ↦ some contract, fun _ _ _ ↦ .ok [⟨25000, 25200, 24900, 25100, 25100, 800, 9000⟩]⟩
    let archive : Archive :=
      { file := fun _ ↦ .csv "TckrSymb"
        isOut := fun day time ↦ day * 24 + 19 ≤ time
        stays_out := fun hle hout ↦ decide_eq_true (Int.le_trans (of_decide_eq_true hout) hle) }
    let request (time : ℤ) : FoRequest :=
      ⟨"NSE_FO|40679", "NIFTY FUT 31 OCT 24", 19999, 20000, .oneDay, time, fun _ ↦ true⟩
    ¬ Along (step reader archive) (fun s request _ ↦ Transparent reader archive s.1 request)
        (.empty, 0) [request (20000 * 24 + 14), request (20000 * 24 + 20)] := by
  intro contract reader archive request h
  obtain ⟨-, hsecond, -⟩ := h
  have hlength := congrArg (fun answer ↦ answer.toOption.map List.length) hsecond
  revert hlength
  decide +kernel

end NseFoBhavcopy

end TradingOS.Data
