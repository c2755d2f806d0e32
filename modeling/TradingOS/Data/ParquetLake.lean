import Mathlib.Algebra.Order.Field.Rat
import Mathlib.Data.List.Dedup
import TradingOS.Data.Calendar
import TradingOS.Lib.KeyedRows
import TradingOS.Lib.Runs
import TradingOS.Lib.Table

namespace TradingOS.Data

open Lib Lib.Runs

/-- A row of a frame; `time` is its `date` in the daily lake, its `timestamp` in the other. -/
structure Row (τ β : Type) where
  symbol : String
  time : τ
  values : β
  deriving DecidableEq

structure Ohlcv where
  openPrice : ℚ
  high : ℚ
  low : ℚ
  close : ℚ
  volume : ℤ
  deriving DecidableEq

section Keys

variable {τ π β : Type}

def Row.key (r : Row τ β) : String × τ := (r.symbol, r.time)

/-- The partition of a row: its symbol and what the layout takes of its time. -/
def Row.partition (layout : τ → π) (r : Row τ β) : String × π := (r.symbol, layout r.time)

variable {layout : τ → π} {rows : List (Row τ β)} {p : String × π}

theorem Row.partition_of_key {r : Row τ β} {symbol : String} {time : τ} (h : r.key = (symbol, time)) :
    r.partition layout = (symbol, layout time) := by
  obtain ⟨hsymbol, htime⟩ := Prod.mk.inj h
  rw [Row.partition, hsymbol, htime]

theorem lastOf_eq_none_of_partition [DecidableEq τ] {symbol : String} {time : τ}
    (h : ∀ r ∈ rows, r.partition layout ≠ (symbol, layout time)) :
    lastOf Row.key rows (symbol, time) = none :=
  lastOf_eq_none.mpr fun r hr hkey ↦ h r hr (Row.partition_of_key hkey)

/-- In one partition the time is the key. -/
theorem nodup_time_iff (h : ∀ r ∈ rows, r.partition layout = p) :
    (rows.map Row.time).Nodup ↔ (rows.map Row.key).Nodup := by
  have hkey : rows.map Row.key = (rows.map Row.time).map (p.1, ·) := by
    rw [List.map_map]
    refine List.map_congr_left fun r hr ↦ ?_
    rw [← h r hr]
    rfl
  rw [hkey]
  exact (List.nodup_map_iff (fun _ _ he ↦ (Prod.mk.inj he).2)).symm

variable [DecidableEq π]

def rowsOf (layout : τ → π) (p : String × π) (rows : List (Row τ β)) : List (Row τ β) :=
  rows.filter (·.partition layout = p)

theorem mem_rowsOf {r : Row τ β} : r ∈ rowsOf layout p rows ↔ r ∈ rows ∧ r.partition layout = p := by
  simp [rowsOf]

theorem rowsOf_eq_nil (h : p ∉ rows.map (·.partition layout)) : rowsOf layout p rows = [] := by
  refine List.filter_eq_nil_iff.mpr fun r hr he ↦ h ?_
  exact of_decide_eq_true he ▸ List.mem_map_of_mem hr

theorem lastOf_rowsOf [DecidableEq τ] {symbol : String} {time : τ} :
    lastOf Row.key (rowsOf layout (symbol, layout time) rows) (symbol, time) =
      lastOf Row.key rows (symbol, time) :=
  lastOf_filter fun _ _ hkey ↦ decide_eq_true (Row.partition_of_key hkey)

end Keys

/-- What the lake relies on: the sort of polars, that of DuckDB, and which file names DuckDB finds
for a pattern. -/
structure Engine (τ β : Type) [LinearOrder τ] where
  sort : Sorting (Row.time : Row τ β → τ)
  orderBy : Sorting (Row.time : Row τ β → τ)
  glob : String → String → Bool

/-- The partition files by symbol and directory. -/
structure Lake (τ π β : Type) where
  files : Table (String × π) (List (Row τ β))

namespace Lake

variable {τ π β : Type} [DecidableEq π] (s : Lake τ π β)

def empty : Lake τ π β := ⟨.empty⟩

def rowsAt (p : String × π) : List (Row τ β) := (s.files.get? p).getD []

theorem mem_rowsAt {s : Lake τ π β} {p : String × π} {r : Row τ β} :
    r ∈ s.rowsAt p ↔ ∃ file, (p, file) ∈ s.files.rows ∧ r ∈ file := by
  simp only [rowsAt, ← Table.get?_eq_some]
  cases s.files.get? p with
  | none => simp
  | some file => simp

variable [LinearOrder τ] (layout : τ → π) (engine : Engine τ β)

/-- `_merge`. -/
def merge (existing : Option (List (Row τ β))) (newRows : List (Row τ β)) : List (Row τ β) :=
  match existing with
  | none => engine.sort.sort newRows
  | some existing => engine.sort.sort (uniqueLast Row.key (existing ++ newRows))

/-- `write`, one group after the other. -/
def write (rows : List (Row τ β)) : Lake τ π β where
  files := (rows.map (·.partition layout)).dedup.foldl
    (fun files p ↦ files.put p (merge engine (files.get? p) (rowsOf layout p rows))) s.files

/-- The number `write` returns: the heights of the files it has merged. -/
def written (rows : List (Row τ β)) : ℕ :=
  ((rows.map (·.partition layout)).dedup.map fun p ↦
    ((s.write layout engine rows).rowsAt p).length).sum

/-- `read_symbol`. The symbol is part of a pattern for the names of the files. -/
def readSymbol (symbol : String) (within : τ → Bool) : List (Row τ β) :=
  engine.orderBy.sort (((s.files.rows.filter fun file ↦ engine.glob symbol file.1.1).flatMap
    Prod.snd).filter fun r ↦ within r.time)

end Lake

/-- The days from a start to a stop, where either may be left open. -/
def withinDays (range : Option ℤ × Option ℤ) (d : ℤ) : Bool :=
  range.1.all (· ≤ d) && range.2.all (d ≤ ·)

namespace ParquetLakeWriter

/-- `_partition_path`: year and month. -/
def layout (date : ℤ) : ℤ × ℤ := (Date.year date, Date.month date)

def write (engine : Engine ℤ Ohlcv) (s : Lake ℤ (ℤ × ℤ) Ohlcv) (rows : List (Row ℤ Ohlcv)) :
    Lake ℤ (ℤ × ℤ) Ohlcv :=
  s.write layout engine rows

end ParquetLakeWriter

namespace DataLake

def readSymbol (engine : Engine ℤ Ohlcv) (s : Lake ℤ (ℤ × ℤ) Ohlcv) (symbol : String)
    (start stop : Option ℤ) : List (Row ℤ Ohlcv) :=
  s.readSymbol engine symbol (withinDays (start, stop))

def latestDate (engine : Engine ℤ Ohlcv) (s : Lake ℤ (ℤ × ℤ) Ohlcv) (symbol : String) : Option ℤ :=
  ((readSymbol engine s symbol none none).map Row.time).max?

def listSymbols (s : Lake ℤ (ℤ × ℤ) Ohlcv) : List String := (s.files.keys.map Prod.fst).dedup

end DataLake

namespace IntradayParquetWriter

/-- A timestamp is in microseconds; its date is that of India, five and a half hours ahead. -/
def dateOf (timestamp : ℤ) : ℤ := (timestamp + 19800000000) / 86400000000

/-- Year, month and day. -/
def layout (timestamp : ℤ) : ℤ × ℤ × ℤ :=
  let date := dateOf timestamp
  (Date.year date, Date.month date, Date.day date)

def write (engine : Engine ℤ Ohlcv) (s : Lake ℤ (ℤ × ℤ × ℤ) Ohlcv) (rows : List (Row ℤ Ohlcv)) :
    Lake ℤ (ℤ × ℤ × ℤ) Ohlcv :=
  s.write layout engine rows

end IntradayParquetWriter

namespace IntradayDataLake

/-- The day of a timestamp is DuckDB's, in the time zone of its session. -/
def withinDay (castDate : ℤ → ℤ) (day : Option ℤ) (timestamp : ℤ) : Bool :=
  day.all (castDate timestamp = ·)

def readSymbol (engine : Engine ℤ Ohlcv) (castDate : ℤ → ℤ) (s : Lake ℤ (ℤ × ℤ × ℤ) Ohlcv)
    (symbol : String) (day : Option ℤ) : List (Row ℤ Ohlcv) :=
  s.readSymbol engine symbol (withinDay castDate day)

end IntradayDataLake

/-- A write, or a read of a symbol in a range `κ`. -/
inductive LakeEvent (τ β κ : Type)
  | write (rows : List (Row τ β))
  | readSymbol (symbol : String) (range : κ)

def LakeEvent.log {τ β κ : Type} (log : List (Row τ β)) : LakeEvent τ β κ → List (Row τ β)
  | .write rows => log ++ rows
  | .readSymbol _ _ => log

namespace Lake

variable {τ π β : Type} [LinearOrder τ] [DecidableEq π] {layout : τ → π} {engine : Engine τ β}

def step {κ : Type} (layout : τ → π) (engine : Engine τ β) (s : Lake τ π β) :
    LakeEvent τ β κ → Option (Lake τ π β)
  | .write rows => some (s.write layout engine rows)
  | .readSymbol _ _ => some s

/-- The files are a map from keys to rows in which the last write of a key is the one that counts:
`log` has all rows in the order they were written. -/
structure LastWriteWins (layout : τ → π) (log : List (Row τ β)) (s : Lake τ π β) : Prop where
  begun : ∀ p, s.files.get? p = none ↔ ∀ r ∈ log, r.partition layout ≠ p
  sorted : ∀ p, (s.rowsAt p).Pairwise (·.time < ·.time)
  mem : ∀ p r, r ∈ s.rowsAt p ↔ r.partition layout = p ∧ lastOf Row.key log r.key = some r

/-- A read that returns the rows last written for its symbol and range, in order. -/
def ReadsExactly (log : List (Row τ β)) (symbol : String) (within : τ → Bool)
    (rows : List (Row τ β)) : Prop :=
  rows.Pairwise (·.time < ·.time) ∧
    ∀ r, r ∈ rows ↔ r.symbol = symbol ∧ within r.time ∧ lastOf Row.key log r.key = some r

/-- A frame has no key twice in a partition that it begins. -/
def BeginsUnique (layout : τ → π) (s : Lake τ π β) (rows : List (Row τ β)) : Prop :=
  ∀ p, s.files.get? p = none → ((rowsOf layout p rows).map Row.key).Nodup

/-- A symbol, as a pattern, selects its own files, where the reader finds the rows of the range
in range and no others; and in a file of another symbol that it selects, no row is found so. -/
structure SelectsOwn (engine : Engine τ β) (s : Lake τ π β) (symbol : String)
    (reads within : τ → Bool) : Prop where
  own : ∀ p, p.1 = symbol → ∀ r ∈ s.rowsAt p, engine.glob symbol p.1 ∧ reads r.time ↔ within r.time
  others : ∀ p, p.1 ≠ symbol → engine.glob symbol p.1 → ∀ r ∈ s.rowsAt p, reads r.time = false

variable {s t : Lake τ π β} {log rows : List (Row τ β)} {p : String × π}

theorem get?_write : (s.write layout engine rows).files.get? p =
    if p ∈ rows.map (·.partition layout) then
      some (merge engine (s.files.get? p) (rowsOf layout p rows))
    else s.files.get? p := by
  have h := Table.get?_foldl_put (f := fun p file ↦ merge engine file (rowsOf layout p rows))
    (rows.map (·.partition layout)).nodup_dedup s.files p
  simp only [write]
  simpa only [List.mem_dedup] using h

namespace LastWriteWins

theorem lastOf_rowsAt (hs : s.LastWriteWins layout log) {symbol : String} {time : τ} :
    lastOf Row.key (s.rowsAt (symbol, layout time)) (symbol, time) =
      lastOf Row.key log (symbol, time) := by
  have hnodup : ((s.rowsAt (symbol, layout time)).map Row.key).Nodup :=
    (nodup_time_iff fun r hr ↦ ((hs.mem _ r).mp hr).1).mp
      (nodup_map_of_pairwise_lt (hs.sorted (symbol, layout time)))
  refine Option.ext fun r ↦ ?_
  constructor
  · intro hlast
    obtain ⟨hr, hkey⟩ := of_lastOf_eq_some hlast
    rw [← hkey]
    exact ((hs.mem _ r).mp hr).2
  · intro hlast
    obtain ⟨-, hkey⟩ := of_lastOf_eq_some hlast
    rw [← hkey] at hlast ⊢
    exact lastOf_of_nodup hnodup ((hs.mem _ r).mpr ⟨Row.partition_of_key hkey, hlast⟩)

/-- The log says what the files hold. -/
theorem files_eq (hs : s.LastWriteWins layout log) (ht : t.LastWriteWins layout log)
    (p : String × π) : s.files.get? p = t.files.get? p := by
  have hrows : s.rowsAt p = t.rowsAt p :=
    eq_of_pairwise_lt Row.time (hs.sorted p) (ht.sorted p) fun r ↦ (hs.mem p r).trans (ht.mem p r).symm
  have hnone : s.files.get? p = none ↔ t.files.get? p = none :=
    (hs.begun p).trans (ht.begun p).symm
  simp only [rowsAt] at hrows
  cases hsp : s.files.get? p with
  | none => exact (hnone.mp hsp).symm
  | some file =>
    cases htp : t.files.get? p with
    | none =>
      rw [hnone.mpr htp] at hsp
      cases hsp
    | some file' =>
      rw [hsp, htp] at hrows
      exact congrArg some hrows

theorem init : (Lake.empty : Lake τ π β).LastWriteWins layout [] where
  begun _ := iff_of_true rfl fun r hr ↦ by cases hr
  sorted _ := .nil
  mem _ r := by simp [rowsAt, Lake.empty, Table.empty, Table.get?, lastOf]

end LastWriteWins

theorem rowsAt_write : (s.write layout engine rows).rowsAt p =
    if p ∈ rows.map (·.partition layout) then
      merge engine (s.files.get? p) (rowsOf layout p rows)
    else s.rowsAt p := by
  simp only [rowsAt, get?_write]
  split <;> rfl

theorem begun_write (hs : s.LastWriteWins layout log) (p : String × π) :
    (s.write layout engine rows).files.get? p = none ↔
      ∀ r ∈ log ++ rows, r.partition layout ≠ p := by
  rw [get?_write]
  simp only [List.forall_mem_append, ← hs.begun p]
  split
  · next hp =>
    obtain ⟨r, hr, hplace⟩ := List.mem_map.mp hp
    exact iff_of_false (Option.some_ne_none _) fun h ↦ h.2 r hr hplace
  · next hp =>
    have hnone : ∀ r ∈ rows, r.partition layout ≠ p := fun r hr hplace ↦
      hp (List.mem_map.mpr ⟨r, hr, hplace⟩)
    exact (and_iff_left hnone).symm

theorem partition_of_mem_append (hs : s.LastWriteWins layout log) {file : List (Row τ β)}
    (hfile : s.files.get? p = some file) :
    ∀ r ∈ file ++ rowsOf layout p rows, r.partition layout = p := by
  have hrows : s.rowsAt p = file := by rw [rowsAt, hfile, Option.getD_some]
  intro r hr
  rcases List.mem_append.mp hr with hr | hr
  · exact ((hs.mem p r).mp (hrows ▸ hr)).1
  · exact (mem_rowsOf.mp hr).2

theorem sorted_write (hs : s.LastWriteWins layout log) (hunique : BeginsUnique layout s rows)
    (p : String × π) : ((s.write layout engine rows).rowsAt p).Pairwise (·.time < ·.time) := by
  rw [rowsAt_write]
  split
  · simp only [merge]
    split
    · next hfile =>
      exact engine.sort.pairwise_lt_sort
        ((nodup_time_iff fun r hr ↦ (mem_rowsOf.mp hr).2).mpr (hunique p hfile))
    · next file hfile =>
      have hplaces : ∀ r ∈ file ++ rowsOf layout p rows, r.partition layout = p :=
        partition_of_mem_append hs hfile
      exact engine.sort.pairwise_lt_sort
        ((nodup_time_iff fun r hr ↦ hplaces r (List.pwFilter_subset _ hr)).mpr nodup_uniqueLast)
  · exact hs.sorted p

theorem mem_write (hs : s.LastWriteWins layout log) (hunique : BeginsUnique layout s rows)
    (p : String × π) (r : Row τ β) : r ∈ (s.write layout engine rows).rowsAt p ↔
      r.partition layout = p ∧ lastOf Row.key (log ++ rows) r.key = some r := by
  rw [rowsAt_write, lastOf_append]
  split
  · simp only [merge]
    split
    · next hfile =>
      -- the file is begun: what the log says of its keys the frame says
      have hlog (hplace : r.partition layout = p) : lastOf Row.key log r.key = none :=
        lastOf_eq_none_of_partition fun r' hr' he ↦ (hs.begun p).mp hfile r' hr' (he.trans hplace)
      rw [Sorting.mem_sort]
      constructor
      · intro hr
        obtain ⟨-, rfl⟩ := mem_rowsOf.mp hr
        refine ⟨rfl, ?_⟩
        rw [hlog rfl, Option.or_none]
        exact lastOf_rowsOf.symm.trans (lastOf_of_nodup (hunique _ hfile) hr)
      · rintro ⟨rfl, hlast⟩
        rw [hlog rfl, Option.or_none] at hlast
        exact mem_rowsOf.mpr ⟨(of_lastOf_eq_some hlast).1, rfl⟩
    · next file hfile =>
      have hrows : s.rowsAt p = file := by rw [rowsAt, hfile, Option.getD_some]
      rw [Sorting.mem_sort, mem_uniqueLast, lastOf_append]
      have hsame (hplace : r.partition layout = p) :
          (lastOf Row.key (rowsOf layout p rows) r.key).or (lastOf Row.key file r.key) =
            (lastOf Row.key rows r.key).or (lastOf Row.key log r.key) := by
        subst hplace
        rw [← hrows]
        exact congrArg₂ Option.or lastOf_rowsOf hs.lastOf_rowsAt
      constructor
      · intro hlast
        have hplace : r.partition layout = p :=
          partition_of_mem_append hs hfile r
            (of_lastOf_eq_some (lastOf_append.trans hlast)).1
        exact ⟨hplace, (hsame hplace).symm.trans hlast⟩
      · rintro ⟨hplace, hlast⟩
        exact (hsame hplace).trans hlast
  · next hp =>
    rw [hs.mem p r]
    refine and_congr_right fun hplace ↦ ?_
    have hnone : lastOf Row.key rows r.key = none :=
      lastOf_eq_none_of_partition fun r' hr' he ↦
        hp (List.mem_map.mpr ⟨r', hr', he.trans hplace⟩)
    rw [hnone, Option.none_or]

theorem lastWriteWins_write_iff (hs : s.LastWriteWins layout log) :
    (s.write layout engine rows).LastWriteWins layout (log ++ rows) ↔
      BeginsUnique layout s rows := by
  constructor
  · intro ht p hfile
    by_cases hp : p ∈ rows.map (·.partition layout)
    · have hsorted := ht.sorted p
      rw [rowsAt_write, if_pos hp, hfile] at hsorted
      have hnodup := nodup_map_of_pairwise_lt hsorted
      have hperm := (engine.sort.perm (rowsOf layout p rows)).map Row.time
      exact (nodup_time_iff fun r hr ↦ (mem_rowsOf.mp hr).2).mp (hperm.nodup_iff.mp hnodup)
    · rw [rowsOf_eq_nil hp]
      exact List.nodup_nil
  · intro hunique
    exact ⟨begun_write hs, sorted_write hs hunique, mem_write hs hunique⟩

/-- Writing the last frame again changes nothing. -/
theorem LastWriteWins.write_again (ht : t.LastWriteWins layout (log ++ rows)) (p : String × π) :
    (t.write layout engine rows).files.get? p = t.files.get? p := by
  have hunique : BeginsUnique layout t rows := by
    intro p hfile
    have hp : p ∉ rows.map (·.partition layout) := by
      intro hp
      obtain ⟨r, hr, hplace⟩ := List.mem_map.mp hp
      exact (ht.begun p).mp hfile r (List.mem_append_right _ hr) hplace
    rw [rowsOf_eq_nil hp]
    exact List.nodup_nil
  have hagain : (t.write layout engine rows).LastWriteWins layout (log ++ rows ++ rows) :=
    (lastWriteWins_write_iff ht).mpr hunique
  suffices hsame : (t.write layout engine rows).LastWriteWins layout (log ++ rows) from
    hsame.files_eq ht p
  have hlast (k : String × τ) :
      lastOf Row.key (log ++ rows ++ rows) k = lastOf Row.key (log ++ rows) k := by
    rw [lastOf_append, lastOf_append, ← Option.or_assoc, Option.or_self]
  refine ⟨fun p ↦ (hagain.begun p).trans ?_, hagain.sorted, fun p r ↦ ?_⟩
  · simp only [List.forall_mem_append, and_assoc, and_self]
  · rw [hagain.mem p r, hlast]

variable {symbol : String} {reads within : τ → Bool}

theorem mem_readSymbol {r : Row τ β} : r ∈ s.readSymbol engine symbol reads ↔
    reads r.time ∧ ∃ p, engine.glob symbol p.1 ∧ r ∈ s.rowsAt p := by
  simp only [readSymbol, Sorting.mem_sort, List.mem_filter, List.mem_flatMap, mem_rowsAt]
  constructor
  · rintro ⟨⟨⟨p, file⟩, ⟨hfile, hglob⟩, hr⟩, hwithin⟩
    exact ⟨hwithin, p, hglob, file, hfile, hr⟩
  · rintro ⟨hwithin, p, hglob, file, hfile, hr⟩
    exact ⟨⟨(p, file), ⟨hfile, hglob⟩, hr⟩, hwithin⟩

/-- The files have no row in common. -/
theorem LastWriteWins.nodup_selected (hs : s.LastWriteWins layout log) :
    ((s.files.rows.filter fun file ↦ engine.glob symbol file.1.1).flatMap Prod.snd).Nodup := by
  have hmem {file : (String × π) × List (Row τ β)} (hfile : file ∈ s.files.rows) {r : Row τ β}
      (hr : r ∈ file.2) : r.partition layout = file.1 :=
    ((hs.mem file.1 r).mp (mem_rowsAt.mpr ⟨file.2, hfile, hr⟩)).1
  refine List.nodup_flatMap.mpr ⟨fun file hfile ↦ ?_, ?_⟩
  · have hrows : s.rowsAt file.1 = file.2 := by
      rw [rowsAt, s.files.get?_eq_some.mpr (List.mem_of_mem_filter hfile), Option.getD_some]
    have hsorted := hs.sorted file.1
    rw [hrows] at hsorted
    exact (nodup_map_of_pairwise_lt hsorted).of_map Row.time
  · have hkeys : s.files.rows.Pairwise fun file file' ↦ file.1 ≠ file'.1 :=
      List.pairwise_map.mp s.files.nodup
    refine ((hkeys.imp_of_mem fun hfile hfile' hne ↦ ?_).filter _)
    exact fun r hr hr' ↦ hne ((hmem hfile hr).symm.trans (hmem hfile' hr'))

theorem readsExactly_iff (hs : s.LastWriteWins layout log) :
    ReadsExactly log symbol within (s.readSymbol engine symbol reads) ↔
      SelectsOwn engine s symbol reads within := by
  have hstored {p : String × π} {r : Row τ β} (hr : r ∈ s.rowsAt p) :
      r.symbol = p.1 ∧ lastOf Row.key log r.key = some r := by
    obtain ⟨hplace, hlast⟩ := (hs.mem p r).mp hr
    exact ⟨congrArg Prod.fst hplace, hlast⟩
  constructor
  · rintro ⟨-, hread⟩
    refine ⟨fun p hp r hr ↦ ?_, fun p hp hglob r hr ↦ ?_⟩
    · obtain ⟨hsymbol, hlast⟩ := hstored hr
      constructor
      · rintro ⟨hglob, hreads⟩
        exact ((hread r).mp (mem_readSymbol.mpr ⟨hreads, p, hglob, hr⟩)).2.1
      · intro hwithin
        obtain ⟨hreads, p', hglob, hr'⟩ :=
          mem_readSymbol.mp ((hread r).mpr ⟨hsymbol.trans hp, hwithin, hlast⟩)
        rw [← (hstored hr').1, hsymbol] at hglob
        exact ⟨hglob, hreads⟩
    · by_contra hreads
      have hrow := (hread r).mp (mem_readSymbol.mpr ⟨by simpa using hreads, p, hglob, hr⟩)
      exact hp ((hstored hr).1.symm.trans hrow.1)
  · intro hown
    have hmem (r : Row τ β) : r ∈ s.readSymbol engine symbol reads ↔
        r.symbol = symbol ∧ within r.time ∧ lastOf Row.key log r.key = some r := by
      rw [mem_readSymbol]
      constructor
      · rintro ⟨hreads, p, hglob, hr⟩
        obtain ⟨hsymbol, hlast⟩ := hstored hr
        have hp : p.1 = symbol := by
          by_contra hp
          rw [hown.others p hp hglob r hr] at hreads
          cases hreads
        exact ⟨hsymbol.trans hp, (hown.own p hp r hr).mp ⟨hglob, hreads⟩, hlast⟩
      · rintro ⟨rfl, hwithin, hlast⟩
        have hr : r ∈ s.rowsAt (r.partition layout) := (hs.mem _ r).mpr ⟨rfl, hlast⟩
        obtain ⟨hglob, hreads⟩ := (hown.own (r.partition layout) rfl r hr).mpr hwithin
        exact ⟨hreads, r.partition layout, hglob, hr⟩
    refine ⟨engine.orderBy.pairwise_lt_sort ?_, hmem⟩
    refine List.Nodup.map_on (fun r hr r' hr' htime ↦ ?_) (hs.nodup_selected.filter _)
    obtain ⟨hsymbol, -, hlast⟩ := (hmem r).mp ((Sorting.mem_sort _).mpr hr)
    obtain ⟨hsymbol', -, hlast'⟩ := (hmem r').mp ((Sorting.mem_sort _).mpr hr')
    have hkey : r.key = r'.key := Prod.ext (hsymbol.trans hsymbol'.symm) htime
    rw [hkey] at hlast
    exact Option.some.inj (hlast.symm.trans hlast')

section Serves

variable {κ : Type} (layout : τ → π) (engine : Engine τ β) (reads within : κ → τ → Bool)

/-- After each event the files hold what was last written, once and in order, a write could be
repeated, and a read, by what its query takes to be in range, has returned the rows of the range. -/
def Serves (x : Lake τ π β × List (Row τ β)) (event : LakeEvent τ β κ)
    (y : Lake τ π β × List (Row τ β)) : Prop :=
  y.1.LastWriteWins layout y.2 ∧
    match event with
    | .write rows => ∀ p, (y.1.write layout engine rows).files.get? p = y.1.files.get? p
    | .readSymbol symbol range =>
      ReadsExactly x.2 symbol (within range) (x.1.readSymbol engine symbol (reads range))

def Careful (x : Lake τ π β × List (Row τ β)) (event : LakeEvent τ β κ)
    (_ : Lake τ π β × List (Row τ β)) : Prop :=
  match event with
  | .write rows => BeginsUnique layout x.1 rows
  | .readSymbol symbol range => SelectsOwn engine x.1 symbol (reads range) (within range)

theorem serves_iff_careful (events : List (LakeEvent τ β κ)) :
    Along (observe (step layout engine) LakeEvent.log) (Serves layout engine reads within)
        (empty, []) events ↔
      Along (observe (step layout engine) LakeEvent.log) (Careful layout engine reads within)
        (empty, []) events := by
  refine along_step_iff (fun x event y (hx : x.1.LastWriteWins layout x.2) h ↦ ?_) .init
  obtain ⟨s, log⟩ := x
  obtain ⟨t, log'⟩ := y
  obtain ⟨ht, rfl⟩ := observe_eq_some.mp h
  cases event with
  | write rows =>
    obtain rfl := Option.some.inj ht
    have hwrite : (s.write layout engine rows).LastWriteWins layout (log ++ rows) ↔
        BeginsUnique layout s rows := lastWriteWins_write_iff hx
    exact (and_iff_left_of_imp LastWriteWins.write_again).trans hwrite
  | readSymbol symbol range =>
    obtain rfl := Option.some.inj ht
    exact (and_iff_right hx).trans (readsExactly_iff hx)

end Serves

/-- In every run of writes and reads of either lake, each file stays a sorted map of the rows last
written, the last write could be repeated, and each read returns its rows, exactly if no frame has
a key twice in a partition that it begins, no read selects the files of another symbol, and where a
day is read, DuckDB takes the same timestamps to be of that day as the writer does. -/
theorem lakes_serve_iff (engine : Engine ℤ Ohlcv) :
    (∀ events, Along (observe (step ParquetLakeWriter.layout engine) LakeEvent.log)
        (Serves ParquetLakeWriter.layout engine withinDays withinDays) (empty, []) events ↔
      Along (observe (step ParquetLakeWriter.layout engine) LakeEvent.log)
        (Careful ParquetLakeWriter.layout engine withinDays withinDays) (empty, []) events) ∧
    ∀ castDate events, Along (observe (step IntradayParquetWriter.layout engine) LakeEvent.log)
        (Serves IntradayParquetWriter.layout engine (IntradayDataLake.withinDay castDate)
          (IntradayDataLake.withinDay IntradayParquetWriter.dateOf)) (empty, []) events ↔
      Along (observe (step IntradayParquetWriter.layout engine) LakeEvent.log)
        (Careful IntradayParquetWriter.layout engine (IntradayDataLake.withinDay castDate)
          (IntradayDataLake.withinDay IntradayParquetWriter.dateOf)) (empty, []) events :=
  ⟨serves_iff_careful _ _ _ _, fun _ ↦ serves_iff_careful _ _ _ _⟩

/-- The first write of a month keeps both rows of a day: a merge would have kept the last. -/
theorem repeated_day_kept :
    let engine : Engine ℤ Ohlcv := ⟨.insertion _, .insertion _, fun symbol name ↦ symbol == name⟩
    let frame : List (Row ℤ Ohlcv) :=
      [⟨"RELIANCE", 19724, 2580, 2610, 2575, 2600, 4000⟩,
        ⟨"RELIANCE", 19724, 2580, 2612, 2575, 2611, 5000⟩]
    ¬ Along (observe (step ParquetLakeWriter.layout engine) LakeEvent.log)
        (Serves ParquetLakeWriter.layout engine withinDays withinDays) (empty, [])
        [.write frame] := by
  intro engine frame h
  have hsorted := h.1.1.sorted ("RELIANCE", 2024, 1)
  revert hsorted
  decide

end Lake

end TradingOS.Data
