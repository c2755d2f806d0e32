import Mathlib.Data.List.ReduceOption
import Mathlib.Data.Set.Basic
import TradingOS.Lib.Fallible
import TradingOS.Lib.Table

namespace TradingOS.Data.InstrumentSync

open Lib

/-- Where an exception is raised: in Python, with the statement not sent, or by the database, which
then refuses every further statement of the transaction. -/
inductive SyncError
  | python
  | database
  deriving DecidableEq

/-- The columns of an instrument beside its key. -/
structure Instrument where
  exchange : String
  segment : String
  symbol : String
  name : String
  instrumentType : String
  isin : Option String
  expiry : Option ℤ
  strike : Option ℚ
  lotSize : Option ℤ
  tickSize : Option ℚ
  isActive : Bool
  deriving DecidableEq

/-- A record of the file. `expiry` and `strikePrice` are what their conversions give, where the
field is neither missing nor zero. -/
structure RawRecord where
  instrumentType : Option String
  instrumentKey : Option String
  tradingSymbol : Option String
  name : Option String
  segment : Option String
  isin : Option String
  expiry : Option (Except SyncError ℤ)
  strikePrice : Option (Except SyncError ℚ)
  lotSize : Option ℤ
  tickSize : Option ℚ

/-- The table `instruments`, by provider and instrument key. -/
abbrev InstrumentTable := Table (String × String) Instrument

structure Provenance where
  provider : String
  retrievedAt : ℤ
  deriving DecidableEq

structure Database where
  instruments : InstrumentTable
  provenance : Table String Provenance

/-- A session in a transaction: what is committed, what its own statements have made of it, and
whether the database has aborted the transaction. -/
structure Session where
  committed : Database
  working : Database
  aborted : Bool

def provider : String := "upstox_v3"

def supportedInstrumentTypes : List String := ["EQ", "INDEX", "FUT", "CE", "PE"]

def expiryTypes : List String := ["FUT", "CE", "PE"]

def strikeTypes : List String := ["CE", "PE"]

def truthy (s : Option String) : Option String := s.filter (· ≠ "")

/-- The value of a field that is converted if the instrument is of one of the types. -/
def convert {β : Type} (applies : Bool) (field : Option (Except SyncError β)) :
    Except SyncError (Option β) :=
  match field with
  | some conversion => if applies then conversion.map some else .ok none
  | none => .ok none

/-- `_parse_record`, for a record that is an object; one that is not raises. -/
def parseRecord (exchange : String) (record : Except SyncError RawRecord) :
    Except SyncError (Option (String × Instrument)) := do
  let record ← record
  match record.instrumentType.filter (· ∈ supportedInstrumentTypes), truthy record.instrumentKey,
    truthy record.tradingSymbol, truthy record.name, truthy record.segment with
  | some instrumentType, some instrumentKey, some symbol, some name, some segment =>
    let expiry ← convert (instrumentType ∈ expiryTypes) record.expiry
    let strike ← convert (instrumentType ∈ strikeTypes) record.strikePrice
    return some (instrumentKey,
      ⟨exchange, segment, symbol, name, instrumentType, record.isin, expiry, strike,
        record.lotSize, record.tickSize, true⟩)
  | _, _, _, _, _ => return none

def parseRecords (exchange : String) (records : List (Except SyncError RawRecord)) :
    Except SyncError (List (String × Instrument)) := do
  return (← records.mapM (parseRecord exchange)).reduceOption

/-- The `UPDATE`. -/
def deactivate (exchange : String) (instruments : InstrumentTable) : InstrumentTable :=
  instruments.mapVals fun key row ↦
    if key.1 = provider ∧ row.exchange = exchange ∧ row.isActive then
      { row with isActive := false }
    else row

/-- The `INSERT ... ON CONFLICT DO UPDATE` of one row, which sets every column beside the key. -/
def upsert (instruments : InstrumentTable) (row : String × Instrument) : InstrumentTable :=
  instruments.assign (provider, row.1) row.2

def chunkSize : ℕ := 1000

def chunksOf {β : Type} : ℕ → List β → List (List β)
  | 0, _ => []
  | count + 1, l => l.take chunkSize :: chunksOf count (l.drop chunkSize)

def chunks {β : Type} (l : List β) : List (List β) :=
  chunksOf ((l.length + chunkSize - 1) / chunkSize) l

/-- What a sync meets: the records it fetches, and the statements that fail on it. A commit that
fails commits nothing, and the session takes no further statement. -/
structure SyncInput where
  fetched : Except SyncError (List (Except SyncError RawRecord))
  onUpdate : Option SyncError
  onChunk : ℕ → Option SyncError
  commitFails : Bool

/-- One statement cannot update a row twice. -/
def chunkError (onChunk : ℕ → Option SyncError) (i : ℕ) (chunk : List (String × Instrument)) :
    Option SyncError :=
  (onChunk i).or (if (chunk.map Prod.fst).Nodup then none else some .database)

namespace Session

def new (db : Database) : Session := ⟨db, db, false⟩

def fail (s : Session) : SyncError → Session
  | .python => s
  | .database => { s with aborted := true }

def mapInstruments (s : Session) (f : InstrumentTable → InstrumentTable) : Session :=
  { s with working := { s.working with instruments := f s.working.instruments } }

def commit (s : Session) : Session := { s with committed := s.working }

/-- The loop over the chunks. -/
def upsertChunks (onChunk : ℕ → Option SyncError) :
    ℕ → List (List (String × Instrument)) → Session → Session × Option SyncError
  | _, [], s => (s, none)
  | i, chunk :: rest, s =>
    match chunkError onChunk i chunk with
    | some e => (s.fail e, some e)
    | none => upsertChunks onChunk (i + 1) rest (s.mapInstruments (chunk.foldl upsert))

/-- `InstrumentSyncService.sync`: the session it leaves, and what it returns or raises. -/
def sync (s : Session) (exchange : String) (input : SyncInput) : Session × Except SyncError ℕ :=
  match input.fetched with
  | .error e => (s, .error e)
  | .ok records =>
    match input.onUpdate with
    | some e => (s.fail e, .error e)
    | none =>
      let s := s.mapInstruments (deactivate exchange)
      match parseRecords exchange records with
      | .error e => (s, .error e)
      | .ok parsed =>
        match s.upsertChunks input.onChunk 0 (chunks parsed) with
        | (s, some e) => (s, .error e)
        | (s, none) =>
          if input.commitFails then (s.fail .database, .error .database)
          else (s.commit, .ok parsed.length)

end Session

/-- `resolve_instrument_key`. -/
def resolveInstrumentKey (instruments : InstrumentTable) (symbol exchange : String) :
    Option String :=
  (instruments.rows.find? fun r ↦
    r.2.symbol = symbol ∧ r.2.exchange = exchange ∧ r.2.isActive).map (·.1.2)

/-- How the turn of a symbol with an instrument ends: with nothing to write, with candles in the
lake, or with an exception that ends the run. -/
inductive Turn
  | nothing
  | written (provenance : Provenance)
  | raised

def Session.upsertProvenance (s : Session) (symbol : String) (provenance : Provenance) : Session :=
  { s with
    working := { s.working with provenance := s.working.provenance.assign symbol provenance }
  }.commit

/-- The loop over the symbols, with the instruments that each turn has seen. -/
def ingestSymbols (turn : String → String → Turn) :
    Session → List String → List InstrumentTable × Session
  | s, [] => ([], s)
  | s, symbol :: symbols =>
    match resolveInstrumentKey s.working.instruments symbol "NSE" with
    | none =>
      let (views, s') := ingestSymbols turn s symbols
      (s.working.instruments :: views, s')
    | some instrumentKey =>
      match turn symbol instrumentKey with
      | .nothing =>
        let (views, s') := ingestSymbols turn s symbols
        (s.working.instruments :: views, s')
      | .written provenance =>
        let (views, s') := ingestSymbols turn (s.upsertProvenance symbol provenance) symbols
        (s.working.instruments :: views, s')
      | .raised => ([s.working.instruments], s)

structure IngestionResult where
  synced : Except SyncError ℕ
  views : List InstrumentTable
  committed : Database

/-- `run_incremental_ingestion` on the database. It goes on after whatever `sync` raises; in an
aborted transaction its next statement raises. What is not committed when the session is closed is
rolled back. -/
def runIncrementalIngestion (input : SyncInput) (turn : String → String → Turn)
    (targetSymbols : List String) (db : Database) : IngestionResult :=
  let (s, synced) := (Session.new db).sync "NSE" input
  if s.aborted then ⟨synced, [], s.committed⟩
  else
    let (views, s) := ingestSymbols turn s targetSymbols
    ⟨synced, views, s.committed⟩

def activeInstruments (instruments : InstrumentTable) : Set (String × String) :=
  {key | ∃ row, instruments.get? key = some row ∧ row.isActive}

/-- The rows of the chunks before the first that fails, and how it fails. -/
def written (onChunk : ℕ → Option SyncError) :
    ℕ → List (List (String × Instrument)) → List (String × Instrument) × Option SyncError
  | _, [] => ([], none)
  | i, chunk :: rest =>
    match chunkError onChunk i chunk with
    | some e => ([], some e)
    | none => (chunk ++ (written onChunk (i + 1) rest).1, (written onChunk (i + 1) rest).2)

/-- The rows upserted, if an exception raised in Python ends the sync after the `UPDATE`. -/
def interrupted (exchange : String) (input : SyncInput) : Option (List (String × Instrument)) :=
  match input.fetched, input.onUpdate with
  | .ok records, none =>
    match parseRecords exchange records with
    | .error _ => some []
    | .ok parsed =>
      match written input.onChunk 0 (chunks parsed) with
      | (rows, some .python) => some rows
      | _ => none
  | _, _ => none

variable {exchange : String} {T : InstrumentTable} {rows : List (String × Instrument)}
  {key : String × String} {db : Database} {input : SyncInput} {turn : String → String → Turn}

theorem mem_active_deactivate : key ∈ activeInstruments (deactivate exchange T) ↔
    key ∈ activeInstruments T ∧
      ¬ (key.1 = provider ∧ ∃ row, T.get? key = some row ∧ row.exchange = exchange) := by
  simp only [activeInstruments, deactivate, Set.mem_ofPred_eq, Table.get?_mapVals]
  cases hrow : T.get? key with
  | none => simp
  | some row =>
    simp only [Option.map_some, Option.some.injEq, exists_eq_left']
    split
    · next h => simp [h]
    · next h =>
      refine ⟨fun hactive ↦ ⟨hactive, fun hown ↦ h ⟨hown.1, hown.2, hactive⟩⟩, And.left⟩

theorem mem_active_upserts (hrows : ∀ row ∈ rows, row.2.isActive) :
    key ∈ activeInstruments (rows.foldl upsert T) ↔
      key ∈ activeInstruments T ∨ key.1 = provider ∧ key.2 ∈ rows.map Prod.fst := by
  induction rows generalizing T with
  | nil => simp
  | cons row rows ih =>
    obtain ⟨hrow, hrows⟩ := List.forall_mem_cons.mp hrows
    have hone : key ∈ activeInstruments (upsert T row) ↔
        key ∈ activeInstruments T ∨ key = (provider, row.1) := by
      simp only [activeInstruments, upsert, Set.mem_ofPred_eq, Table.get?_assign]
      by_cases hkey : key = (provider, row.1)
      · simp [hkey, hrow]
      · simp [hkey]
    rw [List.foldl_cons, ih hrows, hone, List.map_cons, List.mem_cons, or_assoc, Prod.ext_iff]
    tauto

/-- The rows written leave active what was: all of it is among them, and nothing else is. -/
structure Recovered (exchange : String) (T : InstrumentTable) (rows : List (String × Instrument)) :
    Prop where
  all : ∀ instrumentKey row, T.get? (provider, instrumentKey) = some row →
    row.exchange = exchange → row.isActive → instrumentKey ∈ rows.map Prod.fst
  only : ∀ row ∈ rows, (provider, row.1) ∈ activeInstruments T

theorem activeInstruments_eq_iff (exchange : String) (T : InstrumentTable)
    (hrows : ∀ row ∈ rows, row.2.isActive) :
    activeInstruments (rows.foldl upsert (deactivate exchange T)) = activeInstruments T ↔
      Recovered exchange T rows := by
  rw [Set.ext_iff]
  simp only [mem_active_upserts hrows, mem_active_deactivate]
  constructor
  · intro hsame
    refine ⟨fun instrumentKey row hrow hexchange hactive ↦ ?_, fun row hmem ↦ ?_⟩
    · rcases (hsame (provider, instrumentKey)).mpr ⟨row, hrow, hactive⟩ with ⟨-, hother⟩ | hwritten
      · exact absurd ⟨rfl, row, hrow, hexchange⟩ hother
      · exact hwritten.2
    · exact (hsame (provider, row.1)).mp (.inr ⟨rfl, List.mem_map_of_mem hmem⟩)
  · rintro ⟨hall, honly⟩ ⟨owner, instrumentKey⟩
    constructor
    · rintro (⟨hactive, -⟩ | ⟨rfl, hwritten⟩)
      · exact hactive
      · obtain ⟨row, hmem, rfl⟩ := List.mem_map.mp hwritten
        exact honly row hmem
    · intro hactive
      by_cases hown : owner = provider ∧
          ∃ row, T.get? (owner, instrumentKey) = some row ∧ row.exchange = exchange
      · obtain ⟨rfl, row, hrow, hexchange⟩ := hown
        obtain ⟨row', hrow', hrowactive⟩ := hactive
        obtain rfl := Option.some.inj (hrow.symm.trans hrow')
        exact .inr ⟨rfl, hall instrumentKey row hrow hexchange hrowactive⟩
      · exact .inl ⟨hactive, hown⟩

theorem parseRecord_spec {record : Except SyncError RawRecord} {row : String × Instrument}
    (h : parseRecord exchange record = .ok (some row)) :
    row.2.isActive ∧ row.2.exchange = exchange := by
  obtain ⟨raw, -, h⟩ := bind_eq_ok.mp h
  split at h
  · obtain ⟨expiry, -, h⟩ := bind_eq_ok.mp h
    obtain ⟨strike, -, h⟩ := bind_eq_ok.mp h
    obtain rfl := Option.some.inj (Except.ok.inj h)
    exact ⟨rfl, rfl⟩
  · cases h

theorem parseRecords_spec {records : List (Except SyncError RawRecord)}
    (h : parseRecords exchange records = .ok rows) :
    ∀ row ∈ rows, row.2.isActive ∧ row.2.exchange = exchange := by
  obtain ⟨results, hresults, h⟩ := bind_eq_ok.mp h
  obtain rfl := Except.ok.inj h
  intro row hrow
  obtain ⟨record, -, hparsed⟩ := exists_of_mem_mapM hresults (List.reduceOption_mem_iff.mp hrow)
  exact parseRecord_spec hparsed

theorem flatten_chunksOf {β : Type} (count : ℕ) (l : List β) :
    (chunksOf count l).flatten = l.take (chunkSize * count) := by
  induction count generalizing l with
  | zero => rfl
  | succ count ih =>
    rw [chunksOf, List.flatten_cons, ih, Nat.mul_succ, Nat.add_comm, List.take_add]

theorem flatten_chunks {β : Type} (l : List β) : (chunks l).flatten = l := by
  rw [chunks, flatten_chunksOf, List.take_of_length_le]
  have hceil := Nat.div_add_mod (l.length + chunkSize - 1) chunkSize
  have hmod := Nat.mod_lt (l.length + chunkSize - 1) (by decide : 0 < chunkSize)
  unfold chunkSize at *
  omega

theorem written_subset (onChunk : ℕ → Option SyncError) (i : ℕ)
    (cs : List (List (String × Instrument))) :
    (written onChunk i cs).1 ⊆ cs.flatten ∧
      ((written onChunk i cs).2 = none → (written onChunk i cs).1 = cs.flatten) := by
  induction cs generalizing i with
  | nil => exact ⟨List.Subset.refl _, fun _ ↦ rfl⟩
  | cons chunk rest ih =>
    obtain ⟨hsubset, hwhole⟩ := ih (i + 1)
    rw [written]
    split
    · exact ⟨List.nil_subset _, fun h ↦ by cases h⟩
    · rw [List.flatten_cons]
      refine ⟨List.append_subset.mpr ⟨List.subset_append_left _ _, ?_⟩, fun h ↦ ?_⟩
      · exact List.Subset.trans hsubset (List.subset_append_right _ _)
      · rw [hwhole h]

theorem upsertChunks_eq (onChunk : ℕ → Option SyncError) (i : ℕ)
    (cs : List (List (String × Instrument))) (s : Session) :
    s.upsertChunks onChunk i cs =
      ((written onChunk i cs).2.elim (s.mapInstruments ((written onChunk i cs).1.foldl upsert))
        (s.mapInstruments ((written onChunk i cs).1.foldl upsert)).fail,
        (written onChunk i cs).2) := by
  induction cs generalizing i s with
  | nil => rfl
  | cons chunk rest ih =>
    rw [Session.upsertChunks, written]
    cases hfails : chunkError onChunk i chunk with
    | some e => rfl
    | none =>
      have hboth : (s.mapInstruments (chunk.foldl upsert)).mapInstruments
          ((written onChunk (i + 1) rest).1.foldl upsert) =
          s.mapInstruments ((chunk ++ (written onChunk (i + 1) rest).1).foldl upsert) := by
        simp only [Session.mapInstruments, List.foldl_append]
      simp only [ih, hboth]

def listedKeys (exchange : String) (input : SyncInput) : List String :=
  match input.fetched with
  | .error _ => []
  | .ok records =>
    match parseRecords exchange records with
    | .error _ => []
    | .ok parsed => parsed.map Prod.fst

/-- The database with the rows upserted after the `UPDATE`. -/
def Database.rewritten (db : Database) (exchange : String) (rows : List (String × Instrument)) :
    Database :=
  { db with instruments := rows.foldl upsert (deactivate exchange db.instruments) }

/-- How a sync in a new session ends. -/
inductive SyncEnd (db : Database) (exchange : String) (input : SyncInput) :
    Session × Except SyncError ℕ → Prop
  | kept (e : SyncError) (hend : interrupted exchange input = none) :
      SyncEnd db exchange input (⟨db, db, false⟩, .error e)
  | aborted (e : SyncError) (working : Database) (hend : interrupted exchange input = none) :
      SyncEnd db exchange input (⟨db, working, true⟩, .error e)
  | halted (e : SyncError) (rows : List (String × Instrument))
      (hend : interrupted exchange input = some rows) (hrows : ∀ row ∈ rows, row.2.isActive) :
      SyncEnd db exchange input (⟨db, db.rewritten exchange rows, false⟩, .error e)
  | done (parsed : List (String × Instrument)) (hend : interrupted exchange input = none)
      (hrows : ∀ row ∈ parsed, row.2.isActive ∧ row.2.exchange = exchange)
      (hlisted : listedKeys exchange input = parsed.map Prod.fst) :
      SyncEnd db exchange input
        (⟨db.rewritten exchange parsed, db.rewritten exchange parsed, false⟩, .ok parsed.length)

theorem sync_end (db : Database) (exchange : String) (input : SyncInput) :
    SyncEnd db exchange input ((Session.new db).sync exchange input) := by
  rw [Session.sync]
  cases hfetched : input.fetched with
  | error e => exact .kept e (by simp only [interrupted, hfetched])
  | ok records =>
    cases hupdate : input.onUpdate with
    | some e =>
      have hend : interrupted exchange input = none := by simp only [interrupted, hfetched, hupdate]
      cases e with
      | python => exact .kept _ hend
      | database => exact .aborted _ db hend
    | none =>
      cases hparsed : parseRecords exchange records with
      | error e =>
        have hend : interrupted exchange input = some [] := by
          simp only [interrupted, hfetched, hupdate, hparsed]
        simp only [hparsed]
        exact .halted e [] hend fun row hrow ↦ absurd hrow List.not_mem_nil
      | ok parsed =>
        have hspec := parseRecords_spec hparsed
        obtain ⟨hsubset, hwhole⟩ := written_subset input.onChunk 0 (chunks parsed)
        rw [flatten_chunks] at hsubset hwhole
        simp only [hparsed, upsertChunks_eq]
        have hend : interrupted exchange input =
            match written input.onChunk 0 (chunks parsed) with
            | (rows, some .python) => some rows
            | _ => none := by
          simp only [interrupted, hfetched, hupdate, hparsed]
        cases hwritten : written input.onChunk 0 (chunks parsed) with
        | mk rows e =>
          rw [hwritten] at hend hsubset hwhole
          simp only
          cases e with
          | some e =>
            cases e with
            | python => exact .halted _ rows hend fun row hrow ↦ (hspec row (hsubset hrow)).1
            | database => exact .aborted _ _ hend
          | none =>
            obtain rfl := hwhole rfl
            cases hcommit : input.commitFails with
            | true => exact .aborted _ _ hend
            | false =>
              refine .done rows hend hspec ?_
              simp only [listedKeys, hfetched, hparsed]

/-- The turns leave the instruments alone, and commit at most what they see. -/
theorem ingestSymbols_spec (turn : String → String → Turn) (symbols : List String) (s : Session) :
    (∀ view ∈ (ingestSymbols turn s symbols).1, view = s.working.instruments) ∧
      (symbols ≠ [] → (ingestSymbols turn s symbols).1 ≠ []) ∧
      ((ingestSymbols turn s symbols).2.committed.instruments = s.committed.instruments ∨
        (ingestSymbols turn s symbols).2.committed.instruments = s.working.instruments) := by
  induction symbols generalizing s with
  | nil => exact ⟨fun view hview ↦ absurd hview List.not_mem_nil, fun h ↦ absurd rfl h, .inl rfl⟩
  | cons symbol symbols ih =>
    rw [ingestSymbols]
    cases resolveInstrumentKey s.working.instruments symbol "NSE" with
    | none =>
      obtain ⟨hviews, -, hcommitted⟩ := ih s
      exact ⟨List.forall_mem_cons.mpr ⟨rfl, hviews⟩, fun _ ↦ List.cons_ne_nil _ _, hcommitted⟩
    | some instrumentKey =>
      dsimp only
      cases turn symbol instrumentKey with
      | nothing =>
        obtain ⟨hviews, -, hcommitted⟩ := ih s
        exact ⟨List.forall_mem_cons.mpr ⟨rfl, hviews⟩, fun _ ↦ List.cons_ne_nil _ _, hcommitted⟩
      | written provenance =>
        obtain ⟨hviews, -, hcommitted⟩ := ih (s.upsertProvenance symbol provenance)
        exact ⟨List.forall_mem_cons.mpr ⟨rfl, hviews⟩, fun _ ↦ List.cons_ne_nil _ _,
          .inr (hcommitted.elim id id)⟩
      | raised =>
        exact ⟨List.forall_mem_cons.mpr ⟨rfl, fun view hview ↦ absurd hview List.not_mem_nil⟩,
          fun _ ↦ List.cons_ne_nil _ _, .inl rfl⟩

/-- The run sees and commits what a sync does wholly or not at all. -/
structure Atomic (exchange : String) (input : SyncInput) (db : Database)
    (result : IngestionResult) : Prop where
  failed : ∀ e, result.synced = .error e →
    (∀ view ∈ result.views, activeInstruments view = activeInstruments db.instruments) ∧
      activeInstruments result.committed.instruments = activeInstruments db.instruments
  succeeded : ∀ count, result.synced = .ok count →
    (∀ instrumentKey,
      (∃ row, result.committed.instruments.get? (provider, instrumentKey) = some row ∧
        row.exchange = exchange ∧ row.isActive) ↔ instrumentKey ∈ listedKeys exchange input) ∧
      (∀ view ∈ result.views, view = result.committed.instruments) ∧
      ∀ key, db.instruments.get? key ≠ none → result.committed.instruments.get? key ≠ none

theorem get?_rewritten (db : Database) (exchange : String) (rows : List (String × Instrument))
    (key : String × String) : (db.rewritten exchange rows).instruments.get? key =
      ((lastOf (fun row : String × Instrument ↦ (provider, row.1)) rows key).map Prod.snd).or
        ((deactivate exchange db.instruments).get? key) :=
  Table.get?_foldl_assign (fun row : String × Instrument ↦ (provider, row.1)) Prod.snd rows _ key

theorem active_rewritten_iff (hrows : ∀ row ∈ rows, row.2.isActive ∧ row.2.exchange = exchange)
    (instrumentKey : String) :
    (∃ row, (db.rewritten exchange rows).instruments.get? (provider, instrumentKey) = some row ∧
      row.exchange = exchange ∧ row.isActive) ↔ instrumentKey ∈ rows.map Prod.fst := by
  rw [get?_rewritten]
  cases hlast : lastOf (fun row : String × Instrument ↦ (provider, row.1)) rows
      (provider, instrumentKey) with
  | some row =>
    obtain ⟨hmem, hkey⟩ := of_lastOf_eq_some hlast
    obtain ⟨hactive, hexchange⟩ := hrows row hmem
    refine iff_of_true ⟨row.2, rfl, hexchange, hactive⟩ ?_
    exact (Prod.mk.inj hkey).2 ▸ List.mem_map_of_mem hmem
  | none =>
    refine iff_of_false ?_ fun hmem ↦ ?_
    · rintro ⟨row, hrow, hexchange, hactive⟩
      have hdeactivated : (provider, instrumentKey) ∈
          activeInstruments (deactivate exchange db.instruments) := ⟨row, hrow, hactive⟩
      have hrow' := hrow
      rw [Option.map_none, Option.none_or, deactivate, Table.get?_mapVals] at hrow'
      obtain ⟨old, hold, hnew⟩ := Option.map_eq_some_iff.mp hrow'
      refine (mem_active_deactivate.mp hdeactivated).2 ⟨rfl, old, hold, ?_⟩
      split at hnew
      · next hown => exact hown.2.1
      · exact hnew ▸ hexchange
    · obtain ⟨row, hrow, rfl⟩ := List.mem_map.mp hmem
      exact lastOf_eq_none.mp hlast row hrow rfl

theorem known_rewritten (h : db.instruments.get? key ≠ none) :
    (db.rewritten exchange rows).instruments.get? key ≠ none := by
  rw [get?_rewritten, deactivate, Table.get?_mapVals]
  intro hnone
  obtain ⟨-, hrow⟩ := Option.or_eq_none_iff.mp hnone
  exact h (Option.map_eq_none_iff.mp hrow)

/-- The run goes on with what the database had, unless an exception in Python ends the sync between
the `UPDATE` and the commit, there is a symbol to look up, and the rows already written do not
amount to the instruments active before. -/
theorem sync_atomic_iff (input : SyncInput) (turn : String → String → Turn)
    (targetSymbols : List String) (db : Database) :
    Atomic "NSE" input db (runIncrementalIngestion input turn targetSymbols db) ↔
      targetSymbols = [] ∨
        ∀ rows ∈ interrupted "NSE" input, Recovered "NSE" db.instruments rows := by
  have hend := sync_end db "NSE" input
  rw [runIncrementalIngestion]
  generalize (Session.new db).sync "NSE" input = outcome at hend
  cases hend with
  | kept e hend =>
    obtain ⟨hviews, -, hcommitted⟩ := ingestSymbols_spec turn targetSymbols (Session.new db)
    have hkept : (ingestSymbols turn (Session.new db) targetSymbols).2.committed.instruments =
        db.instruments := hcommitted.elim id id
    refine iff_of_true ⟨fun _ _ ↦ ⟨fun view hview ↦ ?_, ?_⟩, fun _ h ↦ by cases h⟩ (.inr ?_)
    · rw [hviews view hview]
      rfl
    · exact congrArg activeInstruments hkept
    · rw [hend]
      exact fun rows hrows ↦ by cases hrows
  | aborted e working hend =>
    refine iff_of_true ⟨fun _ _ ↦ ⟨?_, rfl⟩, fun _ h ↦ by cases h⟩ (.inr ?_)
    · exact fun view hview ↦ absurd hview List.not_mem_nil
    · rw [hend]
      exact fun rows hrows ↦ by cases hrows
  | halted e rows hend hrows =>
    obtain ⟨hviews, hnonempty, hcommitted⟩ :=
      ingestSymbols_spec turn targetSymbols ⟨db, db.rewritten "NSE" rows, false⟩
    have hsame := activeInstruments_eq_iff "NSE" db.instruments hrows
    rw [hend]
    simp only [Option.mem_some, forall_eq']
    constructor
    · rintro ⟨hfailed, -⟩
      refine or_iff_not_imp_left.mpr fun hsome ↦ hsame.mp ?_
      obtain ⟨view, hview⟩ := List.exists_mem_of_ne_nil _ (hnonempty hsome)
      have hseen := (hfailed e rfl).1 view hview
      rw [hviews view hview] at hseen
      exact hseen
    · rintro (rfl | hrecovered)
      · refine ⟨fun _ _ ↦ ⟨fun view hview ↦ ?_, rfl⟩, fun _ h ↦ by cases h⟩
        exact absurd hview List.not_mem_nil
      · have hactive := hsame.mpr hrecovered
        refine ⟨fun _ _ ↦ ⟨fun view hview ↦ ?_, ?_⟩, fun _ h ↦ by cases h⟩
        · rw [hviews view hview]
          exact hactive
        · rcases hcommitted with hcommitted | hcommitted
          · exact congrArg activeInstruments hcommitted
          · exact (congrArg activeInstruments hcommitted).trans hactive
  | done parsed hend hrows hlisted =>
    obtain ⟨hviews, -, hcommitted⟩ := ingestSymbols_spec turn targetSymbols
      ⟨db.rewritten "NSE" parsed, db.rewritten "NSE" parsed, false⟩
    have hfinal : (ingestSymbols turn ⟨db.rewritten "NSE" parsed, db.rewritten "NSE" parsed, false⟩
        targetSymbols).2.committed.instruments = (db.rewritten "NSE" parsed).instruments :=
      hcommitted.elim id id
    refine iff_of_true ⟨fun _ h ↦ (by cases h), fun _ _ ↦ ?_⟩ (.inr ?_)
    · simp only [Bool.false_eq_true, if_false, hfinal]
      refine ⟨fun instrumentKey ↦ ?_, hviews, fun key ↦ known_rewritten⟩
      rw [hlisted]
      exact active_rewritten_iff hrows instrumentKey
    · rw [hend]
      exact fun rows hrows ↦ by cases hrows

namespace Reliance

def row : Instrument :=
  ⟨"NSE", "NSE_EQ", "RELIANCE", "Reliance Industries", "EQ", none, none, none, none, none, true⟩

def database : Database := ⟨Table.empty.put ("upstox_v3", "NSE_EQ|INE002A01018") row, .empty⟩

/-- A future whose `expiry` is a text. -/
def badRecord : RawRecord :=
  ⟨some "FUT", some "NSE_FO|1", some "TCS FUT", some "TCS", some "NSE_FO", none,
    some (.error .python), none, none, none⟩

def badFile : SyncInput := ⟨.ok [.ok badRecord], none, fun _ ↦ none, false⟩

/-- The sync fails on the record, and the symbol no longer has an instrument. -/
theorem sync_not_atomic : ¬ Atomic "NSE" badFile database
    (runIncrementalIngestion badFile (fun _ _ ↦ .nothing) ["RELIANCE"] database) := by
  intro hatomic
  have hbefore : ("upstox_v3", "NSE_EQ|INE002A01018") ∈ activeInstruments database.instruments :=
    ⟨row, rfl, rfl⟩
  obtain ⟨hviews, -⟩ := hatomic.failed .python rfl
  rw [← hviews _ List.mem_cons_self] at hbefore
  obtain ⟨row, hrow, hactive⟩ := hbefore
  obtain rfl := Option.some.inj hrow
  exact Bool.false_ne_true hactive

end Reliance

end TradingOS.Data.InstrumentSync
