import TradingOS.Core.AuditChainMonitor
import TradingOS.Lib.Fallible
import TradingOS.Lib.Lists
import TradingOS.Lib.PyInt
import TradingOS.Lib.Runs

namespace TradingOS.Core.AuditArchive

open Lib Lib.Runs Lib.PyInt

section Keys

def keyHead : List Char := "audit-log/".toList

def keyTail : List Char := ".json".toList

/-- `{row_id:012d}`. -/
def padded (id : ℕ) : List Char :=
  List.replicate (12 - (Nat.toDigits 10 id).length) '0' ++ Nat.toDigits 10 id

def objectKey (id : ℕ) : List Char := keyHead ++ padded id ++ keyTail

/-- The slice between head and tail. -/
def stem (key : List Char) : List Char := (key.take (key.length - keyTail.length)).drop keyHead.length

/-- The id a key is listed as; `none` is a `ValueError`. -/
def idOfKey (key : List Char) : Option ℤ := intOfText (codePoints (stem key))

theorem stem_objectKey (id : ℕ) : stem (objectKey id) = padded id := by
  have hlength : (objectKey id).length - keyTail.length = (keyHead ++ padded id).length := by
    rw [objectKey, List.length_append, Nat.add_sub_cancel]
  rw [stem, hlength, objectKey, List.take_left, List.drop_left]

theorem isDigit_of_mem_padded {id : ℕ} {c : Char} (h : c ∈ padded id) : c.isDigit := by
  rcases List.mem_append.mp h with h | h
  · obtain rfl := List.eq_of_mem_replicate h
    rfl
  · exact isDigit_of_mem_toDigits h

theorem naturalOf_padded {id : ℕ} (h : (padded id).length ≤ intMaxStrDigits) :
    naturalOf (padded id) = some id := by
  have hline : '_' ∉ padded id := by
    intro hin
    cases isDigit_of_mem_padded hin
  have hruns : (padded id).splitOn '_' = [padded id] := List.splitOn_eq_singleton hline
  have hdigits : (padded id).all Char.isDigit := List.all_eq_true.mpr fun c hc ↦ isDigit_of_mem_padded hc
  have hvalue : Nat.ofDigitChars 10 (padded id) 0 = id := by
    rw [padded, Nat.ofDigitChars_append, Nat.ofDigitChars_replicate_zero, Nat.mul_zero,
      Nat.ofDigitChars_ten_toDigits]
  have hne : padded id ≠ [] := fun hnil ↦ by
    have hlast := (List.append_eq_nil_iff.mp hnil).2
    exact absurd hlast (Nat.toDigits_ne_nil)
  simp [naturalOf, hruns, hdigits, h, hvalue, hne]

/-- Digits are read as they stand: there is no sign, and nothing to strip. -/
theorem intOfText_digits {text : List Char} (h : ∀ c ∈ text, c.isDigit) :
    intOfText (codePoints text) = (naturalOf text).map Int.ofNat := by
  have hnumeric : ∀ c ∈ text, isNumeric c := fun c hc ↦ isNumeric_of_isDigit (h c hc)
  have hascii : (codePoints text).map toAscii = text := by
    have hself : ∀ c ∈ text, toAscii (.char c) = c := fun c hc ↦
      toAscii_of_lt (toNat_of_isNumeric (hnumeric c hc)).2
    rw [codePoints, List.map_map]
    exact (List.map_congr_left hself).trans (List.map_id _)
  have hspace : ∀ c ∈ text, ¬ isAsciiSpace c := fun c hc ↦ by
    rw [isAsciiSpace_of_isNumeric (hnumeric c hc)]
    exact Bool.false_ne_true
  have hleft : text.dropWhile isAsciiSpace = text :=
    List.dropWhile_eq_self_iff.mpr fun hlength ↦ hspace _ (List.getElem_mem hlength)
  have hright : text.rdropWhile isAsciiSpace = text :=
    List.rdropWhile_eq_self_iff.mpr fun hne ↦ hspace _ (List.getLast_mem hne)
  have hsign {c : Char} (hc : c.isDigit = false) (rest : List Char) : text ≠ c :: rest := by
    intro heq
    have hdigit := h c (heq ▸ List.mem_cons_self)
    rw [hc] at hdigit
    cases hdigit
  rw [intOfText, hascii, hleft, hright, signedOf]
  · exact hsign rfl
  · exact hsign rfl

/-- The ids of the table are of type `BIGINT`. -/
def idBound : ℕ := 2 ^ 63

theorem length_padded {id : ℕ} (h : id < idBound) : (padded id).length ≤ intMaxStrDigits := by
  have hdigits : (Nat.toDigits 10 id).length ≤ 19 := by
    rw [Nat.length_toDigits_le_iff (by decide) (by decide)]
    exact h.trans (by decide)
  rw [padded, List.length_append, List.length_replicate, intMaxStrDigits]
  omega

/-- The listing reads each key as the id it was made of. -/
theorem idOfKey_objectKey {id : ℕ} (h : id < idBound) : idOfKey (objectKey id) = some (id : ℤ) := by
  rw [idOfKey, stem_objectKey, intOfText_digits fun c hc ↦ isDigit_of_mem_padded hc,
    naturalOf_padded (length_padded h)]
  rfl

theorem objectKey_inj {id id' : ℕ} (h : id < idBound) (h' : id' < idBound)
    (heq : objectKey id = objectKey id') : id = id' := by
  have hread := (idOfKey_objectKey h).symm.trans ((congrArg idOfKey heq).trans (idOfKey_objectKey h'))
  exact Int.ofNat.inj (Option.some.inj hread)

end Keys

/-- One `put_object`: a version of the object under its key, locked until it may be deleted. -/
structure ObjectVersion where
  key : List Char
  body : Archived
  retainUntil : ℕ

/-- Seven years, in seconds. -/
def retention : ℕ := 365 * 7 * 86400

/-- A bucket with its lock, once it has been made. -/
abbrev Bucket := Option (List ObjectVersion)

inductive ArchiveError
  | noSuchBucket
  | valueError
  deriving DecidableEq

/-- The ids of the objects listed; a key that is no id ends the call. -/
def listArchivedIds : Bucket → Except ArchiveError (List ℤ)
  | none => .error .noSuchBucket
  | some versions =>
    match (versions.map ObjectVersion.key).mapM idOfKey with
    | some ids => .ok ids
    | none => .error .valueError

/-- The last version of the object, where there is one. -/
def fetchArchivedRow (bucket : Bucket) (id : ℕ) : Except ArchiveError (Option Archived) :=
  match bucket with
  | none => .error .noSuchBucket
  | some versions =>
    .ok ((versions.reverse.find? (·.key = objectKey id)).map ObjectVersion.body)

/-- Where a call of `archive_pending_rows` stands. -/
inductive Cycle
  | queried (rows : List AuditLog)
  | archiving (rows pending : List AuditLog) (archivedCount failureCount : ℕ)
  | returned (rows : List AuditLog) (archivedCount failureCount : ℕ)
  | raised

/-- The loop goes on, or is over. -/
def Cycle.next (rows pending : List AuditLog) (archivedCount failureCount : ℕ) : Cycle :=
  if pending = [] then .returned rows archivedCount failureCount
  else .archiving rows pending archivedCount failureCount

/-- A call that raises may have stored the object all the same. -/
inductive PutOutcome
  | stored
  | raised (stored : Bool)

/-- The audit log, the bucket and the calls that have been made, by whichever process. -/
structure State where
  clock : ℕ
  log : List AuditLog
  bucket : Bucket
  cycles : List Cycle

inductive Event
  | tick (seconds : ℕ)
  | write (row : AuditLog)
  | start (cutoff : Datetime)
  | list (cycle : ℕ)
  | archive (cycle : ℕ) (outcome : PutOutcome)
  | abort (cycle : ℕ)

namespace State

def init : State := ⟨0, [], none, []⟩

variable (s : State)

def versions : List ObjectVersion := s.bucket.getD []

def setCycle (i : ℕ) (cycle : Cycle) : State := { s with cycles := s.cycles.set i cycle }

/-- `ensure_bucket` and the query. -/
def start (cutoff : Datetime) : State :=
  let rows := (s.log.filter fun row ↦ row.content.createdAt.parts < cutoff.parts).insertionSort
    fun a b ↦ a.id ≤ b.id
  { s with
    bucket := some s.versions
    cycles := s.cycles ++ [if rows = [] then .returned rows 0 0 else .queried rows] }

def archiveRow (row : AuditLog) : State :=
  { s with
    bucket := s.bucket.map (· ++ [⟨objectKey row.id, row.serialize, s.clock + retention⟩]) }

def step : Event → Option State
  | .tick seconds => some { s with clock := s.clock + seconds }
  | .write row =>
    if row.id < idBound ∧ row.id ∉ s.log.map AuditLog.id then some { s with log := s.log ++ [row] }
    else none
  | .start cutoff => some (s.start cutoff)
  | .list i =>
    match s.cycles[i]? with
    | some (.queried rows) =>
      match listArchivedIds s.bucket with
      | .error _ => some (s.setCycle i .raised)
      | .ok ids =>
        some (s.setCycle i (.next rows (rows.filter fun row ↦ (row.id : ℤ) ∉ ids) 0 0))
    | _ => none
  | .archive i outcome =>
    match s.cycles[i]? with
    | some (.archiving rows (row :: pending) archivedCount failureCount) =>
      match outcome with
      | .stored =>
        some ((s.archiveRow row).setCycle i (.next rows pending (archivedCount + 1) failureCount))
      | .raised true =>
        some ((s.archiveRow row).setCycle i (.next rows pending archivedCount (failureCount + 1)))
      | .raised false => some (s.setCycle i (.next rows pending archivedCount (failureCount + 1)))
    | _ => none
  | .abort i =>
    match s.cycles[i]? with
    | some (.queried _) | some (.archiving ..) => some (s.setCycle i .raised)
    | _ => none

/-- There is an object for the id. -/
def Has (id : ℕ) : Prop := objectKey id ∈ s.versions.map ObjectVersion.key

instance (id : ℕ) : Decidable (s.Has id) := inferInstanceAs (Decidable (_ ∈ _))

/-- A version is a copy of a row, locked for seven years from when it was put. -/
structure Copy (v : ObjectVersion) : Prop where
  row : ∃ row ∈ s.log, v.key = objectKey row.id ∧ v.body = row.serialize
  locked : ∃ putAt ≤ s.clock, v.retainUntil = putAt + retention

/-- No more of the rows a call has seen are missing than it has counted as failed. -/
def CycleSound : Cycle → Prop
  | .queried rows => (rows.map AuditLog.id).Nodup ∧ ∀ row ∈ rows, row ∈ s.log
  | .archiving rows pending _ failureCount => (rows.map AuditLog.id).Nodup ∧ (∀ row ∈ rows, row ∈ s.log) ∧
      (∀ row ∈ pending, row ∈ rows) ∧
      (rows.countP fun row ↦ row.id ∉ pending.map AuditLog.id ∧ ¬ s.Has row.id) ≤ failureCount
  | .returned rows _ failureCount => (rows.countP fun row ↦ ¬ s.Has row.id) ≤ failureCount
  | .raised => True

structure Sound : Prop where
  ids : ∀ row ∈ s.log, row.id < idBound
  nodup : (s.log.map AuditLog.id).Nodup
  versions : ∀ v ∈ s.versions, s.Copy v
  cycles : ∀ cycle ∈ s.cycles, s.CycleSound cycle
  made : s.cycles ≠ [] → s.bucket.isSome

variable {s} {t : State}

theorem bucket_eq (hmade : s.bucket.isSome) : s.bucket = some s.versions := by
  obtain ⟨versions, hversions⟩ := Option.isSome_iff_exists.mp hmade
  rw [State.versions, hversions, Option.getD_some]

theorem versions_archiveRow (hmade : s.bucket.isSome) (row : AuditLog) :
    (s.archiveRow row).versions =
      s.versions ++ [⟨objectKey row.id, row.serialize, s.clock + retention⟩] := by
  rw [versions, archiveRow, bucket_eq hmade, Option.map_some, Option.getD_some]

section Listing

theorem Sound.exists_id (h : s.Sound) {key : List Char} (hkey : key ∈ s.versions.map ObjectVersion.key) :
    ∃ id < idBound, key = objectKey id := by
  obtain ⟨v, hv, rfl⟩ := List.mem_map.mp hkey
  obtain ⟨row, hrow, hsame, -⟩ := (h.versions v hv).row
  exact ⟨row.id, h.ids row hrow, hsame⟩

/-- The listing of a bucket that has been made goes through, and tells what there is. -/
theorem Sound.listed (h : s.Sound) (hmade : s.bucket.isSome) :
    ∃ ids, listArchivedIds s.bucket = .ok ids ∧ ∀ id < idBound, (id : ℤ) ∈ ids ↔ s.Has id := by
  have hread : ∀ key ∈ s.versions.map ObjectVersion.key, idOfKey key = some ((idOfKey key).getD 0) := by
    intro key hkey
    obtain ⟨id, hid, rfl⟩ := h.exists_id hkey
    rw [idOfKey_objectKey hid, Option.getD_some]
  have hlisting : listArchivedIds s.bucket =
      .ok ((s.versions.map ObjectVersion.key).map fun key ↦ (idOfKey key).getD 0) := by
    rw [bucket_eq hmade, listArchivedIds, mapM_eq_some hread]
  refine ⟨_, hlisting, fun id hid ↦ ?_⟩
  rw [mem_of_mapM (mapM_eq_some hread)]
  constructor
  · rintro ⟨key, hkey, hvalue⟩
    obtain ⟨id', hid', rfl⟩ := h.exists_id hkey
    rw [idOfKey_objectKey hid'] at hvalue
    rwa [Int.ofNat.inj (Option.some.inj hvalue)] at hkey
  · exact fun hhas ↦ ⟨objectKey id, hhas, idOfKey_objectKey hid⟩

/-- What is fetched is the row it was made of. -/
theorem Sound.fetched (h : s.Sound) (hmade : s.bucket.isSome) {id : ℕ} (hid : id < idBound) :
    ∃ found, fetchArchivedRow s.bucket id = .ok found ∧ ∀ body, found = some body ↔
      s.Has id ∧ ∃ row ∈ s.log, row.id = id ∧ row.serialize = body := by
  have hcopy {v : ObjectVersion} (hfind : s.versions.reverse.find? (·.key = objectKey id) = some v) :
      s.Has id ∧ ∃ row ∈ s.log, row.id = id ∧ row.serialize = v.body := by
    have hv := List.mem_reverse.mp (List.mem_of_find?_eq_some hfind)
    have hfound := List.find?_some hfind
    have hkey : v.key = objectKey id := of_decide_eq_true hfound
    obtain ⟨row, hrow, hsame, hbody⟩ := (h.versions v hv).row
    refine ⟨?_, row, hrow, ?_, hbody.symm⟩
    · rw [Has, ← hkey]
      exact List.mem_map_of_mem hv
    · exact objectKey_inj (h.ids row hrow) hid (hsame.symm.trans hkey)
  refine ⟨_, by rw [bucket_eq hmade, fetchArchivedRow], fun body ↦ ?_⟩
  rw [Option.map_eq_some_iff]
  constructor
  · rintro ⟨v, hfind, rfl⟩
    exact hcopy hfind
  · rintro ⟨hhas, row, hrow, rfl, rfl⟩
    obtain ⟨v, hv, hkey⟩ := List.mem_map.mp hhas
    have hsome : (s.versions.reverse.find? (·.key = objectKey row.id)).isSome :=
      List.find?_isSome.mpr ⟨v, List.mem_reverse.mpr hv, decide_eq_true hkey⟩
    obtain ⟨v', hfind⟩ := Option.isSome_iff_exists.mp hsome
    obtain ⟨-, row', hrow', hid', hbody⟩ := hcopy hfind
    have hrows : row' = row := by
      by_contra hne
      exact hne (List.inj_on_of_nodup_map h.nodup hrow' hrow hid')
    exact ⟨v', hfind, hrows ▸ hbody.symm⟩

end Listing

section Steps

/-- What the steps never take back. -/
structure Grows (s t : State) : Prop where
  clock : s.clock ≤ t.clock
  log : ∀ row ∈ s.log, row ∈ t.log
  has : ∀ id, s.Has id → t.Has id

theorem Grows.copy (h : Grows s t) {v : ObjectVersion} (hv : s.Copy v) : t.Copy v where
  row := by
    obtain ⟨row, hrow, hsame⟩ := hv.row
    exact ⟨row, h.log row hrow, hsame⟩
  locked := by
    obtain ⟨putAt, hle, hlock⟩ := hv.locked
    exact ⟨putAt, hle.trans h.clock, hlock⟩

theorem Grows.cycleSound (h : Grows s t) {cycle : Cycle} (hc : s.CycleSound cycle) :
    t.CycleSound cycle := by
  cases cycle with
  | queried rows => exact ⟨hc.1, fun row hrow ↦ h.log row (hc.2 row hrow)⟩
  | archiving rows pending archivedCount failureCount =>
    obtain ⟨hnodup, hlog, hpending, hcount⟩ := hc
    refine ⟨hnodup, fun row hrow ↦ h.log row (hlog row hrow), hpending, ?_⟩
    refine (List.countP_mono_left fun row _ hmissing ↦ ?_).trans hcount
    obtain ⟨hnot, hmissing⟩ := of_decide_eq_true hmissing
    exact decide_eq_true ⟨hnot, fun hhas ↦ hmissing (h.has _ hhas)⟩
  | returned rows archivedCount failureCount =>
    refine (List.countP_mono_left fun row _ hmissing ↦ ?_).trans hc
    exact decide_eq_true fun hhas ↦ of_decide_eq_true hmissing (h.has _ hhas)
  | raised => trivial

theorem Sound.setCycle (h : s.Sound) (i : ℕ) {cycle : Cycle} (hcycle : s.CycleSound cycle) :
    (s.setCycle i cycle).Sound where
  ids := h.ids
  nodup := h.nodup
  versions := fun v hv ↦ ⟨(h.versions v hv).row, (h.versions v hv).locked⟩
  cycles := by
    intro c hc
    rcases List.mem_or_eq_of_mem_set hc with hc | rfl
    · exact h.cycles c hc
    · exact hcycle
  made := fun hne ↦ h.made fun hnil ↦ hne (by rw [State.setCycle, hnil, List.set_nil])

theorem grows_archiveRow (hmade : s.bucket.isSome) (row : AuditLog) : Grows s (s.archiveRow row) where
  clock := le_rfl
  log := fun _ ↦ id
  has := fun id hid ↦ by
    rw [Has, versions_archiveRow hmade, List.map_append]
    exact List.mem_append_left _ hid

theorem has_archiveRow (hmade : s.bucket.isSome) (row : AuditLog) :
    (s.archiveRow row).Has row.id := by
  rw [Has, versions_archiveRow hmade, List.map_append]
  exact List.mem_append_right _ List.mem_cons_self

theorem Sound.archiveRow (h : s.Sound) (hmade : s.bucket.isSome) {row : AuditLog}
    (hrow : row ∈ s.log) : (s.archiveRow row).Sound where
  ids := h.ids
  nodup := h.nodup
  versions := by
    intro v hv
    rw [versions_archiveRow hmade] at hv
    rcases List.mem_append.mp hv with hv | hv
    · exact (grows_archiveRow hmade row).copy (h.versions v hv)
    · obtain rfl := List.mem_singleton.mp hv
      exact ⟨⟨row, hrow, rfl, rfl⟩, s.clock, le_rfl, rfl⟩
  cycles := fun c hc ↦ (grows_archiveRow hmade row).cycleSound (h.cycles c hc)
  made := fun _ ↦ by
    rw [State.archiveRow, Option.isSome_map]
    exact hmade

theorem cycleSound_next {rows pending : List AuditLog} {archivedCount failureCount : ℕ}
    (h : s.CycleSound (.archiving rows pending archivedCount failureCount)) :
    s.CycleSound (.next rows pending archivedCount failureCount) := by
  rw [Cycle.next]
  split
  · next hnil =>
    subst hnil
    refine le_trans (List.countP_mono_left fun row _ hmissing ↦ ?_) h.2.2.2
    exact decide_eq_true ⟨List.not_mem_nil, of_decide_eq_true hmissing⟩
  · exact h

theorem countP_le_add {α : Type*} {p q r : α → Bool} {l : List α}
    (h : ∀ a ∈ l, r a → p a ∨ q a) : l.countP r ≤ l.countP p + l.countP q := by
  induction l with
  | nil => exact Nat.zero_le _
  | cons a l ih =>
    obtain ⟨ha, hl⟩ := List.forall_mem_cons.mp h
    have hrest := ih hl
    simp only [List.countP_cons]
    cases hr : r a with
    | false =>
      rw [if_neg Bool.false_ne_true]
      omega
    | true =>
      rw [if_pos rfl]
      rcases ha hr with hp | hq
      · rw [if_pos hp]
        omega
      · rw [if_pos hq]
        omega

theorem countP_id_le_one {rows : List AuditLog} (h : (rows.map AuditLog.id).Nodup) (k : ℕ) :
    rows.countP (fun row ↦ row.id = k) ≤ 1 := by
  have hcount : rows.countP (fun row ↦ row.id = k) = (rows.map AuditLog.id).count k := by
    rw [List.count, List.countP_map]
    exact List.countP_congr fun row _ ↦ by simp
  rw [hcount]
  exact List.nodup_iff_count_le_one.mp h k

/-- One round of the loop: a row that is stored is not missing, one that is not has been counted. -/
theorem cycleSound_archive {rows pending : List AuditLog} {row : AuditLog}
    {archivedCount archivedCount' failureCount failureCount' : ℕ} (hgrows : Grows s t)
    (h : s.CycleSound (.archiving rows (row :: pending) archivedCount failureCount))
    (hrow : failureCount ≤ failureCount' ∧ t.Has row.id ∨ failureCount' = failureCount + 1) :
    t.CycleSound (.archiving rows pending archivedCount' failureCount') := by
  obtain ⟨hnodup, hlog, hpending, hcount⟩ := h
  refine ⟨hnodup, fun r hr ↦ hgrows.log r (hlog r hr),
    fun r hr ↦ hpending r (List.mem_cons_of_mem _ hr), ?_⟩
  have hsplit : ∀ r ∈ rows, decide (r.id ∉ pending.map AuditLog.id ∧ ¬ t.Has r.id) →
      decide (r.id ∉ (row :: pending).map AuditLog.id ∧ ¬ s.Has r.id) ∨
        decide (r.id = row.id ∧ ¬ t.Has row.id) := by
    intro r _ hmissing
    obtain ⟨hnot, hmissing⟩ := of_decide_eq_true hmissing
    by_cases hid : r.id = row.id
    · exact .inr (decide_eq_true ⟨hid, hid ▸ hmissing⟩)
    · refine .inl (decide_eq_true ⟨?_, fun hhas ↦ hmissing (hgrows.has _ hhas)⟩)
      rw [List.map_cons, List.mem_cons]
      rintro (heq | hin)
      · exact hid heq
      · exact hnot hin
  have hadd := countP_le_add hsplit
  have hone : rows.countP (fun r ↦ r.id = row.id ∧ ¬ t.Has row.id) ≤
      rows.countP fun r ↦ r.id = row.id :=
    List.countP_mono_left fun r _ hr ↦ decide_eq_true (of_decide_eq_true hr).1
  rcases hrow with ⟨hle, hhas⟩ | heq
  · have hzero : rows.countP (fun r ↦ r.id = row.id ∧ ¬ t.Has row.id) = 0 :=
      List.countP_eq_zero.mpr fun r _ hr ↦ (of_decide_eq_true hr).2 hhas
    omega
  · have hsingle := countP_id_le_one hnodup row.id
    omega

theorem Sound.start (h : s.Sound) (cutoff : Datetime) : (s.start cutoff).Sound := by
  let rows := (s.log.filter fun row ↦ row.content.createdAt.parts < cutoff.parts).insertionSort
    fun a b ↦ a.id ≤ b.id
  have hperm := List.perm_insertionSort (fun a b : AuditLog ↦ a.id ≤ b.id)
    (s.log.filter fun row ↦ row.content.createdAt.parts < cutoff.parts)
  have hsound : s.CycleSound (.queried rows) :=
    ⟨(hperm.map AuditLog.id).nodup_iff.mpr (h.nodup.sublist (List.filter_sublist.map _)),
      fun row hrow ↦ List.mem_of_mem_filter (hperm.mem_iff.mp hrow)⟩
  have hgrows : Grows s (s.start cutoff) := ⟨le_rfl, fun _ ↦ id, fun _ ↦ id⟩
  refine ⟨h.ids, h.nodup, fun v hv ↦ hgrows.copy (h.versions v hv), fun c hc ↦ ?_, fun _ ↦ rfl⟩
  rcases List.mem_append.mp hc with hc | hc
  · exact hgrows.cycleSound (h.cycles c hc)
  · obtain rfl := List.mem_singleton.mp hc
    split
    · next hnil =>
      rw [hnil]
      exact Nat.zero_le _
    · exact hgrows.cycleSound hsound

theorem Sound.list (h : s.Sound) {i : ℕ} {rows : List AuditLog}
    (hcycle : s.cycles[i]? = some (.queried rows)) {ids : List ℤ}
    (hids : listArchivedIds s.bucket = .ok ids) :
    (s.setCycle i (.next rows (rows.filter fun row ↦ (row.id : ℤ) ∉ ids) 0 0)).Sound := by
  obtain ⟨hnodup, hlog⟩ := h.cycles _ (List.mem_of_getElem? hcycle)
  obtain ⟨ids', hids', hhas⟩ := h.listed (h.made (List.ne_nil_of_mem (List.mem_of_getElem? hcycle)))
  obtain rfl := Except.ok.inj (hids.symm.trans hids')
  refine h.setCycle i (cycleSound_next ⟨hnodup, hlog, fun row ↦ List.mem_of_mem_filter, ?_⟩)
  rw [Nat.le_zero, List.countP_eq_zero]
  intro row hrow hmissing
  obtain ⟨hnot, hmissing⟩ := of_decide_eq_true hmissing
  by_cases hid : (row.id : ℤ) ∈ ids
  · exact hmissing ((hhas row.id (h.ids row (hlog row hrow))).mp hid)
  · exact hnot (List.mem_map_of_mem (List.mem_filter.mpr ⟨hrow, decide_eq_true hid⟩))

theorem Sound.archive (h : s.Sound) {i : ℕ} {rows pending : List AuditLog} {row : AuditLog}
    {archivedCount failureCount : ℕ}
    (hcycle : s.cycles[i]? = some (.archiving rows (row :: pending) archivedCount failureCount))
    {outcome : PutOutcome} (hstep : s.step (.archive i outcome) = some t) : t.Sound := by
  have hsound := h.cycles _ (List.mem_of_getElem? hcycle)
  have hrow : row ∈ s.log := hsound.2.1 row (hsound.2.2.1 row List.mem_cons_self)
  have hmade := h.made (List.ne_nil_of_mem (List.mem_of_getElem? hcycle))
  simp only [step, hcycle] at hstep
  cases outcome with
  | stored =>
    cases hstep
    exact (h.archiveRow hmade hrow).setCycle i (cycleSound_next (cycleSound_archive
      (grows_archiveRow hmade row) hsound (.inl ⟨le_rfl, has_archiveRow hmade row⟩)))
  | raised stored =>
    cases stored with
    | true =>
      cases hstep
      exact (h.archiveRow hmade hrow).setCycle i (cycleSound_next
        (cycleSound_archive (grows_archiveRow hmade row) hsound (.inr rfl)))
    | false =>
      cases hstep
      exact h.setCycle i (cycleSound_next
        (cycleSound_archive ⟨le_rfl, fun _ ↦ id, fun _ ↦ id⟩ hsound (.inr rfl)))

theorem Sound.step (h : s.Sound) {e : Event} (hstep : s.step e = some t) : t.Sound := by
  cases e with
  | tick seconds =>
    cases hstep
    have hgrows : Grows s { s with clock := s.clock + seconds } :=
      ⟨Nat.le_add_right _ _, fun _ ↦ id, fun _ ↦ id⟩
    exact ⟨h.ids, h.nodup, fun v hv ↦ hgrows.copy (h.versions v hv),
      fun c hc ↦ hgrows.cycleSound (h.cycles c hc), h.made⟩
  | write row =>
    rw [State.step] at hstep
    split at hstep <;> cases hstep
    next hnew =>
    have hgrows : Grows s { s with log := s.log ++ [row] } :=
      ⟨le_rfl, fun _ ↦ List.mem_append_left _, fun _ ↦ id⟩
    refine ⟨?_, ?_, fun v hv ↦ hgrows.copy (h.versions v hv),
      fun c hc ↦ hgrows.cycleSound (h.cycles c hc), h.made⟩
    · exact List.forall_mem_append.mpr ⟨h.ids, List.forall_mem_singleton.mpr hnew.1⟩
    · dsimp only
      rw [List.map_append]
      refine h.nodup.append (List.nodup_singleton _) ?_
      simpa using hnew.2
  | start cutoff =>
    cases hstep
    exact h.start cutoff
  | list i =>
    rw [State.step] at hstep
    split at hstep
    · next rows hcycle =>
      split at hstep <;> cases hstep
      · exact h.setCycle i trivial
      · next ids hids => exact h.list hcycle hids
    · cases hstep
  | archive i outcome =>
    have hkept := hstep
    rw [State.step] at hstep
    split at hstep
    · next hcycle => exact h.archive hcycle hkept
    · cases hstep
  | abort i =>
    rw [State.step] at hstep
    split at hstep <;> cases hstep <;> exact h.setCycle i trivial

end Steps

theorem sound_init : init.Sound :=
  ⟨List.forall_mem_nil _, List.nodup_nil, List.forall_mem_nil _, List.forall_mem_nil _,
    fun hne ↦ absurd rfl hne⟩

/-- The archive holds copies of the log and nothing else, the listing and the reads tell exactly what
it holds once it has been made, as it has when a call is past its start, and a call that has returned
has left no more rows out than it said. -/
structure Faithful (s : State) : Prop where
  copies : ∀ v ∈ s.versions, s.Copy v
  made : s.cycles ≠ [] → s.bucket.isSome
  listed : s.bucket.isSome → ∃ ids, listArchivedIds s.bucket = .ok ids ∧
    ∀ id < idBound, (id : ℤ) ∈ ids ↔ s.Has id
  fetched : s.bucket.isSome → ∀ id < idBound, ∃ found, fetchArchivedRow s.bucket id = .ok found ∧
    ∀ body, found = some body ↔ s.Has id ∧ ∃ row ∈ s.log, row.id = id ∧ row.serialize = body
  complete : ∀ rows archivedCount failureCount, .returned rows archivedCount failureCount ∈ s.cycles →
    (rows.countP fun row ↦ ¬ s.Has row.id) ≤ failureCount

/-- However calls of the archiver overlap with each other and with writers, fail or stop. -/
theorem archive_faithful {events : List Event} (h : Run step init events s) : s.Faithful := by
  have hsound : s.Sound := h.invariant (fun _ _ _ hs hstep ↦ hs.step hstep) sound_init
  exact ⟨hsound.versions, hsound.made, hsound.listed, fun hmade id hid ↦ hsound.fetched hmade hid,
    fun rows a f hc ↦ hsound.cycles _ hc⟩

/-- Two calls that overlap, so that one row is put twice, and a row that comes too late for both. -/
def overlapping : List Event :=
  [.write (statelessRow 1), .start nextDay, .start nextDay, .list 0, .list 1, .write (statelessRow 2),
    .archive 0 .stored, .tick 60, .archive 1 (.raised true)]

theorem archive_faithful_overlapping : ∃ s, Run step init overlapping s ∧ s.Faithful ∧
    s.versions.length = 2 := by
  have hruns : (exec step init overlapping).map (·.versions.length) = some 2 := by decide +kernel
  obtain ⟨s, hs, hlength⟩ := Option.map_eq_some_iff.mp hruns
  exact ⟨s, exec_eq_some.mp hs, archive_faithful (exec_eq_some.mp hs), hlength⟩

end State

end TradingOS.Core.AuditArchive
