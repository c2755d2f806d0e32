import TradingOS.Core.AuditStorage
import TradingOS.Lib.Table

namespace TradingOS.Core

open Lib

/-- The body of an archived object, as it is read back. -/
structure Archived where
  content : Content Jsonb
  entryHash : String
  prevEntryHash : String

def AuditLog.serialize (row : AuditLog) : Archived := ⟨row.content, row.entryHash, row.prevEntryHash⟩

/-- The table, in the order of the primary key. -/
structure LiveTable where
  rows : List AuditLog
  ordered : rows.Pairwise fun a b ↦ a.id < b.id

/-- The query for a row by its id. -/
def LiveTable.get? (live : LiveTable) (id : ℕ) : Option AuditLog :=
  (live.rows.map fun row ↦ (row.id, row)).lookup id

/-- The bucket, whose keys are ids. -/
abbrev Archive := Table ℕ Archived

/-- The clock reading, most significant part first. -/
def Datetime.parts (t : Datetime) : List ℕ :=
  [t.year, t.month, t.day, t.hour, t.minute, t.second, t.microsecond]

/-- One pending row after another; a failure leaves the others alone. -/
def archiveRows (putFails : ℕ → Bool) : List AuditLog → Archive × ℕ × ℕ → Archive × ℕ × ℕ
  | [], done => done
  | row :: rows, (archive, archived, failures) =>
    archiveRows putFails rows
      (if putFails row.id then (archive, archived, failures + 1)
      else (archive.put row.id row.serialize, archived + 1, failures))

/-- The archive after the run, with the counts of rows archived and failed. -/
def archivePendingRows (cutoff : Datetime) (putFails : ℕ → Bool) (live : LiveTable)
    (archive : Archive) : Archive × ℕ × ℕ :=
  let rows := live.rows.filter fun row ↦ row.content.createdAt.parts < cutoff.parts
  let pending := rows.filter fun row ↦ row.id ∉ archive.keys
  archiveRows putFails pending (archive, 0, 0)

structure ChainDivergenceReport where
  live : ChainVerificationResult
  archiveValid : Bool
  archiveBrokenIds : List ℕ
  archivedRowsChecked : ℕ
  divergedIds : List ℕ

def ChainDivergenceReport.ok (report : ChainDivergenceReport) : Bool :=
  report.live.valid && report.archiveValid && report.divergedIds.isEmpty

section Check

variable (sha256 : String → String)

def recomputeArchivedEntryHash (archived : Archived) : String :=
  recomputeEntryHash sha256 archived.content.loaded archived.prevEntryHash

/-- One round of the loop of `run_divergence_check`. -/
def checkId (live : LiveTable) (archive : Archive) (report : ChainDivergenceReport) (id : ℕ) :
    ChainDivergenceReport :=
  match archive.get? id with
  | none => report
  | some archived =>
    let report := { report with archivedRowsChecked := report.archivedRowsChecked + 1 }
    if recomputeArchivedEntryHash sha256 archived ≠ archived.entryHash then
      { report with
        archiveValid := false
        archiveBrokenIds := report.archiveBrokenIds ++ [id] }
    else
      match live.get? id with
      | some row =>
        if row.entryHash ≠ archived.entryHash then
          { report with divergedIds := report.divergedIds ++ [id] }
        else report
      -- an archived row that is gone from the table is passed over
      | none => report

def runDivergenceCheck (live : LiveTable) (archive : Archive) : ChainDivergenceReport :=
  (archive.keys.insertionSort (· ≤ ·)).foldl (checkId sha256 live archive)
    ⟨verifyChain sha256 live.rows, true, [], 0, []⟩

end Check

section Spec

variable {sha256 : String → String} {live : LiveTable} {archive : Archive}

theorem LiveTable.get?_eq_some {id : ℕ} {row : AuditLog} :
    live.get? id = some row ↔ row ∈ live.rows ∧ row.id = id := by
  have hnodup : ((live.rows.map fun row ↦ (row.id, row)).map Prod.fst).Nodup := by
    rw [List.map_map]
    exact List.pairwise_map.mpr (live.ordered.imp fun h ↦ h.ne)
  rw [LiveTable.get?, Table.lookup_eq_some_iff_mem hnodup]
  aesop

/-- Nothing is wrong with what the archive has for an id, nor with the row it is compared to. -/
def CleanAt (sha256 : String → String) (live : LiveTable) (id : ℕ) (archived : Archived) : Prop :=
  recomputeArchivedEntryHash sha256 archived = archived.entryHash ∧
    ∀ row, live.get? id = some row → row.entryHash = archived.entryHash

theorem checkId_ok (report : ChainDivergenceReport) (id : ℕ) :
    (checkId sha256 live archive report id).ok ↔ report.ok ∧
      ∀ archived, archive.get? id = some archived → CleanAt sha256 live id archived := by
  simp only [checkId]
  cases harchived : archive.get? id with
  | none => simp
  | some archived =>
    simp only [Option.some.injEq, forall_eq', CleanAt]
    by_cases hhash : recomputeArchivedEntryHash sha256 archived = archived.entryHash
    · rw [if_neg (not_not.mpr hhash)]
      cases hrow : live.get? id with
      | none => simp [ChainDivergenceReport.ok, hhash]
      | some row =>
        by_cases hsame : row.entryHash = archived.entryHash <;>
          simp [ChainDivergenceReport.ok, hhash, hsame]
    · simp [ChainDivergenceReport.ok, hhash]

theorem foldl_checkId_ok (ids : List ℕ) (report : ChainDivergenceReport) :
    (ids.foldl (checkId sha256 live archive) report).ok ↔ report.ok ∧
      ∀ id ∈ ids, ∀ archived, archive.get? id = some archived → CleanAt sha256 live id archived := by
  induction ids generalizing report with
  | nil => simp
  | cons id ids ih => rw [List.foldl_cons, ih, checkId_ok, List.forall_mem_cons, and_assoc]

/-- What a clean report says: the table verifies, each archived object has the hash of its own
content, and so has the row of that id if there is one. -/
theorem runDivergenceCheck_ok :
    (runDivergenceCheck sha256 live archive).ok ↔ (verifyChain sha256 live.rows).valid ∧
      ∀ id archived, archive.get? id = some archived → CleanAt sha256 live id archived := by
  have hstart : (ChainDivergenceReport.mk (verifyChain sha256 live.rows) true [] 0 []).ok =
      (verifyChain sha256 live.rows).valid := by
    simp [ChainDivergenceReport.ok]
  rw [runDivergenceCheck, foldl_checkId_ok, hstart]
  refine and_congr_right fun _ ↦ ⟨fun h id archived harchived ↦ ?_, fun h id _ ↦ h id⟩
  refine h id ((List.mem_insertionSort _).mpr ?_) archived harchived
  exact List.mem_map.mpr ⟨_, archive.get?_eq_some.mp harchived, rfl⟩

/-- Every archived entry is in the table, with the hash it was archived with. -/
def Preserved (live : LiveTable) (archive : Archive) : Prop :=
  ∀ id archived, archive.get? id = some archived →
    ∃ row ∈ live.rows, row.id = id ∧ row.entryHash = archived.entryHash

end Spec

section Runs

theorem archiveRows_mem {putFails : ℕ → Bool} {rows : List AuditLog} {done : Archive × ℕ × ℕ}
    {id : ℕ} {body : Archived} (h : (id, body) ∈ (archiveRows putFails rows done).1.rows) :
    (id, body) ∈ done.1.rows ∨ ∃ row ∈ rows, row.id = id ∧ row.serialize = body := by
  induction rows generalizing done with
  | nil => exact .inl h
  | cons row rows ih =>
    obtain ⟨archive, archived, failures⟩ := done
    rw [archiveRows] at h
    rcases ih h with h | ⟨row', hrow', he⟩
    · split_ifs at h
      · exact .inl h
      · rw [Table.mem_put] at h
        split_ifs at h with hid
        · exact .inr ⟨row, List.mem_cons_self, hid.symm, h.symm⟩
        · exact .inl h
    · exact .inr ⟨row', List.mem_cons_of_mem _ hrow', he⟩

/-- A run adds copies of rows it sees, and only under ids that are not archived. -/
theorem archivePendingRows_mem {cutoff : Datetime} {putFails : ℕ → Bool} {live : LiveTable}
    {archive : Archive} {id : ℕ} {body : Archived}
    (h : (id, body) ∈ (archivePendingRows cutoff putFails live archive).1.rows) :
    (id, body) ∈ archive.rows ∨
      id ∉ archive.keys ∧ ∃ row ∈ live.rows, row.id = id ∧ row.serialize = body := by
  rcases archiveRows_mem h with h | ⟨row, hrow, rfl, he⟩
  · exact .inl h
  · obtain ⟨hrow, hnew⟩ := List.mem_filter.mp hrow
    exact .inr ⟨of_decide_eq_true hnew, row, (List.mem_filter.mp hrow).1, rfl, he⟩

end Runs

def nextDay : Datetime := ⟨2026, 8, 8, 23, 0, 0, 0, false, by decide, by decide⟩

end TradingOS.Core
