import TradingOS.Core.AuditChainMonitor
import TradingOS.Core.AuditWriters

namespace TradingOS.Core

open Lib Lib.HashChain

/-- An earlier run of the archiver, over the table as it was then. -/
structure ArchiveRun where
  cutoff : Datetime
  putFails : ℕ → Bool
  table : LiveTable

def archiveAfter (runs : List ArchiveRun) : Archive :=
  runs.foldl (fun archive run ↦ (archivePendingRows run.cutoff run.putFails run.table archive).1)
    Table.empty

/-- No two entries share a hash, and none has the hash that stands before the first. -/
structure CollisionFree (sha256 : String → String) (rows : List AuditLog) : Prop where
  inj : ∀ r ∈ rows, ∀ r' ∈ rows, sha256 r.hashedText = sha256 r'.hashedText →
    r.hashedText = r'.hashedText
  fresh : ∀ r ∈ rows, r.entryHash ≠ genesisPrevHash

/-- Every object is the copy of a row. -/
def Copies (archive : Archive) (written : LiveTable) : Prop :=
  ∀ id body, archive.get? id = some body → ∃ row ∈ written.rows, row.id = id ∧ row.serialize = body

section Written

variable {sha256 : String → String} {written live : LiveTable} {archive : Archive}

theorem copies_archiveAfter {runs : List ArchiveRun}
    (hruns : ∀ run ∈ runs, run.table.rows ⊆ written.rows) :
    Copies (archiveAfter runs) written := by
  have hcopies {runs : List ArchiveRun} (hruns : ∀ run ∈ runs, run.table.rows ⊆ written.rows)
      {archive : Archive} (h : Copies archive written) :
      Copies (runs.foldl (fun archive run ↦
        (archivePendingRows run.cutoff run.putFails run.table archive).1) archive) written := by
    induction runs generalizing archive with
    | nil => exact h
    | cons run runs ih =>
      rw [List.forall_mem_cons] at hruns
      refine ih hruns.2 fun id body hbody ↦ ?_
      rcases archivePendingRows_mem ((Table.get?_eq_some _).mp hbody) with hold | ⟨-, row, hrow, hnew⟩
      · exact h id body ((Table.get?_eq_some _).mpr hold)
      · exact ⟨row, hruns.1 hrow, hnew⟩
  exact hcopies hruns fun id body hbody ↦ (List.not_mem_nil ((Table.get?_eq_some _).mp hbody)).elim

theorem LiveTable.eq_of_id_eq (live : LiveTable) {r r' : AuditLog} (hr : r ∈ live.rows)
    (hr' : r' ∈ live.rows) (h : r.id = r'.id) : r = r' := by
  have hrow := LiveTable.get?_eq_some.mpr ⟨hr, rfl⟩
  rw [h, LiveTable.get?_eq_some.mpr ⟨hr', rfl⟩] at hrow
  exact (Option.some.inj hrow).symm

/-- Entries of one hash have the same entries before them. -/
theorem blocks_eq_of_entryHash_eq {rows rows' s s' t t' : List AuditLog} {r r' : AuditLog}
    (hfree : CollisionFree sha256 (rows ++ rows')) (hvalid : (verifyChain sha256 rows).valid)
    (hvalid' : (verifyChain sha256 rows').valid) (hrows : rows = s ++ r :: t)
    (hrows' : rows' = s' ++ r' :: t') (h : r.entryHash = r'.entryHash) :
    (s ++ [r]).map AuditLog.block = (s' ++ [r']).map AuditLog.block := by
  rw [verifyChain_valid] at hvalid hvalid'
  have hmap := congrArg (List.map AuditLog.block) hrows
  have hmap' := congrArg (List.map AuditLog.block) hrows'
  rw [List.map_append, List.map_cons] at hmap hmap'
  rw [List.map_append, List.map_append, List.map_singleton, List.map_singleton]
  have hchained : Chained (linkHash sha256) genesisPrevHash
      (s.map AuditLog.block ++ r.block :: t.map AuditLog.block) := hmap ▸ hvalid
  have hchained' : Chained (linkHash sha256) genesisPrevHash
      (s'.map AuditLog.block ++ r'.block :: t'.map AuditLog.block) := hmap' ▸ hvalid'
  refine eq_of_digest_eq ?_ ?_ hchained hchained' h
  · rw [← hmap, ← hmap']
    intro d hd e he hhash
    obtain ⟨q, hq, rfl⟩ := List.mem_map.mp hd
    obtain ⟨q', hq', rfl⟩ := List.mem_map.mp he
    exact AuditLog.eq_of_hashedText_eq (hfree.inj q (List.mem_append_left _ hq) q'
      (List.mem_append_right _ hq') hhash)
  · rw [← hmap, ← hmap', ← List.map_append]
    intro d hd
    obtain ⟨q, hq, rfl⟩ := List.mem_map.mp hd
    exact hfree.fresh q hq

theorem CollisionFree.mono {rows rows' : List AuditLog} (h : CollisionFree sha256 rows')
    (hsub : rows ⊆ rows') : CollisionFree sha256 rows where
  inj r hr r' hr' := h.inj r (hsub hr) r' (hsub hr')
  fresh r hr := h.fresh r (hsub hr)

theorem CollisionFree.left {rows rows' : List AuditLog}
    (h : CollisionFree sha256 (rows ++ rows')) : CollisionFree sha256 (rows ++ rows) :=
  h.mono (List.append_subset.mpr ⟨List.subset_append_left _ _, List.subset_append_left _ _⟩)

theorem eq_of_entryHash_eq (hfree : CollisionFree sha256 (written.rows ++ written.rows))
    (hvalid : (verifyChain sha256 written.rows).valid) {r r' : AuditLog} (hr : r ∈ written.rows)
    (hr' : r' ∈ written.rows) (h : r.entryHash = r'.entryHash) : r = r' := by
  obtain ⟨s, t, hs⟩ := List.append_of_mem hr
  obtain ⟨s', t', hs'⟩ := List.append_of_mem hr'
  have hblocks := blocks_eq_of_entryHash_eq hfree hvalid hvalid hs hs' h
  have hlen : s.length = s'.length := by simpa using congrArg List.length hblocks
  have hrows := (List.append_inj (hs.symm.trans hs') hlen).2
  exact (List.cons.inj hrows).1

theorem selfConsistent_of_copies (hcopies : Copies archive written)
    (hvalid : (verifyChain sha256 written.rows).valid) {id : ℕ} {body : Archived}
    (hbody : archive.get? id = some body) : recomputeArchivedEntryHash sha256 body = body.entryHash := by
  obtain ⟨row, hrow, -, rfl⟩ := hcopies id body hbody
  have hblock : row.block ∈ written.rows.map AuditLog.block := List.mem_map_of_mem hrow
  have hhash := (verifyChain_valid.mp hvalid).hash_eq hblock
  simp only [recomputeArchivedEntryHash, AuditLog.serialize]
  exact hhash

/-- Where the archive holds copies of a table that verifies, what the check compares is the rows
of one id. -/
theorem ok_iff_agrees (hcopies : Copies archive written)
    (hvalid : (verifyChain sha256 written.rows).valid) :
    (runDivergenceCheck sha256 live archive).ok ↔ (verifyChain sha256 live.rows).valid ∧
      ∀ r ∈ live.rows, ∀ w ∈ written.rows, w.id ∈ archive.keys → r.id = w.id →
        r.entryHash = w.entryHash := by
  rw [runDivergenceCheck_ok]
  refine and_congr_right fun _ ↦ ⟨fun h r hr w hw harchived hid ↦ ?_, fun h id body hbody ↦ ?_⟩
  · obtain ⟨⟨id, body⟩, hbody, rfl⟩ := List.mem_map.mp harchived
    have hget := (archive.get?_eq_some).mpr hbody
    obtain ⟨w', hw', hid', rfl⟩ := hcopies _ body hget
    obtain rfl := written.eq_of_id_eq hw hw' hid'.symm
    exact (h _ _ hget).2 r (LiveTable.get?_eq_some.mpr ⟨hr, hid⟩)
  · refine ⟨selfConsistent_of_copies hcopies hvalid hbody, fun row hrow ↦ ?_⟩
    obtain ⟨w, hw, rfl, rfl⟩ := hcopies id body hbody
    obtain ⟨hmem, hid⟩ := LiveTable.get?_eq_some.mp hrow
    exact h row hmem w hw (List.mem_map.mpr ⟨_, (archive.get?_eq_some).mp hbody, rfl⟩) hid

theorem preserved_iff_of_ok (hok : (runDivergenceCheck sha256 live archive).ok) :
    Preserved live archive ↔ ∀ id ∈ archive.keys, ∃ row ∈ live.rows, row.id = id := by
  constructor
  · intro h id hid
    obtain ⟨⟨id, body⟩, hbody, rfl⟩ := List.mem_map.mp hid
    obtain ⟨row, hrow, hrowId, -⟩ := h id body ((archive.get?_eq_some).mpr hbody)
    exact ⟨row, hrow, hrowId⟩
  · intro h id body hbody
    obtain ⟨row, hrow, hid⟩ := h id (List.mem_map.mpr ⟨_, (archive.get?_eq_some).mp hbody, rfl⟩)
    have hclean := (runDivergenceCheck_ok.mp hok).2 id body hbody
    exact ⟨row, hrow, hid, hclean.2 row (LiveTable.get?_eq_some.mpr ⟨hrow, hid⟩)⟩

/-- What is left is the beginning of the table as it was written, where archived entries still
have their ids; and what follows continues the chain and has the id of no archived entry. -/
def Continues (sha256 : String → String) (written live : LiveTable) (archive : Archive) : Prop :=
  ∃ kept rest first, live.rows = kept ++ rest ∧ first <+: written.rows ∧
    List.Forall₂ (fun r w ↦ r.block = w.block ∧ (r.id ∈ archive.keys → r.id = w.id)) kept first ∧
    Chained (linkHash sha256) (lastHash kept) (rest.map AuditLog.block) ∧
    ∀ row ∈ rest, row.id ∉ archive.keys

theorem Copies.mem_written (hcopies : Copies archive written) {id : ℕ} (hid : id ∈ archive.keys) :
    ∃ w ∈ written.rows, id = w.id := by
  obtain ⟨⟨id, body⟩, hbody, rfl⟩ := List.mem_map.mp hid
  obtain ⟨w, hw, hwid, -⟩ := hcopies id body ((archive.get?_eq_some).mpr hbody)
  exact ⟨w, hw, hwid.symm⟩

/-- Rows that are blocks as they were written have their ids, where these are archived. -/
theorem forall₂_of_map_block_eq (hcopies : Copies archive written)
    (hvalid : (verifyChain sha256 written.rows).valid)
    (hfree : CollisionFree sha256 (written.rows ++ written.rows)) {rows first : List AuditLog}
    (hblocks : rows.map AuditLog.block = first.map AuditLog.block) (hfirst : first ⊆ written.rows)
    (hagree : ∀ r ∈ rows, ∀ w ∈ written.rows, w.id ∈ archive.keys → r.id = w.id →
      r.entryHash = w.entryHash) :
    List.Forall₂ (fun r w ↦ r.block = w.block ∧ (r.id ∈ archive.keys → r.id = w.id)) rows first := by
  have hpair : List.Forall₂ (fun a b ↦ a.block = b.block) rows first := by
    rw [← List.forall₂_map_right_iff, ← List.forall₂_map_left_iff, hblocks]
    exact List.forall₂_refl _
  refine List.forall₂_iff_zip.mpr ⟨hpair.length_eq, fun {a b} hab ↦ ?_⟩
  have hsame : a.block = b.block := (List.forall₂_iff_zip.mp hpair).2 hab
  obtain ⟨ha, hb⟩ := List.of_mem_zip hab
  refine ⟨hsame, fun harchived ↦ ?_⟩
  obtain ⟨w, hw, haw⟩ := hcopies.mem_written harchived
  have hdigest : b.entryHash = w.entryHash :=
    (congrArg Block.digest hsame).symm.trans (hagree a ha w hw (haw ▸ harchived) haw)
  rw [haw, eq_of_entryHash_eq hfree hvalid hw (hfirst hb) hdigest.symm]

/-- A table that verifies, up to its last archived row, is a beginning of the one that was
written. -/
theorem continues_of_agrees (hcopies : Copies archive written)
    (hvalid : (verifyChain sha256 written.rows).valid) {rows : List AuditLog}
    (hfree : CollisionFree sha256 (written.rows ++ rows)) (hrows : (verifyChain sha256 rows).valid)
    (hagree : ∀ r ∈ rows, ∀ w ∈ written.rows, w.id ∈ archive.keys → r.id = w.id →
      r.entryHash = w.entryHash) :
    ∃ kept rest first, rows = kept ++ rest ∧ first <+: written.rows ∧
      List.Forall₂ (fun r w ↦ r.block = w.block ∧ (r.id ∈ archive.keys → r.id = w.id)) kept first ∧
      ∀ row ∈ rest, row.id ∉ archive.keys := by
  induction rows using List.reverseRecOn with
  | nil => exact ⟨[], [], [], rfl, List.nil_prefix, .nil, fun _ hrow ↦ (List.not_mem_nil hrow).elim⟩
  | append_singleton rows r ih =>
    by_cases hid : r.id ∈ archive.keys
    · obtain ⟨w, hw, hrw⟩ := hcopies.mem_written hid
      have hhash := hagree r (by simp) w hw (hrw ▸ hid) hrw
      obtain ⟨s, t, hs⟩ := List.append_of_mem hw
      have hblocks := blocks_eq_of_entryHash_eq hfree hvalid hrows hs rfl hhash.symm
      refine ⟨rows ++ [r], [], s ++ [w], (List.append_nil _).symm, ?_, ?_,
        fun _ hrow ↦ (List.not_mem_nil hrow).elim⟩
      · exact ⟨t, by rw [hs, List.append_assoc, List.singleton_append]⟩
      · have hfirst : (s ++ [w]) ⊆ written.rows := by
          intro q hq
          rw [hs, List.append_cons]
          exact List.mem_append_left t hq
        exact forall₂_of_map_block_eq hcopies hvalid hfree.left hblocks.symm hfirst hagree
    · have hsub {q : AuditLog} (hq : q ∈ rows) : q ∈ rows ++ [r] := List.mem_append_left _ hq
      have hinit : (verifyChain sha256 rows).valid := by
        rw [verifyChain_valid, List.map_append, chained_append] at hrows
        exact verifyChain_valid.mpr hrows.1
      have hfree' : CollisionFree sha256 (written.rows ++ rows) := by
        rw [← List.append_assoc] at hfree
        exact hfree.mono (List.subset_append_left _ _)
      obtain ⟨kept, rest, first, rfl, hfirst, hkept, hrest⟩ :=
        ih hfree' hinit fun q hq ↦ hagree q (hsub hq)
      refine ⟨kept, rest ++ [r], first, (List.append_assoc ..), hfirst, hkept, fun q hq ↦ ?_⟩
      rcases List.mem_append.mp hq with hq | hq
      · exact hrest q hq
      · exact List.mem_singleton.mp hq ▸ hid

theorem ok_iff_continues (hcopies : Copies archive written)
    (hvalid : (verifyChain sha256 written.rows).valid)
    (hfree : CollisionFree sha256 (written.rows ++ live.rows)) :
    (runDivergenceCheck sha256 live archive).ok ↔ Continues sha256 written live archive := by
  rw [ok_iff_agrees hcopies hvalid]
  constructor
  · rintro ⟨hrows, hagree⟩
    obtain ⟨kept, rest, first, hlive, hfirst, hkept, hrest⟩ :=
      continues_of_agrees hcopies hvalid hfree hrows hagree
    refine ⟨kept, rest, first, hlive, hfirst, hkept, ?_, hrest⟩
    rw [verifyChain_valid, hlive, List.map_append, chained_append, tip_block] at hrows
    exact hrows.2
  · rintro ⟨kept, rest, first, hlive, ⟨post, hfirst⟩, hkept, hchained, hrest⟩
    have hblocks : kept.map AuditLog.block = first.map AuditLog.block := by
      rw [← List.forall₂_eq_eq_eq, List.forall₂_map_left_iff, List.forall₂_map_right_iff]
      exact hkept.imp fun _ _ h ↦ h.1
    refine ⟨?_, fun r hr w hw harchived hid ↦ ?_⟩
    · rw [verifyChain_valid, ← hfirst, List.map_append, chained_append, ← hblocks] at hvalid
      rw [verifyChain_valid, hlive, List.map_append, chained_append, tip_block]
      exact ⟨hvalid.1, hchained⟩
    · rw [hlive] at hr
      rcases List.mem_append.mp hr with hr | hr
      · obtain ⟨b, hb⟩ : ∃ b, (r, b) ∈ kept.zip first := by
          obtain ⟨i, hi, rfl⟩ := List.getElem_of_mem hr
          have hi' := hi.trans_eq hkept.length_eq
          exact ⟨first[i], List.mem_iff_getElem.mpr
            ⟨i, by simp [hi, hi'], by simp⟩⟩
        obtain ⟨hsame, hids⟩ := (List.forall₂_iff_zip.mp hkept).2 hb
        have hmem : b ∈ written.rows := by
          rw [← hfirst]
          exact List.mem_append_left _ (List.of_mem_zip hb).2
        obtain rfl := written.eq_of_id_eq hw hmem (hid.symm.trans (hids (hid ▸ harchived)))
        exact congrArg Block.digest hsame
      · exact absurd (hid ▸ harchived) (hrest r hr)

end Written

theorem LiveTable.ordered_delete (written : LiveTable) (deleted : AuditLog → Bool) :
    (written.rows.filter fun row ↦ !deleted row).Pairwise fun a b ↦ a.id < b.id :=
  written.ordered.filter _

/-- The table after rows have been deleted. -/
def LiveTable.delete (written : LiveTable) (deleted : AuditLog → Bool) : LiveTable :=
  ⟨written.rows.filter fun row ↦ !deleted row, written.ordered_delete deleted⟩

theorem LiveTable.delete_rows (written : LiveTable) (deleted : AuditLog → Bool) :
    (written.delete deleted).rows = written.rows.filter fun row ↦ !deleted row := rfl

/-- The hashes of `rows` had anew, the first of them naming `prevHash`. -/
def rehashed (sha256 : String → String) : String → List AuditLog → List AuditLog
  | _, [] => []
  | prevHash, row :: rows =>
    let entryHash := recomputeEntryHash sha256 row.content.loaded prevHash
    { row with entryHash := entryHash, prevEntryHash := prevHash } :: rehashed sha256 entryHash rows

theorem rehashed_map_id (sha256 : String → String) (prevHash : String) (rows : List AuditLog) :
    (rehashed sha256 prevHash rows).map AuditLog.id = rows.map AuditLog.id := by
  induction rows generalizing prevHash with
  | nil => rfl
  | cons row rows ih => exact congrArg (row.id :: ·) (ih _)

theorem LiveTable.ordered_rehashed (sha256 : String → String) (live : LiveTable) :
    (rehashed sha256 genesisPrevHash live.rows).Pairwise fun a b ↦ a.id < b.id := by
  have hordered := List.pairwise_map.mpr live.ordered
  rw [← rehashed_map_id sha256 genesisPrevHash] at hordered
  exact List.pairwise_map.mp hordered

def LiveTable.rehash (sha256 : String → String) (live : LiveTable) : LiveTable :=
  ⟨rehashed sha256 genesisPrevHash live.rows, live.ordered_rehashed sha256⟩

theorem LiveTable.rehash_rows (sha256 : String → String) (live : LiveTable) :
    (live.rehash sha256).rows = rehashed sha256 genesisPrevHash live.rows := rfl

section Deletion

variable {sha256 : String → String} {written : LiveTable} {archive : Archive}
  {deleted : AuditLog → Bool}

theorem LiveTable.mem_delete {row : AuditLog} :
    row ∈ (written.delete deleted).rows ↔ row ∈ written.rows ∧ deleted row = false := by
  simp [LiveTable.delete]

/-- Some archived row is deleted. -/
def LosesArchived (written : LiveTable) (archive : Archive) (deleted : AuditLog → Bool) : Prop :=
  ∃ row ∈ written.rows, row.id ∈ archive.keys ∧ deleted row

theorem losesArchived_iff (hcopies : Copies archive written) (live : LiveTable)
    (hlive : live.rows.map AuditLog.id = (written.delete deleted).rows.map AuditLog.id) :
    LosesArchived written archive deleted ↔ ¬ ∀ id ∈ archive.keys, ∃ row ∈ live.rows, row.id = id := by
  have hids (id : ℕ) : (∃ row ∈ live.rows, row.id = id) ↔
      ∃ row ∈ written.rows, deleted row = false ∧ row.id = id := by
    rw [← List.mem_map, hlive, List.mem_map]
    simp only [LiveTable.mem_delete, and_assoc]
  push Not
  constructor
  · rintro ⟨row, hrow, harchived, hdeleted⟩
    refine ⟨row.id, harchived, fun r hr hid ↦ ?_⟩
    obtain ⟨r', hr', hkept, hid'⟩ := (hids row.id).mp ⟨r, hr, hid⟩
    obtain rfl := written.eq_of_id_eq hr' hrow hid'
    rw [hdeleted] at hkept
    cases hkept
  · rintro ⟨id, hid, hgone⟩
    obtain ⟨⟨_, body⟩, hbody, rfl⟩ := List.mem_map.mp hid
    obtain ⟨row, hrow, hrowId, -⟩ := hcopies _ body ((archive.get?_eq_some).mpr hbody)
    refine ⟨row, hrow, hrowId ▸ hid, ?_⟩
    by_contra hkept
    obtain ⟨r, hr, hrid⟩ := (hids row.id).mpr ⟨row, hrow, by simpa using hkept, rfl⟩
    exact hgone r hr (hrid.trans hrowId)

/-- A row that is kept, behind another. -/
theorem delete_split {a b : AuditLog} (hab : List.Sublist [a, b] written.rows)
    (hkept : deleted b = false) : ∃ s, a ∈ s ∧ ∃ t, written.rows = s ++ b :: t ∧
      (written.delete deleted).rows =
        s.filter (fun row ↦ !deleted row) ++ b :: t.filter fun row ↦ !deleted row := by
  obtain ⟨s, t, hst, ha, hb⟩ := List.cons_sublist_iff.mp hab
  obtain ⟨u, v, huv⟩ := List.append_of_mem (List.singleton_sublist.mp hb)
  have hrows : written.rows = (s ++ u) ++ b :: v := by rw [hst, huv, List.append_assoc]
  refine ⟨s ++ u, List.mem_append_left _ ha, v, hrows, ?_⟩
  rw [LiveTable.delete_rows, hrows, List.filter_append, List.filter_cons_of_pos (by simp [hkept])]

/-- Deleting rows leaves a chain that verifies exactly if no row is kept after a deleted one. -/
theorem verifyChain_delete (hvalid : (verifyChain sha256 written.rows).valid)
    (hfree : CollisionFree sha256 (written.rows ++ (written.delete deleted).rows)) :
    (verifyChain sha256 (written.delete deleted).rows).valid ↔
      written.rows.Pairwise fun a b ↦ deleted a → deleted b := by
  constructor
  · intro hlive
    refine List.pairwise_iff_forall_sublist.mpr fun {a b} hab hdeleted ↦ ?_
    by_contra hkept
    obtain ⟨s, hs, t, ht, hfilter⟩ := delete_split hab (by simpa using hkept)
    have hblocks := blocks_eq_of_entryHash_eq hfree hvalid hlive ht hfilter rfl
    have hlen : s.length = (s.filter fun row ↦ !deleted row).length := by
      simpa using congrArg List.length hblocks
    have hall := List.length_filter_eq_length_iff.mp hlen.symm a hs
    rw [hdeleted] at hall
    cases hall
  · intro htail
    have hkept : written.rows.Pairwise fun a b ↦ (!deleted b) = true → (!deleted a) = true := by
      refine htail.imp fun {a b} h ↦ ?_
      cases ha : deleted a with
      | false => exact fun _ ↦ rfl
      | true => simp [h ha]
    obtain ⟨post, hpost⟩ := filter_isPrefix_of_pairwise hkept
    rw [verifyChain_valid, ← hpost, List.map_append, chained_append] at hvalid
    exact verifyChain_valid.mpr hvalid.1

/-- A deletion that recomputes nothing goes unreported exactly if it takes the end of the table. -/
theorem deletion_unseen_iff (hcopies : Copies archive written)
    (hvalid : (verifyChain sha256 written.rows).valid)
    (hfree : CollisionFree sha256 (written.rows ++ (written.delete deleted).rows)) :
    ((runDivergenceCheck sha256 (written.delete deleted) archive).ok →
        Preserved (written.delete deleted) archive) ↔
      ¬ (LosesArchived written archive deleted ∧
        written.rows.Pairwise fun a b ↦ deleted a → deleted b) := by
  have hok : (runDivergenceCheck sha256 (written.delete deleted) archive).ok ↔
      written.rows.Pairwise fun a b ↦ deleted a → deleted b := by
    rw [ok_iff_agrees hcopies hvalid, verifyChain_delete hvalid hfree, and_iff_left_iff_imp]
    intro _ r hr w hw _ hid
    rw [written.eq_of_id_eq (LiveTable.mem_delete.mp hr).1 hw hid]
  rw [losesArchived_iff hcopies _ rfl, ← hok]
  constructor
  · rintro h ⟨hlost, hreport⟩
    exact hlost ((preserved_iff_of_ok hreport).mp (h hreport))
  · intro h hreport
    exact (preserved_iff_of_ok hreport).mpr (not_not.mp fun hlost ↦ h ⟨hlost, hreport⟩)

end Deletion

section Rehash

variable {sha256 : String → String} {written : LiveTable} {archive : Archive}
  {deleted : AuditLog → Bool}

theorem chained_rehashed (prevHash : String) (rows : List AuditLog) :
    Chained (linkHash sha256) prevHash ((rehashed sha256 prevHash rows).map AuditLog.block) := by
  induction rows generalizing prevHash with
  | nil => trivial
  | cons row rows ih => exact ⟨rfl, rfl, ih _⟩

theorem verifyChain_rehash (sha256 : String → String) (live : LiveTable) :
    (verifyChain sha256 (live.rehash sha256).rows).valid :=
  verifyChain_valid.mpr (chained_rehashed genesisPrevHash live.rows)

/-- Rows that are chained have the hashes already. -/
theorem rehashed_append_of_chained {prevHash : String} {rows : List AuditLog}
    (h : Chained (linkHash sha256) prevHash (rows.map AuditLog.block)) (rest : List AuditLog) :
    ∃ last, rehashed sha256 prevHash (rows ++ rest) = rows ++ rehashed sha256 last rest := by
  induction rows generalizing prevHash with
  | nil => exact ⟨prevHash, rfl⟩
  | cons row rows ih =>
    obtain ⟨hprev, hhash, hrows⟩ := h
    obtain ⟨last, hlast⟩ := ih hrows
    refine ⟨last, ?_⟩
    have hentry : recomputeEntryHash sha256 row.content.loaded prevHash = row.entryHash := hhash
    have hprev : prevHash = row.prevEntryHash := hprev.symm
    simp only [List.cons_append, rehashed, hentry]
    rw [show row.entryHash = row.block.digest from rfl, hlast, hprev]
    rfl

theorem rehashed_append_cons (sha256 : String → String) (prevHash : String) (s : List AuditLog) (row : AuditLog)
    (t : List AuditLog) : ∃ s' r t', rehashed sha256 prevHash (s ++ row :: t) = s' ++ r :: t' ∧
      s'.length = s.length ∧ r.id = row.id := by
  induction s generalizing prevHash with
  | nil => exact ⟨[], _, _, rfl, rfl, rfl⟩
  | cons q s ih =>
    obtain ⟨s', r, t', hrows, hlen, hid⟩ :=
      ih (recomputeEntryHash sha256 q.content.loaded prevHash)
    refine ⟨_ :: s', r, t', congrArg (List.cons _) hrows, ?_, hid⟩
    rw [List.length_cons, List.length_cons, hlen]

/-- A kept row whose predecessors are all kept is had anew as it was. -/
theorem mem_rehash_delete (hvalid : (verifyChain sha256 written.rows).valid)
    {s t : List AuditLog} {q : AuditLog} (hrows : written.rows = s ++ q :: t)
    (hkept : deleted q = false) (hbefore : ∀ x ∈ s, deleted x = false) :
    q ∈ ((written.delete deleted).rehash sha256).rows := by
  have hfilter : (written.delete deleted).rows =
      (s ++ [q]) ++ t.filter fun row ↦ !deleted row := by
    have hall : s.filter (fun row ↦ !deleted row) = s :=
      List.filter_eq_self.mpr fun x hx ↦ by simp [hbefore x hx]
    rw [LiveTable.delete_rows, hrows, List.filter_append, List.filter_cons_of_pos (by simp [hkept]),
      hall, List.append_assoc, List.singleton_append]
  have hchained : Chained (linkHash sha256) genesisPrevHash ((s ++ [q]).map AuditLog.block) := by
    rw [verifyChain_valid, hrows, List.append_cons, List.map_append, chained_append] at hvalid
    exact hvalid.1
  obtain ⟨last, hlast⟩ := rehashed_append_of_chained hchained (t.filter fun row ↦ !deleted row)
  rw [LiveTable.rehash_rows, hfilter, hlast]
  simp

theorem ok_rehash_iff (hcopies : Copies archive written)
    (hvalid : (verifyChain sha256 written.rows).valid)
    (hfree : CollisionFree sha256
      (written.rows ++ ((written.delete deleted).rehash sha256).rows)) :
    (runDivergenceCheck sha256 ((written.delete deleted).rehash sha256) archive).ok ↔
      written.rows.Pairwise fun a b ↦ deleted a → b.id ∈ archive.keys → deleted b := by
  have hrehash := verifyChain_rehash sha256 (written.delete deleted)
  rw [ok_iff_agrees hcopies hvalid, and_iff_right hrehash]
  constructor
  · intro hagree
    refine List.pairwise_iff_forall_sublist.mpr fun {a b} hab hdeleted harchived ↦ ?_
    by_contra hkept
    obtain ⟨s, hs, t, ht, hfilter⟩ := delete_split hab (by simpa using hkept)
    obtain ⟨s', r, t', hsplit, hlen, hid⟩ := rehashed_append_cons sha256 genesisPrevHash
      (s.filter fun row ↦ !deleted row) b (t.filter fun row ↦ !deleted row)
    rw [← hfilter] at hsplit
    have hr : r ∈ ((written.delete deleted).rehash sha256).rows := by
      rw [LiveTable.rehash_rows, hsplit]
      exact List.mem_append_right s' List.mem_cons_self
    have hhash := hagree r hr b (ht ▸ List.mem_append_right s List.mem_cons_self) harchived hid
    have hblocks := blocks_eq_of_entryHash_eq hfree hvalid hrehash ht hsplit hhash.symm
    have hlen' : s.length = s'.length := by simpa using congrArg List.length hblocks
    have hall := List.length_filter_eq_length_iff.mp (hlen.symm.trans hlen'.symm) a hs
    rw [hdeleted] at hall
    cases hall
  · intro hpair r hr w hw harchived hid
    obtain ⟨q, hq, hqid⟩ : ∃ q ∈ (written.delete deleted).rows, q.id = r.id := by
      rw [← List.mem_map, ← rehashed_map_id sha256 genesisPrevHash]
      exact List.mem_map_of_mem hr
    obtain rfl := written.eq_of_id_eq (LiveTable.mem_delete.mp hq).1 hw (hqid.trans hid)
    have hkept := (LiveTable.mem_delete.mp hq).2
    obtain ⟨s, t, hs⟩ := List.append_of_mem hw
    rw [hs, List.pairwise_append] at hpair
    have hbefore : ∀ x ∈ s, deleted x = false := by
      intro x hx
      by_contra hdeleted
      have hq := hpair.2.2 x hx q List.mem_cons_self (by simpa using hdeleted) harchived
      rw [hkept] at hq
      cases hq
    have hmem := mem_rehash_delete hvalid hs hkept hbefore
    rw [((written.delete deleted).rehash sha256).eq_of_id_eq hr hmem hid]

/-- A deletion after which every hash is had anew goes unreported exactly if it leaves no archived
row behind a deleted one. -/
theorem rehash_unseen_iff (hcopies : Copies archive written)
    (hvalid : (verifyChain sha256 written.rows).valid)
    (hfree : CollisionFree sha256
      (written.rows ++ ((written.delete deleted).rehash sha256).rows)) :
    ((runDivergenceCheck sha256 ((written.delete deleted).rehash sha256) archive).ok →
        Preserved ((written.delete deleted).rehash sha256) archive) ↔
      ¬ (LosesArchived written archive deleted ∧
        written.rows.Pairwise fun a b ↦ deleted a → b.id ∈ archive.keys → deleted b) := by
  rw [losesArchived_iff hcopies ((written.delete deleted).rehash sha256)
    (rehashed_map_id ..), ← ok_rehash_iff hcopies hvalid hfree]
  constructor
  · rintro h ⟨hlost, hreport⟩
    exact hlost ((preserved_iff_of_ok hreport).mp (h hreport))
  · intro h hreport
    exact (preserved_iff_of_ok hreport).mpr (not_not.mp fun hlost ↦ h ⟨hlost, hreport⟩)

end Rehash

/-- Archived entries are gone, and what is left goes on from the table as it was written. -/
def LostUnseen (sha256 : String → String) (written live : LiveTable) (archive : Archive) : Prop :=
  (∃ id ∈ archive.keys, ∀ row ∈ live.rows, row.id ≠ id) ∧ Continues sha256 written live archive

section Example

def secondRow : AuditLog :=
  writeAuditEntry Sha256.hexdigest postgres [statelessRow 1] 2 (orderEntry noState)

def twoRows : LiveTable := ⟨[statelessRow 1, secondRow], by
  simp [statelessRow, secondRow, writeAuditEntry, newRow]⟩

/-- The table after its last row has been deleted. -/
def truncatedTable : LiveTable := ⟨[statelessRow 1], List.pairwise_singleton _ _⟩

def twoRowArchive : Archive := archiveAfter [⟨nextDay, fun _ ↦ false, twoRows⟩]

theorem twoRowArchive_rows :
    twoRowArchive.rows = [(1, (statelessRow 1).serialize), (2, secondRow.serialize)] := by
  rfl

end Example

end TradingOS.Core
