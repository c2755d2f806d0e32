import TradingOS.Core.CanonicalPayload
import TradingOS.Lib.HashChain

namespace TradingOS.Core

open Lib

/-- The values of a JSONB column: the keys of an object are distinct, and their order, which
nothing reads, is kept sorted here. -/
def Ordered : Json String → Bool :=
  Json.fold (fun _ ↦ true) (fun items ↦ items.all id) fun members ↦
    (members.map Prod.fst).Pairwise (· < ·) ∧ members.all Prod.snd

structure Jsonb where
  value : Json String
  ordered : Ordered value

/-- What the database makes of values that have several forms. A number that is kept without a
fractional part is read as an `int`; whether 1.0 is kept with one is left open. -/
structure Columns where
  readsAsInt : PyFloat → Bool
  integral_of_readsAsInt : ∀ x, readsAsInt x → x.integral
  readsAsInt_of_shift : ∀ x, 0 ≤ x.shift → readsAsInt x
  /-- The `str` of the INET value that the text is stored as. -/
  inet : String → String

section Columns

variable (db : Columns)

/-- A number as it comes back: decimals have no negative zero. -/
def Columns.readBack : Leaf → Leaf
  | .float x =>
    if db.readsAsInt x then .int x.truncated
    else .float (if x.significand = 0 then x.abs else x)
  | a => a

/-- Later members replace earlier ones of the same key. -/
def collapse {β : Type} (members : List (String × β)) : List (String × β) :=
  members.pwFilter fun a b ↦ a.1 ≠ b.1

def Columns.store : Json Key → Json String :=
  Json.fold (fun a ↦ .leaf (db.readBack a)) .list fun members ↦
    .dict (sortTexts (collapse (keyTexts members)))

end Columns

/-- A column value as Python reads it. -/
def strKeys : Json String → Json Key :=
  Json.fold .leaf .list fun members ↦ .dict (members.map fun m ↦ (.str m.1, m.2))

section Stored

theorem strKeys_list (items : List (Json String)) :
    strKeys (.list items) = .list (items.map strKeys) := Json.fold_list _ _ _ items

theorem strKeys_dict (members : List (String × Json String)) :
    strKeys (.dict members) = .dict (members.map fun m ↦ (.str m.1, strKeys m.2)) := by
  rw [strKeys, Json.fold_dict, List.map_map]
  rfl

theorem ordered_list {items : List (Json String)} :
    Ordered (.list items) ↔ ∀ d ∈ items, Ordered d := by
  simp [Ordered]

theorem ordered_dict {members : List (String × Json String)} :
    Ordered (.dict members) ↔
      (members.map Prod.fst).Pairwise (· < ·) ∧ ∀ m ∈ members, Ordered m.2 := by
  simp [Ordered, Function.comp_def]

theorem accepted_list {items : List (Json Key)} :
    Accepted (.list items) ↔ ∀ d ∈ items, Accepted d := by
  simp [Accepted]

theorem accepted_dict {members : List (Key × Json Key)} :
    Accepted (.dict members) ↔ (members.map Prod.fst).Nodup ∧
      ((∀ m ∈ members, m.1.isStr) ∨ ∀ m ∈ members, m.1.isStr = false) ∧
      ∀ m ∈ members, Accepted m.2 := by
  simp [Accepted, Function.comp_def]

theorem accepted_strKeys {d : Json String} (h : Ordered d) : Accepted (strKeys d) := by
  induction d using Json.ind with
  | hleaf a => rfl
  | hlist items ih =>
    rw [ordered_list] at h
    rw [strKeys_list, accepted_list]
    intro v hv
    obtain ⟨d, hd, rfl⟩ := List.mem_map.mp hv
    exact ih d hd (h d hd)
  | hdict members ih =>
    obtain ⟨hkeys, hvalues⟩ := ordered_dict.mp h
    rw [strKeys_dict, accepted_dict]
    refine ⟨?_, .inl ?_, ?_⟩
    · have hnodup : (members.map Prod.fst).Nodup := hkeys.imp fun h ↦ h.ne
      have hkeys := hnodup.map (f := Key.str) fun s t hst ↦ Key.str.inj hst
      simpa only [List.map_map, Function.comp_def] using hkeys
    · intro k hk
      obtain ⟨m, -, rfl⟩ := List.mem_map.mp hk
      rfl
    · intro k hk
      obtain ⟨m, hm, rfl⟩ := List.mem_map.mp hk
      exact ih m hm (hvalues m hm)

theorem collapse_nodup {β : Type} (members : List (String × β)) :
    ((collapse members).map Prod.fst).Nodup :=
  List.pairwise_map.mpr (List.pairwise_pwFilter members)

theorem sortTexts_sorted {β : Type} {members : List (String × β)}
    (h : (members.map Prod.fst).Nodup) :
    ((sortTexts members).map Prod.fst).Pairwise (· < ·) := by
  have hperm : ((sortTexts members).map Prod.fst).Perm (members.map Prod.fst) :=
    (List.perm_insertionSort _ _).map _
  have hsorted : ((sortTexts members).map Prod.fst).Pairwise (· ≤ ·) := by
    rw [sortTexts, List.map_insertionSort _ (· ≤ ·) _ _ fun _ _ _ _ ↦ Iff.rfl]
    exact List.pairwise_insertionSort _ _
  exact (hsorted.and (hperm.nodup_iff.mpr h)).imp fun h ↦ lt_of_le_of_ne h.1 h.2

section Store

variable (db : Columns)

theorem store_leaf (a : Leaf) : db.store (.leaf a) = .leaf (db.readBack a) := Json.fold_leaf _ _ _ a

theorem store_list (items : List (Json Key)) :
    db.store (.list items) = .list (items.map db.store) := Json.fold_list _ _ _ items

theorem store_dict (members : List (Key × Json Key)) :
    db.store (.dict members) =
      .dict (sortTexts (collapse ((keyTexts members).map fun m ↦ (m.1, db.store m.2)))) := by
  rw [Columns.store, Json.fold_dict, keyTexts_map]

theorem ordered_store (v : Json Key) : Ordered (db.store v) := by
  induction v using Json.ind with
  | hleaf a => rfl
  | hlist items ih =>
    rw [store_list, ordered_list]
    intro d hd
    obtain ⟨v, hv, rfl⟩ := List.mem_map.mp hd
    exact ih v hv
  | hdict members ih =>
    rw [store_dict, ordered_dict]
    refine ⟨sortTexts_sorted (collapse_nodup _), ?_⟩
    intro m hm
    have hmem := (List.pwFilter_sublist _).subset ((List.mem_insertionSort _).mp hm)
    simp only [keyTexts, List.map_map, List.mem_map, Function.comp_apply] at hmem
    obtain ⟨n, hn, rfl⟩ := hmem
    exact ih n hn

end Store

end Stored

def Payload.stored (db : Columns) (v : Payload) : Jsonb := ⟨db.store v.value, ordered_store db v.value⟩

def Jsonb.loaded (j : Jsonb) : Payload := ⟨strKeys j.value, accepted_strKeys j.ordered⟩

namespace Content

/-- The columns of an inserted row. -/
def stored (db : Columns) (c : Content Payload) : Content Jsonb :=
  { c with
    beforeState := c.beforeState.stored db
    afterState := c.afterState.stored db
    ipAddress := c.ipAddress.map db.inet
    createdAt := c.createdAt.naive }

/-- The columns of a selected row. -/
def loaded (c : Content Jsonb) : Content Payload :=
  { c with
    beforeState := c.beforeState.loaded
    afterState := c.afterState.loaded }

end Content

def genesisPrevHash : String := .ofList (List.replicate 64 '0')

/-- A row of the table, whose time column keeps no zone. -/
structure AuditLog where
  id : ℕ
  content : Content Jsonb
  entryHash : String
  prevEntryHash : String
  naive : content.createdAt.naive = content.createdAt

structure ChainVerificationResult where
  valid : Bool
  firstBrokenId : Option ℕ
  rowsChecked : ℕ
  deriving DecidableEq

section Chain

variable (sha256 : String → String)

def recomputeEntryHash (c : Content Payload) (prevHash : String) : String :=
  sha256 (c.canonicalPayload ++ prevHash)

/-- What the next row names, the rows coming in the order of their ids. -/
def lastHash (table : List AuditLog) : String :=
  (table.getLast?.map AuditLog.entryHash).getD genesisPrevHash

def newRow (db : Columns) (prevHash : String) (id : ℕ) (c : Content Payload) : AuditLog :=
  ⟨id, c.stored db, recomputeEntryHash sha256 c prevHash, prevHash, rfl⟩

/-- The row that is added to the table. -/
def writeAuditEntry (db : Columns) (table : List AuditLog) (id : ℕ) (c : Content Payload) :
    AuditLog :=
  newRow sha256 db (lastHash table) id c

/-- The loop of `verify_chain` over the rows that are left. -/
def verifyFrom (rowsChecked : ℕ) : String → List AuditLog → ChainVerificationResult
  | _, [] => ⟨true, none, rowsChecked⟩
  | expectedPrev, row :: rows =>
    if row.prevEntryHash ≠ expectedPrev then ⟨false, some row.id, rowsChecked⟩
    else if recomputeEntryHash sha256 row.content.loaded expectedPrev ≠ row.entryHash then
      ⟨false, some row.id, rowsChecked⟩
    else verifyFrom rowsChecked row.entryHash rows

def verifyChain (table : List AuditLog) : ChainVerificationResult :=
  verifyFrom sha256 table.length genesisPrevHash table

end Chain

namespace AuditLog

def block (row : AuditLog) : Block (Content Jsonb) String :=
  ⟨row.content, row.prevEntryHash, row.entryHash⟩

end AuditLog

open HashChain

section Verify

variable {sha256 : String → String}

def linkHash (sha256 : String → String) (c : Content Jsonb) (prevHash : String) : String :=
  recomputeEntryHash sha256 c.loaded prevHash

theorem verifyFrom_valid {n : ℕ} {p : String} {rows : List AuditLog} :
    (verifyFrom sha256 n p rows).valid ↔
      Chained (linkHash sha256) p (rows.map AuditLog.block) := by
  induction rows generalizing p with
  | nil => simp [verifyFrom, Chained]
  | cons row rows ih =>
    simp only [verifyFrom, List.map_cons, Chained, AuditLog.block, linkHash]
    split_ifs with hprev hhash
    · simp [hprev]
    · simp [hhash]
    · rw [not_not] at hprev hhash
      rw [ih]
      simp [hprev, hhash]

theorem verifyChain_valid {table : List AuditLog} :
    (verifyChain sha256 table).valid ↔
      Chained (linkHash sha256) genesisPrevHash (table.map AuditLog.block) := verifyFrom_valid

theorem tip_block (table : List AuditLog) :
    tip genesisPrevHash (table.map AuditLog.block) = lastHash table := by
  rw [tip_eq_getLast?, List.getLast?_map, Option.map_map]
  rfl

/-- A row that is written extends a chain that verifies exactly if its hash can be had again from
what is stored. -/
theorem verifyChain_append_write {db : Columns} {table : List AuditLog} {id : ℕ}
    {c : Content Payload} :
    (verifyChain sha256 (table ++ [writeAuditEntry sha256 db table id c])).valid ↔
      (verifyChain sha256 table).valid ∧
        let row := writeAuditEntry sha256 db table id c
        recomputeEntryHash sha256 row.content.loaded row.prevEntryHash = row.entryHash := by
  simp only [verifyChain_valid, List.map_append, List.map_cons, List.map_nil,
    chained_append_singleton, tip_block]
  simp [AuditLog.block, writeAuditEntry, newRow, linkHash]

end Verify

end TradingOS.Core
