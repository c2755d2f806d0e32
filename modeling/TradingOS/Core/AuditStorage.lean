import TradingOS.Core.Audit
import TradingOS.Lib.Sha256

namespace TradingOS.Core

open Lib

section Storable

variable (db : Columns)

/-- Neither a float that is read as an `int` nor the negative zero. -/
def Columns.keepsLeaf : Leaf → Bool
  | .float x => !db.readsAsInt x && !(x.significand = 0 && x.negative)
  | _ => true

/-- Whether the texts of the keys are ordered as the keys are. -/
def sortAlike (keys : List Key) : Bool :=
  keys.all fun k ↦ keys.all fun l ↦ k.le l → k.text ≤ l.text

def Columns.keeps : Json Key → Bool :=
  Json.fold db.keepsLeaf (fun items ↦ items.all id) fun members ↦
    sortAlike (members.map Prod.fst) ∧ members.all Prod.snd

/-- What is stored of the entry is what was hashed. -/
structure Content.Storable (c : Content Payload) : Prop where
  before : db.keeps c.beforeState.value
  after : db.keeps c.afterState.value
  ip : c.ipAddress.map db.inet = c.ipAddress

end Storable

section Members

variable {β : Type}

theorem sortTexts_map {γ : Type} (f : β → γ) (members : List (String × β)) :
    sortTexts (members.map fun m ↦ (m.1, f m.2)) = (sortTexts members).map fun m ↦ (m.1, f m.2) :=
  (List.map_insertionSort (fun a b : String × β ↦ a.1 ≤ b.1) (fun a b : String × γ ↦ a.1 ≤ b.1)
    (fun m ↦ (m.1, f m.2)) members fun _ _ _ _ ↦ Iff.rfl).symm

theorem collapse_eq_self {members : List (String × β)} (h : (members.map Prod.fst).Nodup) :
    collapse members = members := List.pwFilter_eq_self.mpr (List.pairwise_map.mp h)

theorem map_fst_map {γ : Type} (f : β → γ) (members : List (String × β)) :
    (members.map fun m ↦ (m.1, f m.2)).map Prod.fst = members.map Prod.fst := by
  rw [List.map_map]
  rfl

/-- The members of a mapping that `json.dumps` takes, where keys of one text are one key. -/
structure Distinct (members : List (Key × β)) : Prop where
  nodup : (members.map Prod.fst).Nodup
  sameKind : ∀ m ∈ members, ∀ n ∈ members, m.1.isStr = n.1.isStr

namespace Distinct

variable {members : List (Key × β)} (h : Distinct members)

include h

theorem texts_inj {m n : Key × β} (hm : m ∈ members) (hn : n ∈ members)
    (htext : m.1.text = n.1.text) : m = n :=
  List.inj_on_of_nodup_map h.nodup hm hn (Key.text_injective (h.sameKind m hm n hn) htext)

theorem texts_nodup : ((keyTexts members).map Prod.fst).Nodup := by
  rw [keyTexts, List.map_map]
  exact h.nodup.of_map.map_on fun m hm n hn ↦ h.texts_inj hm hn

/-- Sorting by key is sorting by text where the texts are ordered as the keys are. -/
theorem keyTexts_sortKeys (halike : sortAlike (members.map Prod.fst)) :
    keyTexts (sortKeys members) = sortTexts (keyTexts members) := by
  have hle (m) (hm : m ∈ members) (n) (hn : n ∈ members) (hmn : m.1.le n.1) :
      m.1.text ≤ n.1.text := by
    simp only [sortAlike, List.all_map, List.all_eq_true, Function.comp_apply,
      decide_eq_true_eq] at halike
    exact halike m hm n hn hmn
  refine List.map_insertionSort _ _ _ _ fun m hm n hn ↦ ⟨hle m hm n hn, fun htext ↦ ?_⟩
  rcases m.1.total n.1 with hmn | hnm
  · exact hmn
  · rw [h.texts_inj hm hn (le_antisymm htext (hle n hn m hm hnm))]
    exact (n.1.total n.1).elim id id

end Distinct

theorem sortKeys_sorted (members : List (Key × β)) :
    (sortKeys members).Pairwise fun m n ↦ m.1.le n.1 := by
  have _ : Std.Total fun m n : Key × β ↦ (m.1.le n.1 : Prop) := ⟨fun m n ↦ m.1.total n.1⟩
  have _ : IsTrans (Key × β) fun m n ↦ m.1.le n.1 := ⟨fun _ _ _ ↦ Key.trans⟩
  exact List.pairwise_insertionSort _ _

theorem sortAlike_of_sorted {members : List (Key × β)}
    (h : ((keyTexts (sortKeys members)).map Prod.fst).Pairwise (· < ·)) :
    sortAlike (members.map Prod.fst) := by
  have htexts : (sortKeys members).Pairwise fun m n ↦ m.1.text < n.1.text := by
    simpa only [keyTexts, List.map_map, List.pairwise_map, Function.comp_apply] using h
  have hforth : (sortKeys members).Pairwise fun m n ↦ m.1.le n.1 → m.1.text ≤ n.1.text :=
    htexts.imp fun h _ ↦ h.le
  have hback : (sortKeys members).Pairwise fun m n ↦ n.1.le m.1 → n.1.text ≤ m.1.text :=
    (sortKeys_sorted members).imp fun hmn hnm ↦ by rw [Key.antisymm hmn hnm]
  have hall := List.Pairwise.forall_of_forall_of_flip (fun _ _ _ ↦ le_rfl) hforth hback
  simp only [sortAlike, List.all_map, List.all_eq_true, Function.comp_apply, decide_eq_true_eq]
  intro m hm n hn
  exact hall ((List.mem_insertionSort _).mpr hm) ((List.mem_insertionSort _).mpr hn)

end Members

theorem Accepted.distinct {members : List (Key × Json Key)} (h : Accepted (.dict members)) :
    Distinct members := by
  obtain ⟨hnodup, hkind, -⟩ := accepted_dict.mp h
  refine ⟨hnodup, fun m hm n hn ↦ ?_⟩
  rcases hkind with hkind | hkind <;> rw [hkind m hm, hkind n hn]

section Survival

variable {db : Columns}

theorem keeps_list {items : List (Json Key)} :
    db.keeps (.list items) ↔ ∀ v ∈ items, db.keeps v := by
  simp [Columns.keeps]

theorem keeps_dict {members : List (Key × Json Key)} :
    db.keeps (.dict members) ↔
      sortAlike (members.map Prod.fst) ∧ ∀ m ∈ members, db.keeps m.2 := by
  simp [Columns.keeps, Function.comp_def]

theorem readBack_eq_iff {a : Leaf} : db.readBack a = a ↔ db.keepsLeaf a := by
  cases a with
  | float x =>
    simp only [Columns.readBack, Columns.keepsLeaf]
    cases hint : db.readsAsInt x with
    | true => simp
    | false =>
      by_cases hzero : x.significand = 0 <;> simp [hzero, PyFloat.abs_eq_self]
  | _ => simp [Columns.readBack, Columns.keepsLeaf]

theorem document_dict_eq_store_iff {members : List (Key × Json Key)} (h : Distinct members)
    (ih : ∀ m ∈ members, document m.2 = db.store m.2 ↔ db.keeps m.2) :
    document (.dict members) = db.store (.dict members) ↔ db.keeps (.dict members) := by
  have hnodup : (((keyTexts members).map fun m ↦ (m.1, db.store m.2)).map Prod.fst).Nodup := by
    rw [map_fst_map]
    exact h.texts_nodup
  rw [document_dict, store_dict, collapse_eq_self hnodup, sortTexts_map, keeps_dict]
  constructor
  · intro he
    have hlist := Json.dict.inj he
    have hkeys := congrArg (List.map Prod.fst) hlist
    rw [map_fst_map, map_fst_map] at hkeys
    have hsorted := sortTexts_sorted h.texts_nodup
    rw [← hkeys] at hsorted
    refine ⟨sortAlike_of_sorted hsorted, fun m hm ↦ (ih m hm).mp ?_⟩
    have hmem : (m.1.text, document m.2) ∈
        (keyTexts (sortKeys members)).map fun m ↦ (m.1, document m.2) := by
      refine List.mem_map.mpr ⟨(m.1.text, m.2), List.mem_map.mpr ⟨m, ?_, rfl⟩, rfl⟩
      exact (List.mem_insertionSort _).mpr hm
    rw [hlist] at hmem
    obtain ⟨e, hmem, heq⟩ := List.mem_map.mp hmem
    obtain ⟨n, hn, rfl⟩ := List.mem_map.mp ((List.mem_insertionSort _).mp hmem)
    obtain ⟨htext, hvalue⟩ := Prod.mk.inj heq
    rw [h.texts_inj hn hm htext] at hvalue
    exact hvalue.symm
  · rintro ⟨halike, hkeeps⟩
    rw [h.keyTexts_sortKeys halike]
    congr 1
    refine List.map_congr_left fun m hm ↦ ?_
    obtain ⟨n, hn, rfl⟩ := List.mem_map.mp ((List.mem_insertionSort _).mp hm)
    exact Prod.ext rfl ((ih n hn).mpr (hkeeps n hn))

theorem document_eq_store_iff {v : Json Key} (h : Accepted v) :
    document v = db.store v ↔ db.keeps v := by
  induction v using Json.ind with
  | hleaf a =>
    rw [document_leaf, store_leaf, Json.leaf.injEq, eq_comm]
    exact readBack_eq_iff
  | hlist items ih =>
    rw [accepted_list] at h
    rw [document_list, store_list, Json.list.injEq, List.map_inj_left, keeps_list]
    exact forall₂_congr fun v hv ↦ ih v hv (h v hv)
  | hdict members ih =>
    exact document_dict_eq_store_iff (Accepted.distinct h)
      fun m hm ↦ ih m hm ((accepted_dict.mp h).2.2 m hm)

end Survival

theorem document_strKeys {d : Json String} (h : Ordered d) : document (strKeys d) = d := by
  induction d using Json.ind with
  | hleaf a => rfl
  | hlist items ih =>
    rw [ordered_list] at h
    rw [strKeys_list, document_list, List.map_map]
    congr 1
    exact (List.map_congr_left fun d hd ↦ ih d hd (h d hd)).trans (List.map_id _)
  | hdict members ih =>
    obtain ⟨hkeys, hvalues⟩ := ordered_dict.mp h
    have hsorted : (members.map fun m ↦ (Key.str m.1, strKeys m.2)).Pairwise
        fun m n ↦ m.1.le n.1 := by
      refine List.pairwise_map.mpr ((List.pairwise_map.mp hkeys).imp fun h ↦ ?_)
      simpa only [Key.le, decide_eq_true_eq] using h.le
    rw [strKeys_dict, document_dict, sortKeys, hsorted.insertionSort_eq, keyTexts, List.map_map,
      List.map_map]
    congr 1
    have hid (m) (hm : m ∈ members) : (m.1, document (strKeys m.2)) = id m :=
      Prod.ext rfl (ih m hm (hvalues m hm))
    exact (List.map_congr_left hid).trans (List.map_id _)

theorem canonicalPayload_eq_iff {c c' : Content Payload} :
    c.canonicalPayload = c'.canonicalPayload ↔
      document (.dict c.fields) = document (.dict c'.fields) := by
  simp only [Content.canonicalPayload, String.ofList_inj]
  exact ⟨Json.text_injective, congrArg Json.text⟩

theorem document_optValue_inj {s t : Option String} :
    document (optValue s) = document (optValue t) ↔ s = t := by
  cases s <;> cases t <;> simp [optValue, strValue, document_leaf]

section Survival

variable {db : Columns}

theorem Payload.document_loaded_stored_iff {v : Payload} :
    document (v.stored db).loaded.value = document v.value ↔ db.keeps v.value := by
  rw [← document_eq_store_iff v.accepted, eq_comm]
  exact Eq.congr_right (document_strKeys (ordered_store db v.value))

/-- The text that is hashed again is the text that was hashed exactly if the entry is storable. -/
theorem canonicalPayload_loaded_stored_iff {c : Content Payload} :
    (c.stored db).loaded.canonicalPayload = c.canonicalPayload ↔ c.Storable db := by
  have hbefore := @Payload.document_loaded_stored_iff db c.beforeState
  have hafter := @Payload.document_loaded_stored_iff db c.afterState
  rw [canonicalPayload_eq_iff, document_fields, document_fields]
  simp only [Json.dict.injEq, List.cons.injEq, Prod.mk.injEq, true_and, and_true,
    document_optValue_inj]
  constructor
  · rintro ⟨-, -, -, ha, hb, -, -, -, hip, -⟩
    exact ⟨hbefore.mp hb, hafter.mp ha, hip⟩
  · intro h
    exact ⟨rfl, rfl, rfl, hafter.mpr h.after, hbefore.mpr h.before, rfl, rfl, rfl, h.ip, rfl⟩

theorem recomputeEntryHash_newRow {c : Content Payload} (hc : c.Storable db) (sha256 : String → String)
    (prevHash : String) (id : ℕ) :
    recomputeEntryHash sha256 (newRow sha256 db prevHash id c).content.loaded prevHash =
      (newRow sha256 db prevHash id c).entryHash :=
  congrArg (fun t ↦ sha256 (t ++ prevHash)) (canonicalPayload_loaded_stored_iff.mpr hc)

/-- A stored entry gives back the hash that was stored with it exactly if it is storable, for a
hash that does not take the two texts for one, and only then does the table still verify. -/
theorem hash_survives_storage_iff (db : Columns) (sha256 : String → String) (table : List AuditLog)
    (id : ℕ) (c : Content Payload) :
    let row := writeAuditEntry sha256 db table id c
    let written := c.canonicalPayload ++ row.prevEntryHash
    let read := row.content.loaded.canonicalPayload ++ row.prevEntryHash
    let survives := recomputeEntryHash sha256 row.content.loaded row.prevEntryHash = row.entryHash
    (c.Storable db → survives) ∧
      ((sha256 read = sha256 written → read = written) → survives → c.Storable db) ∧
      ((verifyChain sha256 table).valid → ((verifyChain sha256 (table ++ [row])).valid ↔ survives)) := by
  intro row written read survives
  refine ⟨fun h ↦ recomputeEntryHash_newRow h _ _ _, fun hno hsurvives ↦ ?_, fun hvalid ↦ ?_⟩
  · exact canonicalPayload_loaded_stored_iff.mp ((String.append_left_inj _).mp (hno hsurvives))
  · rw [verifyChain_append_write, and_iff_right hvalid]

end Survival

section Example

/-- Decimals keep the number of their digits after the point. -/
def postgres : Columns where
  readsAsInt x := 0 ≤ x.shift
  integral_of_readsAsInt x h := by
    have hshift : (-x.shift).toNat = 0 := by
      have := of_decide_eq_true h
      omega
    simp [PyFloat.integral, hshift, Nat.mod_one]
  readsAsInt_of_shift _ h := decide_eq_true h
  inet := id

def noState : Payload := ⟨.leaf .null, rfl⟩

/-- `{"notional": 1e22}` -/
def notionalState : Payload :=
  ⟨.dict [(.str "notional", .leaf (.float (.scientific false 1 [] 22)))], rfl⟩

def orderEntry (after : Payload) : Content Payload :=
  ⟨"Human", "trader", "order_placed", "Order", none, noState, after, none, none,
    ⟨2026, 8, 7, 10, 30, 0, 0, true, by decide, by decide⟩⟩

def writtenOrder : AuditLog :=
  writeAuditEntry Sha256.hexdigest postgres [] 1 (orderEntry notionalState)

theorem recomputeEntryHash_genesis (c : Content Payload) :
    recomputeEntryHash Sha256.hexdigest c genesisPrevHash =
      Sha256.hexdigest (.ofList ((document (.dict c.fields)).text ++ List.replicate 64 '0')) :=
  congrArg Sha256.hexdigest String.ofList_append.symm

/-- 1e22 is written as `1e+22`, kept as 10000000000000000000000 and read as an `int`. -/
theorem recomputeEntryHash_writtenOrder :
    recomputeEntryHash Sha256.hexdigest writtenOrder.content.loaded writtenOrder.prevEntryHash ≠
      writtenOrder.entryHash := by
  change recomputeEntryHash Sha256.hexdigest ((orderEntry notionalState).stored postgres).loaded
    genesisPrevHash ≠ recomputeEntryHash Sha256.hexdigest (orderEntry notionalState) genesisPrevHash
  rw [recomputeEntryHash_genesis, recomputeEntryHash_genesis, document_fields, document_fields,
    Sha256.hexdigest_ofList (by decide +kernel), Sha256.hexdigest_ofList (by decide +kernel), ne_eq,
    String.ofList_inj]
  decide +kernel

theorem verifyChain_writtenOrder : (verifyChain Sha256.hexdigest [writtenOrder]).valid = false := by
  have hchain := @verifyChain_append_write Sha256.hexdigest postgres [] 1 (orderEntry notionalState)
  rw [List.nil_append] at hchain
  exact Bool.eq_false_iff.mpr fun h ↦ recomputeEntryHash_writtenOrder (hchain.mp h).2

theorem written_order_unverifiable :
    recomputeEntryHash Sha256.hexdigest writtenOrder.content.loaded writtenOrder.prevEntryHash ≠
        writtenOrder.entryHash ∧
      (verifyChain Sha256.hexdigest [writtenOrder]).valid = false :=
  ⟨recomputeEntryHash_writtenOrder, verifyChain_writtenOrder⟩

theorem stateless_order_storable : (orderEntry noState).Storable postgres := ⟨rfl, rfl, rfl⟩

def statelessRow (id : ℕ) : AuditLog :=
  newRow Sha256.hexdigest postgres genesisPrevHash id (orderEntry noState)

theorem verifyChain_statelessRow (id : ℕ) : (verifyChain Sha256.hexdigest [statelessRow id]).valid := by
  have hchain := @verifyChain_append_write Sha256.hexdigest postgres [] id (orderEntry noState)
  rw [List.nil_append] at hchain
  exact hchain.mpr ⟨rfl, recomputeEntryHash_newRow stateless_order_storable Sha256.hexdigest _ id⟩

theorem stateless_order_survives :
    let row := writeAuditEntry Sha256.hexdigest postgres [] 1 (orderEntry noState)
    recomputeEntryHash Sha256.hexdigest row.content.loaded row.prevEntryHash = row.entryHash ∧
      (orderEntry noState).Storable postgres ∧ (verifyChain Sha256.hexdigest ([] ++ [row])).valid := by
  intro row
  obtain ⟨hif, honly, hchain⟩ :=
    hash_survives_storage_iff postgres Sha256.hexdigest [] 1 (orderEntry noState)
  have hsurvives := hif stateless_order_storable
  refine ⟨hsurvives, honly (fun _ ↦ ?_) hsurvives, (hchain rfl).mpr hsurvives⟩
  exact congrArg (· ++ row.prevEntryHash)
    (canonicalPayload_loaded_stored_iff.mpr stateless_order_storable)

/-- Numbers are sorted as numbers when the hash is made, and as texts ever after. -/
example : postgres.keeps (.dict [(.int 2, .leaf .null), (.int 10, .leaf .null)]) = false := by
  decide +kernel

end Example

end TradingOS.Core
