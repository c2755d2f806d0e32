import TradingOS.Core.AuditStorage
import TradingOS.Lib.Runs

namespace TradingOS.Core

open Lib Lib.HashChain Lib.Runs

/-- Where a session stands in `write_audit_entry`. -/
inductive Call
  | none
  | locked
  | readTail (prevHash : String)

/-- What a transaction has inserted and no other sees yet, and where its call stands. -/
structure Session where
  pending : List AuditLog
  call : Call

def Session.fresh : Session := ⟨[], .none⟩

structure Store where
  committed : List AuditLog
  /-- The last id given out: a rollback does not take it back. -/
  sequence : ℕ
  lock : Option ℕ
  sessions : ℕ → Session

inductive Action
  | lock
  | readTail
  | insert (c : Content Payload)
  | commit
  | rollback

def byId (rows : List AuditLog) : List AuditLog := rows.insertionSort fun a b ↦ a.id ≤ b.id

namespace Store

def init : Store := ⟨[], 0, none, fun _ ↦ .fresh⟩

def setSession (s : Store) (w : ℕ) (x : Session) : Store :=
  { s with sessions := Function.update s.sessions w x }

/-- The lock is the transaction's, and goes with it. -/
def release (s : Store) (w : ℕ) : Option ℕ := if s.lock = some w then none else s.lock

def step (db : Columns) (sha256 : String → String) (s : Store) : ℕ × Action → Option Store
  | (w, action) =>
    let x := s.sessions w
    match action, x.call with
    | .lock, .none =>
      if s.lock = none ∨ s.lock = some w then
        some { s.setSession w ⟨x.pending, .locked⟩ with lock := some w }
      else none
    | .readTail, .locked =>
      some (s.setSession w ⟨x.pending, .readTail (lastHash (byId (s.committed ++ x.pending)))⟩)
    | .insert c, .readTail prevHash =>
      let id := s.sequence + 1
      some
        { s.setSession w ⟨x.pending ++ [newRow sha256 db prevHash id c], .none⟩ with sequence := id }
    | .commit, .none =>
      some
        { s.setSession w .fresh with
          committed := s.committed ++ x.pending
          lock := s.release w }
    | .rollback, _ => some { s.setSession w .fresh with lock := s.release w }
    | _, _ => none

end Store

/-- Rows in the order of their ids, none of them later than `n`, that verify. -/
structure Sound (sha256 : String → String) (n : ℕ) (rows : List AuditLog) : Prop where
  ordered : rows.Pairwise fun a b ↦ a.id < b.id
  bounded : ∀ row ∈ rows, row.id ≤ n
  chained : Chained (linkHash sha256) genesisPrevHash (rows.map AuditLog.block)

namespace Sound

variable {sha256 : String → String} {db : Columns} {n : ℕ} {rows : List AuditLog}

theorem byId_eq (h : Sound sha256 n rows) : byId rows = rows :=
  (h.ordered.imp fun h ↦ h.le).insertionSort_eq

theorem mono (h : Sound sha256 n rows) {m : ℕ} (hnm : n ≤ m) : Sound sha256 m rows :=
  ⟨h.ordered, fun row hrow ↦ (h.bounded row hrow).trans hnm, h.chained⟩

theorem of_append {rows' : List AuditLog} (h : Sound sha256 n (rows ++ rows')) :
    Sound sha256 n rows := by
  refine ⟨(List.pairwise_append.mp h.ordered).1,
    fun row hrow ↦ h.bounded row (List.mem_append_left _ hrow), ?_⟩
  have hchained := h.chained
  rw [List.map_append, chained_append] at hchained
  exact hchained.1

theorem append_newRow (h : Sound sha256 n rows) {c : Content Payload} (hc : c.Storable db) :
    Sound sha256 (n + 1) (rows ++ [newRow sha256 db (lastHash rows) (n + 1) c]) := by
  refine ⟨?_, ?_, ?_⟩
  · refine List.pairwise_append.mpr ⟨h.ordered, List.pairwise_singleton _ _, ?_⟩
    intro row hrow row' hrow'
    rw [List.mem_singleton.mp hrow']
    exact Nat.lt_succ_of_le (h.bounded row hrow)
  · intro row hrow
    rcases List.mem_append.mp hrow with hrow | hrow
    · exact (h.bounded row hrow).trans n.le_succ
    · exact (List.mem_singleton.mp hrow ▸ le_rfl)
  · rw [List.map_append, List.map_singleton, chained_append_singleton, tip_block]
    exact ⟨h.chained, rfl, recomputeEntryHash_newRow hc sha256 _ (n + 1)⟩

theorem verifies (h : Sound sha256 n rows) : (verifyChain sha256 (byId rows)).valid := by
  rw [h.byId_eq, verifyChain_valid]
  exact h.chained

end Sound

/-- A session that does not hold the lock has done nothing; with its own rows the table verifies;
and the tail it has read is still the tail. -/
structure Good (sha256 : String → String) (s : Store) (w : ℕ) : Prop where
  quiet : s.lock ≠ some w → s.sessions w = .fresh
  sound : Sound sha256 s.sequence (s.committed ++ (s.sessions w).pending)
  tail : ∀ p, (s.sessions w).call = .readTail p →
    p = lastHash (s.committed ++ (s.sessions w).pending)

section Steps

variable {sha256 : String → String} {db : Columns} {s t : Store} {v w : ℕ}

theorem Store.setSession_self (x : Session) : (s.setSession w x).sessions w = x :=
  Function.update_self ..

theorem Store.setSession_of_ne (h : v ≠ w) (x : Session) :
    (s.setSession w x).sessions v = s.sessions v := Function.update_of_ne h ..

theorem Store.release_of_ne (hlock : s.lock = some v) (h : v ≠ w) : s.release w = some v := by
  have hne : s.lock ≠ some w := by
    rw [hlock]
    exact fun he ↦ h (Option.some.inj he)
  rw [release, if_neg hne, hlock]

theorem Good.frame (h : Good sha256 s v) (hsession : t.sessions v = s.sessions v)
    (hcommitted : t.committed = s.committed) (hsequence : s.sequence ≤ t.sequence)
    (hlock : s.lock = some v → t.lock = some v) : Good sha256 t v := by
  refine ⟨fun hfree ↦ ?_, ?_, ?_⟩
  · rw [hsession]
    exact h.quiet fun hv ↦ hfree (hlock hv)
  · rw [hsession, hcommitted]
    exact h.sound.mono hsequence
  · rw [hsession, hcommitted]
    exact h.tail

/-- A transaction in a call holds the lock. -/
theorem Good.holds (h : Good sha256 s w) (hcall : (s.sessions w).call ≠ .none) :
    s.lock = some w := by
  by_contra hfree
  rw [h.quiet hfree] at hcall
  exact hcall rfl

theorem Good.fresh (hcommitted : Sound sha256 t.sequence t.committed)
    (hsession : t.sessions w = .fresh) : Good sha256 t w := by
  refine ⟨fun _ ↦ hsession, ?_, ?_⟩
  · rwa [hsession, Session.fresh, List.append_nil]
  · rw [hsession]
    exact nofun

theorem Good.of_holder {x : Session} (hsession : t.sessions w = x) (hlock : t.lock = some w)
    (hsound : Sound sha256 t.sequence (t.committed ++ x.pending))
    (htail : ∀ p, x.call = .readTail p → p = lastHash (t.committed ++ x.pending)) :
    Good sha256 t w := by
  subst hsession
  exact ⟨fun hfree ↦ absurd hlock hfree, hsound, htail⟩

/-- What each action does, and where the session's call stands then. -/
theorem Store.step_cases {a : Action} (hstep : s.step db sha256 (w, a) = some t) :
    match a with
    | .lock => (s.lock = none ∨ s.lock = some w) ∧
        t = { s.setSession w ⟨(s.sessions w).pending, .locked⟩ with lock := some w }
    | .readTail => (s.sessions w).call = .locked ∧
        t = s.setSession w ⟨(s.sessions w).pending,
          .readTail (lastHash (byId (s.committed ++ (s.sessions w).pending)))⟩
    | .insert c => ∃ p, (s.sessions w).call = .readTail p ∧
        t = { s.setSession w
            ⟨(s.sessions w).pending ++ [newRow sha256 db p (s.sequence + 1) c], .none⟩ with
          sequence := s.sequence + 1 }
    | .commit => t = { s.setSession w .fresh with
        committed := s.committed ++ (s.sessions w).pending
        lock := s.release w }
    | .rollback => t = { s.setSession w .fresh with lock := s.release w } := by
  cases a with
  | lock =>
    cases hcall : (s.sessions w).call with
    | none =>
      simp only [Store.step, hcall] at hstep
      split_ifs at hstep with hlock
      exact ⟨hlock, (Option.some.inj hstep).symm⟩
    | locked => simp [Store.step, hcall] at hstep
    | readTail p => simp [Store.step, hcall] at hstep
  | readTail =>
    cases hcall : (s.sessions w).call with
    | none => simp [Store.step, hcall] at hstep
    | locked =>
      simp only [Store.step, hcall] at hstep
      exact ⟨rfl, (Option.some.inj hstep).symm⟩
    | readTail p => simp [Store.step, hcall] at hstep
  | insert c =>
    cases hcall : (s.sessions w).call with
    | none => simp [Store.step, hcall] at hstep
    | locked => simp [Store.step, hcall] at hstep
    | readTail p =>
      simp only [Store.step, hcall] at hstep
      exact ⟨p, rfl, (Option.some.inj hstep).symm⟩
  | commit =>
    cases hcall : (s.sessions w).call with
    | none =>
      simp only [Store.step, hcall] at hstep
      exact (Option.some.inj hstep).symm
    | locked => simp [Store.step, hcall] at hstep
    | readTail p => simp [Store.step, hcall] at hstep
  | rollback =>
    simp only [Store.step] at hstep
    exact (Option.some.inj hstep).symm

theorem good_lock (h : ∀ v, Good sha256 s v) (hstep : s.step db sha256 (w, .lock) = some t) (v : ℕ) :
    Good sha256 t v := by
  obtain ⟨hlock, rfl⟩ := Store.step_cases hstep
  by_cases hv : v = w
  · subst hv
    exact .of_holder (Store.setSession_self _) rfl (h v).sound nofun
  · refine (h v).frame (Store.setSession_of_ne hv _) rfl le_rfl fun hheld ↦ ?_
    rw [hheld] at hlock
    rcases hlock with hlock | hlock
    · cases hlock
    · exact absurd (Option.some.inj hlock) hv

theorem good_readTail (h : ∀ v, Good sha256 s v)
    (hstep : s.step db sha256 (w, .readTail) = some t) (v : ℕ) : Good sha256 t v := by
  obtain ⟨hcall, rfl⟩ := Store.step_cases hstep
  by_cases hv : v = w
  · subst hv
    have hlock := (h v).holds (by rw [hcall]; exact nofun)
    refine .of_holder (Store.setSession_self _) hlock (h v).sound fun p hp ↦ ?_
    rw [(h v).sound.byId_eq] at hp
    exact (Call.readTail.inj hp).symm
  · exact (h v).frame (Store.setSession_of_ne hv _) rfl le_rfl id

theorem good_insert (h : ∀ v, Good sha256 s v) {c : Content Payload} (hc : c.Storable db)
    (hstep : s.step db sha256 (w, .insert c) = some t) (v : ℕ) : Good sha256 t v := by
  obtain ⟨p, hcall, rfl⟩ := Store.step_cases hstep
  by_cases hv : v = w
  · subst hv
    have hlock := (h v).holds (by rw [hcall]; exact nofun)
    refine .of_holder (Store.setSession_self _) hlock ?_ nofun
    rw [← List.append_assoc, (h v).tail p hcall]
    exact (h v).sound.append_newRow hc
  · exact (h v).frame (Store.setSession_of_ne hv _) rfl (Nat.le_succ _) id

theorem good_commit (h : ∀ v, Good sha256 s v) (hstep : s.step db sha256 (w, .commit) = some t)
    (v : ℕ) : Good sha256 t v := by
  obtain rfl : t = _ := Store.step_cases hstep
  by_cases hv : v = w
  · subst hv
    exact .fresh (h v).sound (Store.setSession_self _)
  · by_cases hheld : s.lock = some w
    · -- whoever does not hold the lock has nothing of its own
      refine .fresh (h w).sound ((Store.setSession_of_ne hv _).trans ((h v).quiet ?_))
      rw [hheld]
      exact fun he ↦ hv (Option.some.inj he).symm
    · refine (h v).frame (Store.setSession_of_ne hv _) ?_ le_rfl
        fun hlock ↦ Store.release_of_ne hlock hv
      rw [(h w).quiet hheld]
      exact List.append_nil _

theorem good_rollback (h : ∀ v, Good sha256 s v)
    (hstep : s.step db sha256 (w, .rollback) = some t) (v : ℕ) : Good sha256 t v := by
  obtain rfl : t = _ := Store.step_cases hstep
  by_cases hv : v = w
  · subst hv
    exact .fresh (h v).sound.of_append (Store.setSession_self _)
  · exact (h v).frame (Store.setSession_of_ne hv _) rfl le_rfl
      fun hlock ↦ Store.release_of_ne hlock hv

theorem good_step (h : ∀ v, Good sha256 s v) {e : ℕ × Action}
    (hstorable : ∀ c, e.2 = .insert c → c.Storable db)
    (hstep : s.step db sha256 e = some t) : ∀ v, Good sha256 t v := by
  obtain ⟨w, a⟩ := e
  cases a with
  | lock => exact good_lock h hstep
  | readTail => exact good_readTail h hstep
  | insert c => exact good_insert h (hstorable c rfl) hstep
  | commit => exact good_commit h hstep
  | rollback => exact good_rollback h hstep

theorem good_init (w : ℕ) : Good sha256 Store.init w :=
  .fresh ⟨.nil, fun _ hrow ↦ absurd hrow List.not_mem_nil, trivial⟩ rfl

end Steps

section Commitment

theorem document_strValue_inj {s t : String} : document (strValue s) = document (strValue t) ↔ s = t := by
  simp [strValue, document_leaf]

theorem Jsonb.document_loaded_inj {j k : Jsonb} :
    document j.loaded.value = document k.loaded.value ↔ j = k := by
  have hvalue (j : Jsonb) : document j.loaded.value = j.value := document_strKeys j.ordered
  rw [hvalue, hvalue]
  exact ⟨fun h ↦ by cases j; cases k; cases h; rfl, congrArg Jsonb.value⟩

namespace AuditLog

/-- The serialised entry. -/
def hashedText (row : AuditLog) : String := row.content.loaded.canonicalPayload ++ row.prevEntryHash

theorem content_eq {r r' : AuditLog}
    (h : document (.dict r.content.loaded.fields) = document (.dict r'.content.loaded.fields)) :
    r.content = r'.content := by
  rw [document_fields, document_fields] at h
  simp only [Json.dict.injEq, List.cons.injEq, Prod.mk.injEq, true_and, and_true,
    document_optValue_inj, document_strValue_inj] at h
  obtain ⟨haction, hactorId, hactorType, hafter, hbefore, hcreated, hentityId, hentityType, hip,
    hprompt⟩ := h
  have hcreated := Datetime.isoformat_injective hcreated
  rw [show r.content.loaded.createdAt = r.content.createdAt from rfl,
    show r'.content.loaded.createdAt = r'.content.createdAt from rfl, r.naive, r'.naive] at hcreated
  have hentityId := Option.map_injective (fun _ _ ↦ Uuid.text_injective) hentityId
  have hafter := Jsonb.document_loaded_inj.mp hafter
  have hbefore := Jsonb.document_loaded_inj.mp hbefore
  exact Content.ext hactorType hactorId haction hentityType hentityId hbefore hafter hprompt hip
    hcreated

/-- The payload is a mapping, which tells where it ends and the digest begins. -/
theorem eq_of_hashedText_eq {r r' : AuditLog} (h : r.hashedText = r'.hashedText) :
    r.content = r'.content ∧ r.prevEntryHash = r'.prevEntryHash := by
  have htext := congrArg String.toList h
  simp only [hashedText, Content.canonicalPayload, String.toList_append, String.toList_ofList] at htext
  rw [document_dict, document_dict] at htext
  obtain ⟨hmembers, hprev⟩ := Json.dict_text_append_inj htext
  refine ⟨content_eq ?_, String.toList_inj.mp hprev⟩
  rw [document_dict, document_dict, hmembers]

end AuditLog

/-- The last hash of a table that verifies commits to its rows, but for the ids, which are not
hashed: no two serialised entries share a hash, and none has the hash that stands before the
first. -/
theorem blocks_eq_of_lastHash_eq {sha256 : String → String} {table table' : List AuditLog}
    (hinj : ∀ r ∈ table, ∀ r' ∈ table', sha256 r.hashedText = sha256 r'.hashedText →
      r.hashedText = r'.hashedText)
    (hgenesis : ∀ r ∈ table ++ table', r.entryHash ≠ genesisPrevHash)
    (hvalid : (verifyChain sha256 table).valid) (hvalid' : (verifyChain sha256 table').valid)
    (hlast : table.getLast?.map AuditLog.entryHash = table'.getLast?.map AuditLog.entryHash) :
    table.map AuditLog.block = table'.map AuditLog.block := by
  have hlast : lastHash table = lastHash table' := congrArg (Option.getD · genesisPrevHash) hlast
  rw [← tip_block, ← tip_block] at hlast
  refine eq_of_tip_eq ?_ ?_ (verifyChain_valid.mp hvalid) (verifyChain_valid.mp hvalid') hlast
  · intro b hb b' hb' hhash
    obtain ⟨r, hr, rfl⟩ := List.mem_map.mp hb
    obtain ⟨r', hr', rfl⟩ := List.mem_map.mp hb'
    exact AuditLog.eq_of_hashedText_eq (hinj r hr r' hr' hhash)
  · intro b hb
    rw [← List.map_append] at hb
    obtain ⟨r, hr, rfl⟩ := List.mem_map.mp hb
    exact hgenesis r hr

end Commitment

/-- The condition on a step: what it inserts comes back from storage as it was hashed. -/
def InsertsStorable (db : Columns) (_ : Store) (e : ℕ × Action) (_ : Store) : Prop :=
  ∀ c, e.2 = .insert c → c.Storable db

theorem audit_chain_tamper_evident (db : Columns) (sha256 : String → String) :
    (∀ (events : List (ℕ × Action)) (s : Store), Run (Store.step db sha256) .init events s →
      Along (Store.step db sha256) (InsertsStorable db) .init events →
      (verifyChain sha256 (byId s.committed)).valid) ∧
    ∀ table table' : List AuditLog,
      (∀ r ∈ table, ∀ r' ∈ table', sha256 r.hashedText = sha256 r'.hashedText →
        r.hashedText = r'.hashedText) →
      (∀ r ∈ table ++ table', r.entryHash ≠ genesisPrevHash) →
      (verifyChain sha256 table).valid → (verifyChain sha256 table').valid →
      table.getLast?.map AuditLog.entryHash = table'.getLast?.map AuditLog.entryHash →
      table.map AuditLog.block = table'.map AuditLog.block := by
  refine ⟨fun events s hrun halong ↦ ?_, fun _ _ ↦ blocks_eq_of_lastHash_eq⟩
  have hkeep (s : Store) (e : ℕ × Action) (t : Store) (h : ∀ w, Good sha256 s w)
      (hstorable : InsertsStorable db s e t) (hstep : s.step db sha256 e = some t) :
      ∀ w, Good sha256 t w := good_step h hstorable hstep
  exact (hrun.invariant_along hkeep halong good_init 0).sound.of_append.verifies

section Example

def oneEntry (c : Content Payload) : List (ℕ × Action) :=
  [(0, .lock), (0, .readTail), (0, .insert c), (0, .commit)]

theorem run_oneEntry (c : Content Payload) :
    ∃ s, Run (Store.step postgres Sha256.hexdigest) .init (oneEntry c) s ∧
      byId s.committed = [writeAuditEntry Sha256.hexdigest postgres [] 1 c] :=
  ⟨_, .cons rfl (.cons rfl (.cons rfl (.cons rfl (.nil _)))), rfl⟩

theorem committed_order_unverifiable :
    ∃ s, Run (Store.step postgres Sha256.hexdigest) .init (oneEntry (orderEntry notionalState)) s ∧
      (verifyChain Sha256.hexdigest (byId s.committed)).valid = false := by
  obtain ⟨s, hrun, hs⟩ := run_oneEntry (orderEntry notionalState)
  refine ⟨s, hrun, ?_⟩
  rw [hs]
  exact verifyChain_writtenOrder

theorem statelessRow_entryHash_ne (id : ℕ) : (statelessRow id).entryHash ≠ genesisPrevHash := by
  have hhash : (statelessRow id).entryHash =
      recomputeEntryHash Sha256.hexdigest (orderEntry noState) genesisPrevHash := rfl
  have hgenesis : genesisPrevHash = String.ofList (List.replicate 64 '0') := rfl
  rw [hhash, recomputeEntryHash_genesis, document_fields,
    Sha256.hexdigest_ofList (by decide +kernel), hgenesis, ne_eq, String.ofList_inj]
  decide +kernel

theorem stateless_order_tamper_evident :
    (∃ s, Run (Store.step postgres Sha256.hexdigest) .init (oneEntry (orderEntry noState)) s ∧
      (verifyChain Sha256.hexdigest (byId s.committed)).valid) ∧
    [statelessRow 1].map AuditLog.block = [statelessRow 2].map AuditLog.block := by
  obtain ⟨hruns, htables⟩ := audit_chain_tamper_evident postgres Sha256.hexdigest
  obtain ⟨s, hrun, -⟩ := run_oneEntry (orderEntry noState)
  refine ⟨⟨s, hrun, hruns _ s hrun ?_⟩, htables _ _ ?_ ?_ (verifyChain_statelessRow 1)
    (verifyChain_statelessRow 2) rfl⟩
  · refine along_of_labels (fun e he _ _ c hc ↦ ?_) _
    simp only [oneEntry, List.mem_cons, List.not_mem_nil, or_false] at he
    rcases he with rfl | rfl | rfl | rfl <;> cases hc
    exact stateless_order_storable
  · intro r hr r' hr' _
    rw [List.mem_singleton.mp hr, List.mem_singleton.mp hr']
    rfl
  · intro r hr
    simp only [List.cons_append, List.nil_append, List.mem_cons, List.not_mem_nil, or_false] at hr
    rcases hr with rfl | rfl
    · exact statelessRow_entryHash_ne 1
    · exact statelessRow_entryHash_ne 2

end Example

end TradingOS.Core
