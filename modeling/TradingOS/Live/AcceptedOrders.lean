import TradingOS.Live.OrderPlacement

namespace TradingOS.Live

open Lib Lib.Runs Brokers

namespace LiveOrders

variable {s t : LiveOrders} {e : PlacementEvent}

/-- The ids of the committed rows. -/
def rowIds (s : LiveOrders) : List String := s.rows.map PlacedOrder.brokerOrderId

/-- The audit entries on an order. -/
def notesOn (s : LiveOrders) (brokerOrderId : String) : List AuditNote :=
  s.audit.filter (·.brokerOrderId = some brokerOrderId)

/-- One row has the id that the broker gave, and one audit entry says that the order was placed. -/
def Remembers (s : LiveOrders) (call : PlacementCall) (ack : Acknowledgement) : Prop :=
  s.rowIds.count ack.brokerOrderId = 1 ∧
    s.notesOn ack.brokerOrderId = [⟨call.path.action, some ack.brokerOrderId⟩]

/-- Every order is remembered that a broker has acknowledged, once its call has ended. -/
def Remembered (s : LiveOrders) : Prop :=
  ∀ id call ack, s.calls.get? id = some call → call.stage = .ended (some ack) → s.Remembers call ack

/-- No statement of the transaction fails, the commit included. -/
def Commits (_ : LiveOrders) : PlacementEvent → LiveOrders → Prop
  | .write _ outcome, _ => outcome.isCommitted
  | _, _ => True

/-- Neither table knows the id. -/
def Unknown (s : LiveOrders) (brokerOrderId : String) : Prop :=
  brokerOrderId ∉ s.rowIds ∧ s.notesOn brokerOrderId = []

structure Inv (s : LiveOrders) : Prop where
  given : ∀ id call ack, s.calls.get? id = some call → call.stage.ack = some ack →
    ack.brokerOrderId ∈ s.given
  distinct : ∀ id id' call call' ack ack', s.calls.get? id = some call →
    s.calls.get? id' = some call' → call.stage.ack = some ack → call'.stage.ack = some ack' →
      ack.brokerOrderId = ack'.brokerOrderId → id = id'
  unwritten : ∀ id call ack, s.calls.get? id = some call → call.stage = .acknowledged ack →
    s.Unknown ack.brokerOrderId
  ungiven : ∀ brokerOrderId, brokerOrderId ∉ s.given → s.Unknown brokerOrderId

theorem inv_begin (maxRetries : ℕ) (brokers : BrokerKey → Broker) :
    (begin maxRetries brokers).Inv where
  given _ _ _ h := by cases h
  distinct _ _ _ _ _ _ h := by cases h
  unwritten _ _ _ h := by cases h
  ungiven _ _ := ⟨List.not_mem_nil, rfl⟩

theorem remembered_begin (maxRetries : ℕ) (brokers : BrokerKey → Broker) :
    (begin maxRetries brokers).Remembered := fun _ _ _ h ↦ by cases h

theorem record_rowIds (call : PlacementCall) (ack : Acknowledgement) :
    (s.record call ack).rowIds = s.rowIds ++ [ack.brokerOrderId] :=
  List.map_append

theorem record_notesOn (call : PlacementCall) (ack : Acknowledgement) (brokerOrderId : String) :
    (s.record call ack).notesOn brokerOrderId = s.notesOn brokerOrderId ++
      if ack.brokerOrderId = brokerOrderId then [⟨call.path.action, some brokerOrderId⟩] else [] := by
  rw [notesOn, record, List.filter_append]
  congr 1
  split
  · next h => simp [h]
  · next h => simp [h]

theorem Unknown.record {brokerOrderId : String} (h : s.Unknown brokerOrderId)
    (call : PlacementCall) {ack : Acknowledgement} (hne : ack.brokerOrderId ≠ brokerOrderId) :
    (s.record call ack).Unknown brokerOrderId := by
  refine ⟨?_, ?_⟩
  · rw [record_rowIds, List.mem_append, List.mem_singleton, not_or]
    exact ⟨h.1, hne.symm⟩
  · rw [record_notesOn, if_neg hne, List.append_nil, h.2]

/-- What a step that writes nothing on orders does to the calls: each is as it was, or has just got
an id that no one had. -/
structure Extends (s t : LiveOrders) : Prop where
  given : ∀ brokerOrderId, brokerOrderId ∉ t.given → brokerOrderId ∉ s.given
  rowIds : t.rowIds = s.rowIds
  notesOn : ∀ brokerOrderId, t.notesOn brokerOrderId = s.notesOn brokerOrderId
  calls : ∀ id call ack, t.calls.get? id = some call → call.stage.ack = some ack →
    s.calls.get? id = some call ∨
      ack.brokerOrderId ∈ t.given ∧ ack.brokerOrderId ∉ s.given ∧ call.stage = .acknowledged ack ∧
        ∀ id' call' ack', t.calls.get? id' = some call' → call'.stage.ack = some ack' → id' ≠ id →
          s.calls.get? id' = some call'

theorem unknown_of_extends (h : Extends s t) {brokerOrderId : String} :
    t.Unknown brokerOrderId ↔ s.Unknown brokerOrderId := by
  rw [Unknown, Unknown, h.rowIds, h.notesOn]

theorem Inv.of_extends (hs : s.Inv) (h : Extends s t) : t.Inv where
  given id call ack hget hack := by
    rcases h.calls id call ack hget hack with hold | ⟨hgiven, -⟩
    · by_contra hnot
      exact h.given _ hnot (hs.given id call ack hold hack)
    · exact hgiven
  distinct id id' call call' ack ack' hget hget' hack hack' heq := by
    by_contra hne
    rcases h.calls id call ack hget hack with hold | ⟨-, hfresh, -, hothers⟩
    · rcases h.calls id' call' ack' hget' hack' with hold' | ⟨-, hfresh, -⟩
      · exact hne (hs.distinct id id' call call' ack ack' hold hold' hack hack' heq)
      · exact hfresh (heq ▸ hs.given id call ack hold hack)
    · have hold' := hothers id' call' ack' hget' hack' (Ne.symm hne)
      exact hfresh (heq ▸ hs.given id' call' ack' hold' hack')
  unwritten id call ack hget hstage := by
    rw [unknown_of_extends h]
    have hack : call.stage.ack = some ack := by rw [hstage]; rfl
    rcases h.calls id call ack hget hack with hold | ⟨-, hfresh, -⟩
    · exact hs.unwritten id call ack hold hstage
    · exact hs.ungiven _ hfresh
  ungiven brokerOrderId hnot := (unknown_of_extends h).mpr (hs.ungiven _ (h.given _ hnot))

theorem Remembered.of_extends (hs : s.Remembered) (h : Extends s t) : t.Remembered := by
  intro id call ack hget hstage
  have hack : call.stage.ack = some ack := by rw [hstage]; rfl
  rcases h.calls id call ack hget hack with hold | ⟨-, -, hacknowledged, -⟩
  · rw [Remembers, h.rowIds, h.notesOn]
    exact hs id call ack hold hstage
  · cases hstage.symm.trans hacknowledged

theorem Moves.extends (hmoves : Moves s e t) (he : ∀ id outcome, e ≠ .write id outcome) :
    Extends s t := by
  cases hmoves with
  | stays _ => exact ⟨fun _ h ↦ h, rfl, fun _ ↦ rfl, fun _ _ _ hget _ ↦ .inl hget⟩
  | admits _ _ _ hstage =>
    refine ⟨fun _ h ↦ h, rfl, fun _ ↦ rfl, fun k call' ack hget hack ↦ ?_⟩
    rcases get?_add hget with rfl | hold
    · rw [hstage] at hack
      cases hack
    · exact .inl hold
  | advances _ _ _ hnone =>
    refine ⟨fun _ h ↦ h, rfl, fun _ ↦ rfl, fun k call' ack hget hack ↦ ?_⟩
    rcases get?_advance hget with ⟨-, _, -, rfl⟩ | ⟨-, hold⟩
    · cases hnone.symm.trans hack
    · exact .inl hold
  | @acknowledges _ id call brokers ack _ _ _ hfresh =>
    refine ⟨fun _ h hin ↦ h (List.mem_cons_of_mem _ hin), rfl, fun _ ↦ rfl,
      fun k call' ack' hget hack ↦ ?_⟩
    rcases get?_advance hget with ⟨rfl, _, -, rfl⟩ | ⟨-, hold⟩
    · obtain rfl := Option.some.inj hack
      refine .inr ⟨List.mem_cons_self, hfresh, rfl, fun k' call' ack' hget' _ hne ↦ ?_⟩
      rcases get?_advance hget' with ⟨hk, -⟩ | ⟨-, hold⟩
      · exact absurd hk hne
      · exact hold
    · exact .inl hold
  | writes _ _ => exact absurd rfl (he _ _)
  | @settles _ _ _ _ _ audit _ _ hrows haudit =>
    refine ⟨fun _ h ↦ h, hrows, fun brokerOrderId ↦ ?_, fun _ _ _ hget _ ↦ .inl hget⟩
    have hnone : audit.filter (·.brokerOrderId = some brokerOrderId) = [] := by
      refine List.filter_eq_nil_iff.mpr fun note hnote ↦ ?_
      simp [haudit note hnote]
    simp only [notesOn, List.filter_append, hnone, List.append_nil]

section Write

variable {id : ℕ} {call : PlacementCall} {ack : Acknowledgement} {outcome : WriteOutcome}

/-- The state that a write leaves behind. -/
def afterWrite (s : LiveOrders) (id : ℕ) (call : PlacementCall) (ack : Acknowledgement)
    (outcome : WriteOutcome) : LiveOrders :=
  advance (if outcome.isCommitted then s.record call ack else s) id (.ended ack)

theorem get?_afterWrite {k : ℕ} {call' : PlacementCall}
    (h : (s.afterWrite id call ack outcome).calls.get? k = some call') :
    (k = id ∧ ∃ old, s.calls.get? id = some old ∧ call' = { old with stage := .ended ack }) ∨
      k ≠ id ∧ s.calls.get? k = some call' := by
  have hcalls : (if outcome.isCommitted then s.record call ack else s).calls = s.calls := by
    split <;> rfl
  have hcases := get?_advance h
  rwa [hcalls] at hcases

theorem Unknown.afterWrite {brokerOrderId : String} (h : s.Unknown brokerOrderId)
    (hne : ack.brokerOrderId ≠ brokerOrderId) :
    (s.afterWrite id call ack outcome).Unknown brokerOrderId := by
  have hunknown : (if outcome.isCommitted then s.record call ack else s).Unknown brokerOrderId := by
    split
    · exact h.record call hne
    · exact h
  exact hunknown

theorem Inv.afterWrite (h : s.Inv) (hget : s.calls.get? id = some call)
    (hstage : call.stage = .acknowledged ack) : (s.afterWrite id call ack outcome).Inv := by
  have hack : call.stage.ack = some ack := by rw [hstage]; rfl
  have hview : ∀ {k call' ack'}, (s.afterWrite id call ack outcome).calls.get? k = some call' →
      call'.stage.ack = some ack' → ∃ old, s.calls.get? k = some old ∧ old.stage.ack = some ack' := by
    intro k call' ack' hget' hack'
    rcases get?_afterWrite hget' with ⟨rfl, old, -, rfl⟩ | ⟨-, hold⟩
    · exact ⟨call, hget, hack.trans hack'⟩
    · exact ⟨call', hold, hack'⟩
  have hgiven : (s.afterWrite id call ack outcome).given = s.given := by
    simp only [LiveOrders.afterWrite, LiveOrders.advance]
    split <;> rfl
  refine ⟨fun k call' ack' hget' hack' ↦ ?_, fun k k' call' call'' ack' ack'' hget' hget'' hack' hack''
    heq ↦ ?_, fun k call' ack' hget' hstage' ↦ ?_, fun brokerOrderId hnot ↦ ?_⟩
  · obtain ⟨old, hold, hack'⟩ := hview hget' hack'
    exact hgiven ▸ h.given k old ack' hold hack'
  · obtain ⟨old, hold, hack'⟩ := hview hget' hack'
    obtain ⟨old', hold', hack''⟩ := hview hget'' hack''
    exact h.distinct k k' old old' ack' ack'' hold hold' hack' hack'' heq
  · rcases get?_afterWrite hget' with ⟨-, old, -, rfl⟩ | ⟨hne, hold⟩
    · cases hstage'
    · have hack' : call'.stage.ack = some ack' := by rw [hstage']; rfl
      refine (h.unwritten k call' ack' hold hstage').afterWrite fun heq ↦ hne ?_
      exact (h.distinct id k call call' ack ack' hget hold hack hack' heq).symm
  · rw [hgiven] at hnot
    refine (h.ungiven brokerOrderId hnot).afterWrite fun heq ↦ hnot ?_
    exact heq ▸ h.given id call ack hget hack

theorem get?_afterWrite_self (hget : s.calls.get? id = some call) :
    (s.afterWrite id call ack outcome).calls.get? id = some { call with stage := .ended ack } := by
  have hcalls : (s.afterWrite id call ack outcome).calls =
      s.calls.modify id fun call ↦ { call with stage := .ended ack } := by
    simp only [afterWrite, advance]
    split <;> rfl
  rw [hcalls, Table.get?_modify, if_pos rfl, hget]
  rfl

theorem remembers_of_ne {call' : PlacementCall} {ack' : Acknowledgement}
    (hne : ack.brokerOrderId ≠ ack'.brokerOrderId) (h : s.Remembers call' ack') :
    (s.record call ack).Remembers call' ack' := by
  refine ⟨?_, ?_⟩
  · rw [record_rowIds, List.count_append, List.count_singleton, if_neg (by simpa using hne),
      Nat.add_zero, h.1]
  · rw [record_notesOn, if_neg hne, List.append_nil, h.2]

theorem remembers_record (h : s.Unknown ack.brokerOrderId) :
    (s.record call ack).Remembers call ack := by
  refine ⟨?_, ?_⟩
  · rw [record_rowIds, List.count_append, List.count_eq_zero_of_not_mem h.1, List.count_singleton_self]
  · rw [record_notesOn, if_pos rfl, h.2, List.nil_append]

/-- A transaction that is rolled back leaves no trace of the order. -/
theorem remembered_afterWrite_iff (h : s.Inv) (hremembered : s.Remembered)
    (hget : s.calls.get? id = some call) (hstage : call.stage = .acknowledged ack) :
    (s.afterWrite id call ack outcome).Remembered ↔ outcome.isCommitted := by
  have hunknown := h.unwritten id call ack hget hstage
  constructor
  · intro hafter
    by_contra hfailed
    obtain ⟨hcount, -⟩ := hafter id _ ack (get?_afterWrite_self hget) rfl
    have hrowIds : (s.afterWrite id call ack outcome).rowIds = s.rowIds := by
      rw [afterWrite, if_neg hfailed]
      rfl
    rw [hrowIds, List.count_eq_zero_of_not_mem hunknown.1] at hcount
    cases hcount
  · intro hcommitted k call' ack' hget' hstage'
    have hafter : ∀ {call' : PlacementCall} {ack' : Acknowledgement},
        (s.record call ack).Remembers call' ack' →
          (s.afterWrite id call ack outcome).Remembers call' ack' := by
      intro call' ack' hremembers
      rw [afterWrite, if_pos hcommitted]
      exact hremembers
    rcases get?_afterWrite hget' with ⟨-, old, hold, rfl⟩ | ⟨hne, hold⟩
    · obtain rfl := Option.some.inj (hget.symm.trans hold)
      obtain rfl := Option.some.inj (Stage.ended.inj hstage')
      exact hafter (remembers_record hunknown)
    · have hack : call.stage.ack = some ack := by rw [hstage]; rfl
      have hack' : call'.stage.ack = some ack' := by rw [hstage']; rfl
      refine hafter (remembers_of_ne (fun heq ↦ hne ?_) (hremembered k call' ack' hold hstage'))
      exact (h.distinct id k call call' ack ack' hget hold hack hack' heq).symm

end Write

theorem step_write {id : ℕ} {outcome : WriteOutcome} (h : s.step (.write id outcome) = some t) :
    ∃ call ack, s.calls.get? id = some call ∧ call.stage = .acknowledged ack ∧
      t = s.afterWrite id call ack outcome := by
  simp only [step] at h
  split at h
  · next hget =>
    obtain rfl := Option.some.inj h
    exact ⟨_, _, hget, rfl, rfl⟩
  · cases h

theorem step_inv (h : s.Inv) (hstep : s.step e = some t) : t.Inv := by
  cases e with
  | write id outcome =>
    obtain ⟨call, ack, hget, hstage, rfl⟩ := step_write hstep
    exact h.afterWrite hget hstage
  | _ => exact h.of_extends ((step_moves hstep).extends nofun)

theorem step_remembered_iff (h : s.Inv) (hremembered : s.Remembered) (hstep : s.step e = some t) :
    t.Remembered ↔ s.Commits e t := by
  cases e with
  | write id outcome =>
    obtain ⟨call, ack, hget, hstage, rfl⟩ := step_write hstep
    exact remembered_afterWrite_iff h hremembered hget hstage
  | _ => exact iff_of_true (hremembered.of_extends ((step_moves hstep).extends nofun)) trivial

/-- No order that a broker has acknowledged is forgotten exactly if no transaction fails that is to
write one down. -/
theorem remembered_iff_commits (maxRetries : ℕ) (brokers : BrokerKey → Broker)
    (events : List PlacementEvent) :
    Along step (fun _ _ t ↦ t.Remembered) (begin maxRetries brokers) events ↔
      Along step Commits (begin maxRetries brokers) events := by
  refine along_state_iff_of_invariant (fun s e t hs ↦ step_inv hs)
    (fun s e t hs hremembered ↦ step_remembered_iff hs hremembered)
    (inv_begin maxRetries brokers) (remembered_begin maxRetries brokers)

/-- The broker has the order, and the insertion of its row fails. -/
theorem insert_failed_forgotten :
    ¬ Along step (fun _ _ t ↦ t.Remembered) (begin 3 fun _ ↦ .adapter)
      [.executeSignal 0 "RELIANCE" 0 true, .send 0 0,
        .primaryEnds 0 .response ⟨"240102000000001", .pending, none⟩ 1, .write 0 .insertFailed] := by
  intro h
  obtain ⟨-, h⟩ := (along_cons rfl).mp h
  obtain ⟨-, h⟩ := (along_cons rfl).mp h
  obtain ⟨-, h⟩ := (along_cons rfl).mp h
  obtain ⟨hremembered, -⟩ := (along_cons rfl).mp h
  obtain ⟨hcount, -⟩ := hremembered 0 _ _ rfl rfl
  cases hcount

end LiveOrders

end TradingOS.Live
