import Mathlib.Logic.Function.Basic
import TradingOS.Governance.TradingGate

namespace TradingOS.Governance

open Lib.Runs

/-- The database with two history variables, which no endpoint reads: the version that was
current when a request was approved, and the request by which a strategy came into paper
trading. -/
structure Gate where
  db : Db
  approvedOn : RequestId → Option VersionId
  authorisedBy : StrategyId → Option RequestId

namespace Gate

def init : Gate := ⟨.empty, fun _ ↦ none, fun _ ↦ none⟩

def currentVersionId (g : Gate) (sid : StrategyId) : Option VersionId :=
  (g.db.strategies[sid]?).bind Strategy.currentVersionId

def record (g : Gate) (db : Db) : Event → Gate
  | .approve rid user =>
    match g.db.approveApproval rid user, g.db.requests.find? (·.id = rid) with
    | .ok _, some request =>
      { db := db
        approvedOn := Function.update g.approvedOn rid (g.currentVersionId request.strategyId)
        authorisedBy := Function.update g.authorisedBy request.strategyId (some rid) }
    | _, _ => { g with db := db }
  | .promote sid user .paperTrading =>
    match g.db.promoteStrategy sid user .paperTrading with
    | .error _ => { g with db := db }
    | .ok _ =>
      { g with
        db := db
        authorisedBy := Function.update g.authorisedBy sid
          ((g.db.latestRequest sid).map ApprovalRequest.id) }
  | _ => { g with db := db }

def step (g : Gate) (event : Event) : Option Gate :=
  (g.db.step event).map fun db ↦ g.record db event

def TradesApprovedCode (g : Gate) : Prop :=
  ∀ sid s, g.db.strategies[sid]? = some s → s.status = .paperTrading →
    ∃ rid, g.authorisedBy sid = some rid ∧ g.approvedOn rid = s.currentVersionId

structure Sound (g : Gate) : Prop where
  db : g.db.WellFormed
  authorised : ∀ sid s, g.db.strategies[sid]? = some s → s.status = .paperTrading →
    ∃ r, g.db.latestRequest sid = some r ∧ r.status = .approved ∧ g.authorisedBy sid = some r.id

end Gate

/-- A promotion to paper trading that passes the checks of the endpoint finds the version that was
current when the strategy's latest request was approved. -/
def PromotesApprovedVersion (g : Gate) : Event → Gate → Prop
  | .promote sid user .paperTrading, _ => ∀ s r, g.db.strategies[sid]? = some s →
    g.db.latestRequest sid = some r → user.canDecide → s.status ≠ .ideation →
    s.currentVersionId ≠ none → r.status = .approved → g.approvedOn r.id = s.currentVersionId
  | _, _ => True

namespace Db

theorem WellFormed.find_id {db : Db} (h : db.WellFormed) {r : ApprovalRequest}
    (hr : r ∈ db.requests) : db.requests.find? (·.id = r.id) = some r := by
  cases hfound : db.requests.find? (·.id = r.id) with
  | none =>
    have hno := List.find?_eq_none.mp hfound r hr
    simp at hno
  | some r' =>
    have hid : r'.id = r.id := by simpa using List.find?_some hfound
    rw [h.eq_of_id (List.mem_of_find?_eq_some hfound) hr hid]

theorem promoteStrategy_paperTrading {db : Db} {sid : StrategyId} {user : User} {s : Strategy}
    {r : ApprovalRequest} (hs : db.strategies[sid]? = some s)
    (hr : db.latestRequest sid = some r) (hrole : user.canDecide) (hideation : s.status ≠ .ideation)
    (hversion : s.currentVersionId ≠ none) (happroved : r.status = .approved) :
    ∃ db', db.promoteStrategy sid user .paperTrading = .ok db' := by
  cases hok : db.promoteStrategy sid user .paperTrading with
  | ok db' => exact ⟨db', rfl⟩
  | error e =>
    simp [promoteStrategy, hs, hrole, hideation, hversion, hasApprovedPaperRequest, hr,
      happroved] at hok

/-- While a strategy stays in paper trading, its latest request stays what it is. -/
theorem latestRequest_step {db db' : Db} (h : db.WellFormed) {event : Event} {k : StrategyId}
    {s' : Strategy} {r : ApprovalRequest} (hstep : db.step event = some db')
    (hs' : db'.strategies[k]? = some s') (hpaper : s'.status = .paperTrading)
    (hr : db.latestRequest k = some r) (happroved : r.status = .approved) :
    db'.latestRequest k = some r := by
  have hdecide {rid : RequestId} {d : Decision} {actorId : String}
      (hok : db.decideRequest rid d actorId = .ok db') : db'.latestRequest k = some r := by
    obtain ⟨request, hmem, rfl, hpending, -, hrequests, -⟩ := decideRequest_eq_ok hok
    rw [latestRequest_map hrequests (fun r ↦ by split <;> rfl), hr, Option.map_some]
    have hid : r.id ≠ request.id := by
      intro hid
      rw [h.eq_of_id (List.mem_of_find?_eq_some hr) hmem hid, hpending] at happroved
      cases happroved
    rw [if_neg hid]
  cases effect_of_step hstep with
  | refused => exact hr
  | createStrategy => exact hr
  | researchRun sid write _ =>
    cases write with
    | deployment recommended versionId rationale =>
      cases recommended with
      | paperTrading =>
        simp only [persistStrategyProgress, openPaperApprovalRequest] at hs' ⊢
        split at hs'
        · rwa [if_pos ‹_›]
        · rw [if_neg ‹_›]
          have hk : sid ≠ k := by
            rintro rfl
            exact setStatus_pendingPaperApproval hs' hpaper
          simpa [latestRequest, setStatus, modifyStrategy, hk] using hr
      | reject => exact hr
    | _ => exact hr
  | regeneration sid write _ => cases write <;> exact hr
  | approve hok => exact hdecide (approveApproval_eq_ok hok).2
  | reject hok => exact hdecide (rejectApproval_eq_ok hok).2
  | promote hok =>
    obtain ⟨-, -, -, -, hrequests, -⟩ := promoteStrategy_eq_ok hok
    rwa [latestRequest, hrequests]

end Db

namespace Gate

variable {g g' : Gate} {event : Event} {k : StrategyId}

theorem step_eq_some (h : g.step event = some g') :
    ∃ db, g.db.step event = some db ∧ g' = g.record db event := by
  obtain ⟨db, hdb, rfl⟩ := Option.map_eq_some_iff.mp h
  exact ⟨db, hdb, rfl⟩

@[simp] theorem record_db (db : Db) : (g.record db event).db = db := by
  cases event with
  | approve rid user =>
    simp only [record]
    split <;> rfl
  | promote sid user toStatus =>
    cases toStatus with
    | paperTrading =>
      simp only [record]
      split <;> rfl
    | _ => rfl
  | _ => rfl

theorem record_approve {db : Db} {request : ApprovalRequest} {user : User} (h : g.db.WellFormed)
    (hmem : request ∈ g.db.requests)
    (hok : g.db.approveApproval request.id user = .ok db) :
    g.record db (.approve request.id user) =
      { db := db
        approvedOn := Function.update g.approvedOn request.id
          (g.currentVersionId request.strategyId)
        authorisedBy := Function.update g.authorisedBy request.strategyId (some request.id) } := by
  simp only [record, hok, h.find_id hmem]

theorem record_promote {db : Db} {sid : StrategyId} {user : User}
    (hok : g.db.promoteStrategy sid user .paperTrading = .ok db) :
    g.record db (.promote sid user .paperTrading) =
      { g with
        db := db
        authorisedBy := Function.update g.authorisedBy sid
          ((g.db.latestRequest sid).map ApprovalRequest.id) } := by
  simp only [record, hok]

/-- The history of a strategy that was in paper trading before the step is not rewritten. -/
theorem record_history (event : Event) (db : Db) (h : g.db.WellFormed) {r : ApprovalRequest}
    (hr : g.db.latestRequest k = some r) (happroved : r.status = .approved)
    (hby : g.authorisedBy k = some r.id) :
    (g.record db event).authorisedBy k = some r.id ∧
      (g.record db event).approvedOn r.id = g.approvedOn r.id := by
  cases event with
  | approve rid user =>
    cases hok : g.db.approveApproval rid user with
    | error e =>
      simp only [record, hok]
      exact ⟨hby, trivial⟩
    | ok db' =>
      obtain ⟨request, hmem, rfl, hpending, -⟩ :=
        Db.decideRequest_eq_ok (Db.approveApproval_eq_ok hok).2
      -- the request decided now is pending, the strategy's latest one is approved
      have hne : request ≠ r := by
        rintro rfl
        rw [happroved] at hpending
        cases hpending
      have hk : k ≠ request.strategyId := by
        rintro rfl
        exact hne (Option.some.inj ((h.latestRequest_of_pending hmem hpending).symm.trans hr))
      have hid : r.id ≠ request.id := fun hid ↦
        hne (h.eq_of_id hmem (List.mem_of_find?_eq_some hr) hid.symm)
      have hrecord : (g.record db (.approve request.id user)).authorisedBy =
            Function.update g.authorisedBy request.strategyId (some request.id) ∧
          (g.record db (.approve request.id user)).approvedOn =
            Function.update g.approvedOn request.id (g.currentVersionId request.strategyId) := by
        simp only [record, hok, h.find_id hmem, and_self]
      rw [hrecord.1, hrecord.2, Function.update_of_ne hk, Function.update_of_ne hid]
      exact ⟨hby, rfl⟩
  | promote sid user toStatus =>
    cases toStatus with
    | paperTrading =>
      simp only [record]
      split
      · exact ⟨hby, rfl⟩
      · refine ⟨?_, rfl⟩
        by_cases hk : k = sid
        · subst hk
          simp only [Function.update_self, hr, Option.map_some]
        · simp only [Function.update_of_ne hk, hby]
    | _ => exact ⟨hby, rfl⟩
  | _ => exact ⟨hby, rfl⟩

/-- A strategy that the step leaves in paper trading was there before, or has just been approved,
or promoted on its latest request. -/
theorem step_paperTrading (h : g.Sound) (hstep : g.step event = some g') {s' : Strategy}
    (hs' : g'.db.strategies[k]? = some s') (hpaper : s'.status = .paperTrading) :
    ∃ r, g'.db.latestRequest k = some r ∧ r.status = .approved ∧
      g'.authorisedBy k = some r.id ∧
      (g.db.strategies[k]? = some s' ∧ g.authorisedBy k = some r.id ∧
          g'.approvedOn r.id = g.approvedOn r.id ∨
        g'.approvedOn r.id = s'.currentVersionId ∨
        ∃ user s, event = .promote k user .paperTrading ∧ user.canDecide ∧
          g.db.strategies[k]? = some s ∧ s.status ≠ .ideation ∧ s.currentVersionId ≠ none ∧
          s'.currentVersionId = s.currentVersionId ∧ g.db.latestRequest k = some r ∧
          g'.approvedOn = g.approvedOn) := by
  obtain ⟨db, hdb, rfl⟩ := step_eq_some hstep
  rw [record_db] at hs' ⊢
  cases Db.step_entered hdb hs' (.inl hpaper) with
  | unchanged hs =>
    obtain ⟨r, hr, happroved, hby⟩ := h.authorised k s' hs hpaper
    obtain ⟨hby', hon⟩ := record_history event db h.db hr happroved hby
    have hr' := Db.latestRequest_step h.db hdb hs' hpaper hr happroved
    exact ⟨r, hr', happroved, hby', .inl ⟨hs, hby, hon⟩⟩
  | @promoted s user toStatus _ hs hok he =>
    subst he
    cases toStatus with
    | paperTrading =>
      obtain ⟨hrole, ⟨s₀, hs₀, hideation, hversion⟩, hgate, -, hrequests, -⟩ :=
        Db.promoteStrategy_eq_ok hok
      obtain rfl := Option.some.inj (hs.symm.trans hs₀)
      obtain ⟨r, hr, happroved⟩ := Db.hasApprovedPaperRequest_iff.mp (hgate rfl)
      refine ⟨r, ?_, happroved, ?_, .inr (.inr ⟨user, s, rfl, hrole, hs, hideation, hversion, rfl,
        hr, ?_⟩)⟩
      · rwa [Db.latestRequest, hrequests]
      · rw [record_promote hok]
        simp only [hr, Option.map_some, Function.update_self]
      · rw [record_promote hok]
    | _ => cases hpaper
  | @approved s request user _ hs hmem hk hok he =>
    subst he hk
    obtain ⟨request', hmem', hid, hpending, -, hrequests, -⟩ :=
      Db.decideRequest_eq_ok (Db.approveApproval_eq_ok hok).2
    obtain rfl := h.db.eq_of_id hmem' hmem hid
    have hlatest := Db.latestRequest_map hrequests (fun r ↦ by split <;> rfl) request'.strategyId
    rw [h.db.latestRequest_of_pending hmem hpending, Option.map_some, if_pos rfl] at hlatest
    refine ⟨_, hlatest, rfl, ?_, .inr (.inl ?_)⟩
    · rw [record_approve h.db hmem hok]
      simp only [Function.update_self]
    · rw [record_approve h.db hmem hok]
      simp only [Function.update_self, currentVersionId, hs, Option.bind_some]

theorem step_sound (h : g.Sound) (hstep : g.step event = some g') : g'.Sound := by
  refine ⟨?_, fun sid s' hs' hpaper ↦ ?_⟩
  · obtain ⟨db, hdb, rfl⟩ := step_eq_some hstep
    rw [record_db]
    exact Db.step_wellFormed h.db hdb
  · obtain ⟨r, hr, happroved, hby, -⟩ := step_paperTrading h hstep hs' hpaper
    exact ⟨r, hr, happroved, hby⟩

theorem step_promoted {sid : StrategyId} {user : User} {s : Strategy}
    (hstep : g.step (.promote sid user .paperTrading) = some g')
    (hs : g.db.strategies[sid]? = some s) {db : Db}
    (hok : g.db.promoteStrategy sid user .paperTrading = .ok db) :
    g'.db.strategies[sid]? = some { s with status := .paperTrading } ∧
      g'.authorisedBy sid = (g.db.latestRequest sid).map ApprovalRequest.id ∧
      g'.approvedOn = g.approvedOn := by
  obtain ⟨db', hdb, rfl⟩ := step_eq_some hstep
  rw [Db.step, hok] at hdb
  obtain rfl : db = db' := Option.some.inj hdb
  obtain ⟨-, -, -, hstrategies, -⟩ := Db.promoteStrategy_eq_ok hok
  rw [record_promote hok]
  refine ⟨?_, Function.update_self .., rfl⟩
  simp only [hstrategies, List.getElem?_modify_eq, hs]
  rfl

theorem step_tradesApprovedCode_iff (h : g.Sound) (htrades : g.TradesApprovedCode)
    (hstep : g.step event = some g') :
    g'.TradesApprovedCode ↔ PromotesApprovedVersion g event g' := by
  constructor
  · intro h'
    cases event with
    | promote sid user toStatus =>
      cases toStatus with
      | paperTrading =>
        intro s r hs hr hrole hideation hversion happroved
        obtain ⟨db, hok⟩ :=
          Db.promoteStrategy_paperTrading hs hr hrole hideation hversion happroved
        obtain ⟨hs', hby, hon⟩ := step_promoted hstep hs hok
        obtain ⟨rid, hrid, hsame⟩ := h' sid _ hs' rfl
        rw [hby, hr, Option.map_some] at hrid
        obtain rfl := Option.some.inj hrid
        rw [← hon]
        exact hsame
      | _ => trivial
    | _ => trivial
  · intro hok sid s' hs' hpaper
    obtain ⟨r, -, happroved, hby', hcase⟩ := step_paperTrading h hstep hs' hpaper
    refine ⟨r.id, hby', ?_⟩
    rcases hcase with ⟨hs, hby, hon⟩ | hfresh |
      ⟨user, s, rfl, hrole, hs, hideation, hversion, hsame, hr, hon⟩
    · obtain ⟨rid, hrid, hsame⟩ := htrades sid s' hs hpaper
      obtain rfl := Option.some.inj (hby.symm.trans hrid)
      exact hon.trans hsame
    · exact hfresh
    · rw [hon, hsame]
      exact hok s r hs hr hrole hideation hversion happroved

theorem sound_init : init.Sound where
  db := Db.wellFormed_empty
  authorised := by
    intro sid s hs
    simp [init, Db.empty] at hs

end Gate

/-- In every order of research runs, regenerations, decisions and promotions: all that trades is
what was approved, exactly if no promotion to paper trading finds another version than the one
current when the latest request was approved. -/
theorem trades_what_was_approved_iff (events : List Event) :
    Along Gate.step (fun _ _ g ↦ g.TradesApprovedCode) .init events ↔
      Along Gate.step PromotesApprovedVersion .init events := by
  have hinit : Gate.init.Sound ∧ Gate.init.TradesApprovedCode := by
    refine ⟨Gate.sound_init, fun sid s hs ↦ ?_⟩
    simp [Gate.init, Db.empty] at hs
  calc
    Along Gate.step (fun _ _ g ↦ g.TradesApprovedCode) .init events ↔
        Along Gate.step (fun _ _ g ↦ g.Sound ∧ g.TradesApprovedCode) .init events := by
      refine along_iff_of_invariant (fun g _ g' h hstep ↦ Gate.step_sound h hstep)
        (fun g _ g' h hstep ↦ ?_) Gate.sound_init
      exact (and_iff_right (Gate.step_sound h hstep)).symm
    _ ↔ Along Gate.step PromotesApprovedVersion .init events := by
      refine along_state_iff (fun g _ g' h hstep ↦ ?_) hinit
      rw [and_iff_right (Gate.step_sound h.1 hstep)]
      exact Gate.step_tradesApprovedCode_iff h.1 h.2 hstep

/-- Approved on its first version, regenerated, promoted again: the second version, which nobody
approved, is in paper trading. -/
theorem regenerated_code_trades_unapproved :
    ¬ Along Gate.step (fun _ _ g ↦ g.TradesApprovedCode) .init
      [.createStrategy, .researchRun 0 .pythonCode, .researchRun 0 .validatorPass,
        .researchRun 0 .evaluatorPass, .researchRun 0 .optimization,
        .researchRun 0 (.deployment .paperTrading (some 0) "robust out of sample"),
        .approve 0 ⟨"pm@desk", .portfolioManager⟩, .regeneration 0 .pythonCode,
        .regeneration 0 .validatorPass,
        .promote 0 ⟨"pm@desk", .portfolioManager⟩ .paperTrading] := by
  intro h
  obtain ⟨rid, hby, hon⟩ := h.2.2.2.2.2.2.2.2.2.1 0 ⟨.paperTrading, some 1⟩ rfl rfl
  obtain rfl : 0 = rid := Option.some.inj hby
  have hversion : some 0 = some 1 := hon
  cases hversion

end TradingOS.Governance
