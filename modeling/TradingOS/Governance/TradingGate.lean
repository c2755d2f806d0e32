import Mathlib.Data.List.Nodup
import TradingOS.Governance.Approvals
import TradingOS.Lib.Runs

namespace TradingOS.Governance

open Lib.Runs

namespace Db

/-- What a strategy's requests say when they say no: there is none, or the last decision was a
rejection. -/
def Unapproved (db : Db) (sid : StrategyId) : Prop :=
  (∀ r ∈ db.requests, r.strategyId ≠ sid) ∨
    ∃ r, db.requests.find? (fun r ↦ r.strategyId = sid ∧ r.status ≠ .pending) = some r ∧
      r.status = .rejected

def NoUnapproved (db : Db) (status : StrategyStatus) : Prop :=
  ∀ sid s, db.strategies[sid]? = some s → db.Unapproved sid → s.status ≠ status

/-- The most recent request of a strategy in paper trading is an approved one. -/
def PaperApproved (db : Db) : Prop :=
  ∀ sid s, db.strategies[sid]? = some s → s.status = .paperTrading →
    db.hasApprovedPaperRequest sid ∧ ¬ db.Unapproved sid

structure WellFormed (db : Db) : Prop where
  ids : (db.requests.map ApprovalRequest.id).Nodup
  ids_lt : ∀ r ∈ db.requests, r.id < db.requests.length
  decided : db.requests.Pairwise fun newer older ↦
    newer.strategyId = older.strategyId → older.status ≠ .pending
  paper : ∀ sid s, db.strategies[sid]? = some s → s.status = .paperTrading →
    db.hasApprovedPaperRequest sid

theorem wellFormed_empty : WellFormed .empty where
  ids := List.nodup_nil
  ids_lt := nofun
  decided := .nil
  paper := by
    intro sid s hs
    simp [empty] at hs

theorem hasApprovedPaperRequest_iff {db : Db} {sid : StrategyId} :
    db.hasApprovedPaperRequest sid ↔
      ∃ r, db.latestRequest sid = some r ∧ r.status = .approved := by
  simp only [hasApprovedPaperRequest]
  cases db.latestRequest sid with
  | none => simp
  | some latest => simp

theorem not_unapproved {db : Db} {sid : StrategyId} (h : db.hasApprovedPaperRequest sid) :
    ¬ db.Unapproved sid := by
  obtain ⟨latest, hlatest, happroved⟩ := hasApprovedPaperRequest_iff.mp h
  have hmem := List.mem_of_find?_eq_some hlatest
  have hsid : latest.strategyId = sid := by simpa using List.find?_some hlatest
  rintro (hnone | ⟨r, hr, hrejected⟩)
  · exact hnone latest hmem hsid
  · -- the latest request is decided, so it is the latest decided one
    obtain ⟨-, before, after, hsplit, hbefore⟩ := List.find?_eq_some_iff_append.mp hlatest
    have hdecided : db.requests.find? (fun r ↦ r.strategyId = sid ∧ r.status ≠ .pending) =
        some latest := by
      refine List.find?_eq_some_iff_append.mpr ⟨by simp [hsid, happroved], before, after, hsplit,
        fun r hr ↦ ?_⟩
      have hother : r.strategyId ≠ sid := by simpa using hbefore r hr
      simp [hother]
    obtain rfl := Option.some.inj (hr.symm.trans hdecided)
    rw [happroved] at hrejected
    cases hrejected

theorem WellFormed.paperApproved {db : Db} (h : db.WellFormed) : db.PaperApproved :=
  fun sid s hs hpaper ↦ ⟨h.paper sid s hs hpaper, not_unapproved (h.paper sid s hs hpaper)⟩

theorem strategies_modify {db : Db} {sid k : StrategyId} {f : Strategy → Strategy} {s' : Strategy}
    (h : (db.strategies.modify sid f)[k]? = some s') :
    ∃ s, db.strategies[k]? = some s ∧ s' = if k = sid then f s else s := by
  rw [List.getElem?_modify, Option.map_eq_map, Option.map_eq_some_iff] at h
  obtain ⟨s, hs, rfl⟩ := h
  refine ⟨s, hs, ?_⟩
  by_cases hk : k = sid
  · simp [hk]
  · simp [hk, Ne.symm hk]

namespace WellFormed

variable {db db' : Db} {sid : StrategyId}

/-- A write to one strategy that leaves the requests alone. -/
theorem modifyStrategy (h : db.WellFormed) {f : Strategy → Strategy}
    (hstrategies : db'.strategies = db.strategies.modify sid f)
    (hrequests : db'.requests = db.requests)
    (hf : ∀ s, db.strategies[sid]? = some s → (f s).status = .paperTrading →
      db.hasApprovedPaperRequest sid) : db'.WellFormed where
  ids := by rw [hrequests]; exact h.ids
  ids_lt := by rw [hrequests]; exact h.ids_lt
  decided := by rw [hrequests]; exact h.decided
  paper := by
    intro k s' hs' hpaper
    rw [hstrategies] at hs'
    obtain ⟨s, hs, rfl⟩ := strategies_modify hs'
    simp only [hasApprovedPaperRequest, latestRequest, hrequests]
    split_ifs at hpaper with hk
    · subst hk
      exact hf s hs hpaper
    · exact h.paper k s hs hpaper

theorem setStatus (h : db.WellFormed) {status : StrategyStatus} (hne : status ≠ .paperTrading) :
    (db.setStatus sid status).WellFormed :=
  h.modifyStrategy rfl rfl fun _ _ he ↦ absurd he hne

theorem createStrategy (h : db.WellFormed) : db.createStrategy.WellFormed where
  ids := h.ids
  ids_lt := h.ids_lt
  decided := h.decided
  paper := by
    intro k s hs hpaper
    simp only [Db.createStrategy, List.getElem?_append] at hs
    split at hs
    · exact h.paper k s hs hpaper
    · obtain rfl := List.mem_singleton.mp (List.mem_of_getElem? hs)
      cases hpaper

theorem persistVersion (h : db.WellFormed) : (db.persistVersion sid).WellFormed :=
  h.modifyStrategy rfl rfl nofun

theorem persistValidation (h : db.WellFormed) : (db.persistValidation sid).WellFormed := by
  refine h.modifyStrategy rfl rfl fun s hs hpaper ↦ ?_
  split_ifs at hpaper
  exact h.paper sid s hs hpaper

/-- The request is opened for a strategy that has just been put aside to wait for it. -/
theorem openPaperApprovalRequest (h : db.WellFormed) (versionId : Option VersionId)
    (rationale : String)
    (hsid : ∀ s, db.strategies[sid]? = some s → s.status ≠ .paperTrading) :
    (db.openPaperApprovalRequest sid versionId rationale).WellFormed := by
  simp only [Db.openPaperApprovalRequest]
  split
  · exact h
  · next hnone =>
    have hopen : ∀ r ∈ db.requests, r.strategyId = sid → r.status ≠ .pending := by
      simpa using hnone
    refine ⟨?_, ?_, ?_, fun k s hs hpaper ↦ ?_⟩
    · refine List.nodup_cons.mpr ⟨fun hmem ↦ ?_, h.ids⟩
      obtain ⟨r, hr, hid⟩ := List.mem_map.mp hmem
      exact absurd hid (Nat.ne_of_lt (h.ids_lt r hr))
    · intro r hr
      rcases List.mem_cons.mp hr with rfl | hr
      · exact Nat.lt_succ_self _
      · exact Nat.lt_succ_of_lt (h.ids_lt r hr)
    · exact List.pairwise_cons.mpr ⟨fun r hr hk ↦ hopen r hr hk.symm, h.decided⟩
    · have hk : sid ≠ k := by
        rintro rfl
        exact hsid s hs hpaper
      have hlatest := h.paper k s hs hpaper
      simpa [hasApprovedPaperRequest, latestRequest, hk] using hlatest

theorem eq_of_id (h : db.WellFormed) {r r' : ApprovalRequest} (hr : r ∈ db.requests)
    (hr' : r' ∈ db.requests) (hid : r.id = r'.id) : r = r' :=
  List.inj_on_of_nodup_map h.ids hr hr' hid

theorem latestRequest_of_pending (h : db.WellFormed) {r : ApprovalRequest} (hr : r ∈ db.requests)
    (hpending : r.status = .pending) : db.latestRequest r.strategyId = some r := by
  obtain ⟨before, after, hsplit⟩ := List.append_of_mem hr
  refine List.find?_eq_some_iff_append.mpr ⟨by simp, before, after, hsplit, fun r' hr' ↦ ?_⟩
  have hdecided := h.decided
  rw [hsplit, List.pairwise_append] at hdecided
  have hne : r'.strategyId ≠ r.strategyId := fun he ↦
    hdecided.2.2 r' hr' r List.mem_cons_self he hpending
  simp [hne]

end WellFormed

theorem loadPending_eq_ok {db : Db} {rid : RequestId} {request : ApprovalRequest}
    (h : db.loadPending rid = .ok request) :
    request ∈ db.requests ∧ request.id = rid ∧ request.status = .pending := by
  simp only [loadPending] at h
  split at h
  · cases h
  · next found hfind =>
    split_ifs at h with hpending
    obtain rfl := Except.ok.inj h
    exact ⟨List.mem_of_find?_eq_some hfind, by simpa using List.find?_some hfind, hpending⟩

/-- All that a decision changes, and what it must have found. -/
theorem decideRequest_eq_ok {db db' : Db} {rid : RequestId} {d : Decision} {actorId : String}
    (h : db.decideRequest rid d actorId = .ok db') :
    ∃ request ∈ db.requests, request.id = rid ∧ request.status = .pending ∧
      db'.strategies = db.strategies.modify request.strategyId d.applyTo ∧
      db'.requests = db.requests.map (fun r ↦ if r.id = rid then
        { r with status := d.requestStatus, decidedBy := some actorId, reason := d.reason } else r) ∧
      db'.versions = db.versions ∧ db.loadPending rid = .ok request ∧
      ∃ entry, db'.audit = db.audit ++ [entry] ∧ entry.entityId = rid ∧ entry.action = d.action := by
  simp only [decideRequest] at h
  split at h
  · cases h
  · next request hload =>
    obtain ⟨hmem, hid, hpending⟩ := loadPending_eq_ok hload
    obtain rfl := Except.ok.inj h
    exact ⟨request, hmem, hid, hpending, rfl, rfl, rfl, hload, _, rfl, rfl, rfl⟩

theorem latestRequest_map {db db' : Db} {f : ApprovalRequest → ApprovalRequest}
    (hrequests : db'.requests = db.requests.map f)
    (hf : ∀ r, (f r).strategyId = r.strategyId) (sid : StrategyId) :
    db'.latestRequest sid = (db.latestRequest sid).map f := by
  rw [latestRequest, hrequests, List.find?_map]
  simp only [Function.comp_def, hf, latestRequest]

theorem WellFormed.decideRequest {db db' : Db} (h : db.WellFormed) {rid : RequestId}
    {d : Decision} {actorId : String} (hok : db.decideRequest rid d actorId = .ok db') :
    db'.WellFormed := by
  obtain ⟨request, hmem, rfl, hpending, hstrategies, hrequests, -⟩ := decideRequest_eq_ok hok
  have hlatest := h.latestRequest_of_pending hmem hpending
  have hlatest' := latestRequest_map hrequests (fun r ↦ by split <;> rfl)
  refine ⟨?_, ?_, ?_, fun k s' hs' hpaper ↦ ?_⟩
  · rw [hrequests, List.map_map]
    convert h.ids using 2
    funext r
    simp only [Function.comp_apply]
    split <;> rfl
  · rw [hrequests]
    intro r' hr'
    obtain ⟨r, hr, rfl⟩ := List.mem_map.mp hr'
    rw [List.length_map]
    split_ifs <;> exact h.ids_lt r hr
  · rw [hrequests]
    refine List.pairwise_map.mpr (h.decided.imp fun {newer older} hno hk ↦ ?_)
    have hk' : newer.strategyId = older.strategyId := by split_ifs at hk <;> exact hk
    split_ifs
    · cases d <;> exact nofun
    · exact hno hk'
  · rw [hstrategies] at hs'
    obtain ⟨s, hs, rfl⟩ := strategies_modify hs'
    rw [hasApprovedPaperRequest_iff, hlatest' k]
    by_cases hk : k = request.strategyId
    · subst hk
      rw [hlatest, Option.map_some]
      refine ⟨_, rfl, ?_⟩
      rw [if_pos rfl] at hpaper ⊢
      cases d with
      | approve => rfl
      | reject reason =>
        -- a waiting strategy is deprecated, and a trading one has no open request
        simp only [Decision.applyTo] at hpaper
        split_ifs at hpaper
        · cases hpaper
        · obtain ⟨latest, hl, happroved⟩ := hasApprovedPaperRequest_iff.mp (h.paper _ s hs hpaper)
          obtain rfl := Option.some.inj (hl.symm.trans hlatest)
          rw [hpending] at happroved
          cases happroved
    · rw [if_neg hk] at hpaper
      obtain ⟨latest, hl, happroved⟩ := hasApprovedPaperRequest_iff.mp (h.paper k s hs hpaper)
      have hl_sid : latest.strategyId = k := by simpa using List.find?_some hl
      have hid : latest.id ≠ request.id := by
        intro hid
        rw [h.eq_of_id (List.mem_of_find?_eq_some hl) hmem hid] at hl_sid
        exact hk hl_sid.symm
      rw [hl, Option.map_some, if_neg hid]
      exact ⟨latest, rfl, happroved⟩

/-- All that a promotion changes, and what it must have found. -/
theorem promoteStrategy_eq_ok {db db' : Db} {sid : StrategyId} {user : User}
    {toStatus : PromoteTarget} (h : db.promoteStrategy sid user toStatus = .ok db') :
    user.canDecide ∧
      (∃ s, db.strategies[sid]? = some s ∧ s.status ≠ .ideation ∧ s.currentVersionId ≠ none) ∧
      (toStatus = .paperTrading → db.hasApprovedPaperRequest sid) ∧
      db'.strategies =
        db.strategies.modify sid (fun s ↦ { s with status := toStatus.status }) ∧
      db'.requests = db.requests ∧ db'.versions = db.versions := by
  simp only [promoteStrategy] at h
  split at h
  · cases h
  · next hrole =>
    split at h
    · cases h
    · next s hs =>
      split_ifs at h with hideation hversion happroved
      obtain rfl := Except.ok.inj h
      exact ⟨by simpa using hrole, ⟨s, hs, hideation, hversion⟩, by simpa using happroved, rfl, rfl,
        rfl⟩

theorem WellFormed.promoteStrategy {db db' : Db} (h : db.WellFormed) {sid : StrategyId}
    {user : User} {toStatus : PromoteTarget}
    (hok : db.promoteStrategy sid user toStatus = .ok db') : db'.WellFormed := by
  obtain ⟨-, -, hgate, hstrategies, hrequests, -⟩ := promoteStrategy_eq_ok hok
  refine h.modifyStrategy hstrategies hrequests fun s _ hpaper ↦ hgate ?_
  cases toStatus <;> first | rfl | cases hpaper

theorem setStatus_pendingPaperApproval {db : Db} {sid : StrategyId} {s : Strategy}
    (h : (db.setStatus sid .pendingPaperApproval).strategies[sid]? = some s) :
    s.status ≠ .paperTrading := by
  obtain ⟨s, -, rfl⟩ := strategies_modify h
  rw [if_pos rfl]
  exact nofun

theorem WellFormed.persistStrategyProgress {db : Db} (h : db.WellFormed) (sid : StrategyId)
    (write : NodeWrite) : (db.persistStrategyProgress sid write).WellFormed := by
  cases write with
  | pythonCode => exact h.persistVersion
  | validatorPass => exact h.persistValidation
  | evaluatorPass => exact h.setStatus nofun
  | optimization => exact h.setStatus nofun
  | deployment recommended versionId rationale =>
    cases recommended with
    | paperTrading =>
      have hparked : (db.setStatus sid .pendingPaperApproval).WellFormed := h.setStatus nofun
      exact hparked.openPaperApprovalRequest versionId rationale
        fun _ ↦ setStatus_pendingPaperApproval
    | reject => exact h.setStatus nofun

theorem WellFormed.persistSuggestionRegeneration {db : Db} (h : db.WellFormed) (sid : StrategyId)
    (write : NodeWrite) : (db.persistSuggestionRegeneration sid write).WellFormed := by
  cases write with
  | pythonCode => exact h.persistVersion
  | validatorPass => exact h.persistValidation
  | _ => exact h

theorem getD_toOption_cases {db db' : Db} {x : Except HttpError Db}
    (h : x.toOption.getD db = db') : db' = db ∨ x = .ok db' := by
  cases x with
  | error e => exact .inl h.symm
  | ok db'' => exact .inr (congrArg _ h)

theorem approveApproval_eq_ok {db db' : Db} {rid : RequestId} {user : User}
    (h : db.approveApproval rid user = .ok db') :
    user.canDecide ∧ db.decideRequest rid .approve user.email = .ok db' := by
  simp only [approveApproval] at h
  split_ifs at h with hrole
  exact ⟨hrole, h⟩

theorem rejectApproval_eq_ok {db db' : Db} {rid : RequestId} {user : User} {reason : String}
    (h : db.rejectApproval rid user reason = .ok db') :
    user.canDecide ∧ db.decideRequest rid (.reject reason) user.email = .ok db' := by
  simp only [rejectApproval, reject] at h
  split_ifs at h with hrole
  exact ⟨hrole, h⟩

/-- What a step does, where an endpoint that refuses its request does nothing. -/
inductive Effect (db : Db) : Event → Db → Prop
  | refused (event : Event) : Effect db event db
  | createStrategy : Effect db .createStrategy db.createStrategy
  | researchRun (sid : StrategyId) (write : NodeWrite) : sid < db.strategies.length →
      Effect db (.researchRun sid write) (db.persistStrategyProgress sid write)
  | regeneration (sid : StrategyId) (write : NodeWrite) : sid < db.strategies.length →
      Effect db (.regeneration sid write) (db.persistSuggestionRegeneration sid write)
  | approve {rid : RequestId} {user : User} {db' : Db} :
      db.approveApproval rid user = .ok db' → Effect db (.approve rid user) db'
  | reject {rid : RequestId} {user : User} {reason : String} {db' : Db} :
      db.rejectApproval rid user reason = .ok db' → Effect db (.reject rid user reason) db'
  | promote {sid : StrategyId} {user : User} {toStatus : PromoteTarget} {db' : Db} :
      db.promoteStrategy sid user toStatus = .ok db' → Effect db (.promote sid user toStatus) db'

theorem effect_of_step {db db' : Db} {event : Event} (hstep : db.step event = some db') :
    Effect db event db' := by
  cases event with
  | createStrategy =>
    obtain rfl := Option.some.inj hstep
    exact .createStrategy
  | researchRun sid write =>
    simp only [step] at hstep
    split_ifs at hstep with hsid
    obtain rfl := Option.some.inj hstep
    exact .researchRun sid write hsid
  | regeneration sid write =>
    simp only [step] at hstep
    split_ifs at hstep with hsid
    obtain rfl := Option.some.inj hstep
    exact .regeneration sid write hsid
  | approve rid user =>
    rcases getD_toOption_cases (Option.some.inj hstep) with rfl | hok
    · exact .refused _
    · exact .approve hok
  | reject rid user reason =>
    rcases getD_toOption_cases (Option.some.inj hstep) with rfl | hok
    · exact .refused _
    · exact .reject hok
  | promote sid user toStatus =>
    rcases getD_toOption_cases (Option.some.inj hstep) with rfl | hok
    · exact .refused _
    · exact .promote hok

theorem step_wellFormed {db db' : Db} {event : Event} (h : db.WellFormed)
    (hstep : db.step event = some db') : db'.WellFormed := by
  cases effect_of_step hstep with
  | refused => exact h
  | createStrategy => exact h.createStrategy
  | researchRun sid write _ => exact h.persistStrategyProgress sid write
  | regeneration sid write _ => exact h.persistSuggestionRegeneration sid write
  | approve hok => exact h.decideRequest (approveApproval_eq_ok hok).2
  | reject hok => exact h.decideRequest (rejectApproval_eq_ok hok).2
  | promote hok => exact h.promoteStrategy hok

/-- How a step can leave a strategy that trades. -/
inductive Entered (db : Db) (sid : StrategyId) (s' : Strategy) : Event → Db → Prop
  | unchanged {event : Event} {db' : Db} :
      db.strategies[sid]? = some s' → Entered db sid s' event db'
  | promoted {s : Strategy} {user : User} {toStatus : PromoteTarget} {db' : Db} :
      db.strategies[sid]? = some s → db.promoteStrategy sid user toStatus = .ok db' →
      s' = { s with status := toStatus.status } →
      Entered db sid s' (.promote sid user toStatus) db'
  | approved {s : Strategy} {request : ApprovalRequest} {user : User} {db' : Db} :
      db.strategies[sid]? = some s → request ∈ db.requests → request.strategyId = sid →
      db.approveApproval request.id user = .ok db' →
      s' = { s with status := .paperTrading } →
      Entered db sid s' (.approve request.id user) db'

variable {db db' : Db} {k : StrategyId} {s' : Strategy}

theorem untouched_of_modify {sid : StrategyId} {f : Strategy → Strategy}
    (hs' : (db.strategies.modify sid f)[k]? = some s')
    (htrades : s'.status = .paperTrading ∨ s'.status = .live)
    (hf : ∀ s, f s = s ∨ (f s).status ≠ .paperTrading ∧ (f s).status ≠ .live) :
    db.strategies[k]? = some s' := by
  obtain ⟨s, hs, rfl⟩ := strategies_modify hs'
  split_ifs at htrades ⊢
  · rcases hf s with he | ⟨hpaper, hlive⟩
    · rw [he]
      exact hs
    · rcases htrades with ht | ht
      · exact absurd ht hpaper
      · exact absurd ht hlive
  · exact hs

theorem untouched_of_persistStrategyProgress {sid : StrategyId} (write : NodeWrite)
    (hs' : (db.persistStrategyProgress sid write).strategies[k]? = some s')
    (htrades : s'.status = .paperTrading ∨ s'.status = .live) :
    db.strategies[k]? = some s' := by
  have hset (status : StrategyStatus) (hp : status ≠ .paperTrading) (hl : status ≠ .live)
      (h : (db.setStatus sid status).strategies[k]? = some s') : db.strategies[k]? = some s' :=
    untouched_of_modify h htrades fun _ ↦ .inr ⟨hp, hl⟩
  cases write with
  | pythonCode => exact untouched_of_modify hs' htrades fun _ ↦ .inr ⟨nofun, nofun⟩
  | validatorPass =>
    refine untouched_of_modify hs' htrades fun s ↦ ?_
    split_ifs
    · exact .inl rfl
    · exact .inr ⟨nofun, nofun⟩
  | evaluatorPass => exact hset .optimizing nofun nofun hs'
  | optimization => exact hset .riskReview nofun nofun hs'
  | deployment recommended versionId rationale =>
    cases recommended with
    | paperTrading =>
      refine hset .pendingPaperApproval nofun nofun ?_
      simp only [persistStrategyProgress, openPaperApprovalRequest] at hs'
      split at hs' <;> exact hs'
    | reject => exact hset .deprecated nofun nofun hs'

theorem decideRequest_cases {rid : RequestId} {d : Decision} {actorId : String}
    (hok : db.decideRequest rid d actorId = .ok db') (hs' : db'.strategies[k]? = some s') :
    db.strategies[k]? = some s' ∨
      ∃ request ∈ db.requests, request.id = rid ∧ request.strategyId = k ∧
        ∃ s, db.strategies[k]? = some s ∧ s' = { s with status := d.strategyStatus } := by
  obtain ⟨request, hmem, hid, -, hstrategies, -⟩ := decideRequest_eq_ok hok
  rw [hstrategies] at hs'
  obtain ⟨s, hs, rfl⟩ := strategies_modify hs'
  split_ifs with hk
  · simp only [Decision.applyTo]
    split_ifs
    · exact .inr ⟨request, hmem, hid, hk.symm, s, hs, rfl⟩
    · exact .inl hs
  · exact .inl hs

theorem step_entered {event : Event} (hstep : db.step event = some db')
    (hs' : db'.strategies[k]? = some s')
    (htrades : s'.status = .paperTrading ∨ s'.status = .live) : Entered db k s' event db' := by
  cases effect_of_step hstep with
  | refused => exact .unchanged hs'
  | createStrategy =>
    refine .unchanged ?_
    simp only [createStrategy, List.getElem?_append] at hs'
    split at hs'
    · exact hs'
    · obtain rfl := List.mem_singleton.mp (List.mem_of_getElem? hs')
      rcases htrades with ht | ht <;> cases ht
  | researchRun sid write _ =>
    exact .unchanged (untouched_of_persistStrategyProgress write hs' htrades)
  | regeneration sid write _ =>
    refine .unchanged ?_
    cases write with
    | pythonCode =>
      exact untouched_of_persistStrategyProgress .pythonCode hs' htrades
    | validatorPass =>
      exact untouched_of_persistStrategyProgress .validatorPass hs' htrades
    | _ => exact hs'
  | approve hok =>
    rcases decideRequest_cases (approveApproval_eq_ok hok).2 hs' with
      hs | ⟨request, hmem, rfl, hk, s, hs, he⟩
    · exact .unchanged hs
    · exact .approved hs hmem hk hok he
  | reject hok =>
    rcases decideRequest_cases (rejectApproval_eq_ok hok).2 hs' with hs | ⟨_, _, _, _, s, _, rfl⟩
    · exact .unchanged hs
    · rcases htrades with ht | ht <;> cases ht
  | promote hok =>
    obtain ⟨-, -, -, hstrategies, -⟩ := promoteStrategy_eq_ok hok
    rw [hstrategies] at hs'
    obtain ⟨s, hs, rfl⟩ := strategies_modify hs'
    split_ifs with hk
    · subst hk
      exact .promoted hs hok rfl
    · exact .unchanged hs

end Db

/-- A strategy goes live only by the promotion endpoint, at the hands of one of its two roles, and
not before it has a version of its code. -/
def LiveIsGated (db : Db) (event : Event) (db' : Db) : Prop :=
  ∀ (sid : StrategyId) (s' : Strategy), db'.strategies[sid]? = some s' → s'.status = .live →
    db.strategies[sid]? = some s' ∨
      ∃ user s, event = .promote sid user .live ∧ user.canDecide ∧
        db.strategies[sid]? = some s ∧ s.status ≠ .ideation ∧ s.currentVersionId ≠ none

theorem step_liveIsGated {db db' : Db} {event : Event} (hstep : db.step event = some db') :
    LiveIsGated db event db' := by
  intro sid s' hs' hlive
  cases Db.step_entered hstep hs' (.inr hlive) with
  | unchanged hs => exact .inl hs
  | @promoted s user toStatus _ hs hok he =>
    subst he
    obtain ⟨hrole, ⟨s₀, hs₀, hideation, hversion⟩, -⟩ := Db.promoteStrategy_eq_ok hok
    cases toStatus with
    | live => exact .inr ⟨user, s₀, rfl, hrole, hs₀, hideation, hversion⟩
    | _ => cases hlive
  | approved _ _ _ _ he =>
    subst he
    cases hlive

/-- In every state that any order of the endpoints and write-backs leads to, the most recent request
of a strategy in paper trading is approved; and the one way into live trading is the promotion by a
human. -/
theorem no_paper_trading_unapproved (events : List Event) :
    Along Db.step (fun db event db' ↦ db'.PaperApproved ∧ LiveIsGated db event db')
      .empty events :=
  along_of_step (fun _ _ _ h hstep ↦
    have h' := Db.step_wellFormed h hstep
    ⟨h', h'.paperApproved, step_liveIsGated hstep⟩) Db.wellFormed_empty

/-- The gate asks for an approval only on the way into paper trading: coded and promoted at once,
the strategy is live and no request for it was ever made. -/
theorem live_without_approval :
    ¬ Along Db.step (fun _ _ db ↦ db.NoUnapproved .paperTrading ∧ db.NoUnapproved .live) .empty
      [.createStrategy, .researchRun 0 .pythonCode,
        .promote 0 ⟨"pm@desk", .portfolioManager⟩ .live] := by
  intro h
  exact h.2.2.1.2 0 ⟨.live, some 0⟩ rfl (.inl nofun) rfl

end TradingOS.Governance
