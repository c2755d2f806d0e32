import Mathlib.Data.List.Sort
import TradingOS.Governance.Approvals
import TradingOS.Lib.Calls
import TradingOS.Lib.Runs
import TradingOS.Lib.Table

namespace TradingOS.Governance.RiskLimits

open Lib Lib.Runs

inductive RequestStatus
  | pending | approved | rejected
  deriving DecidableEq

def RequestStatus.text : RequestStatus → String
  | pending => "PENDING"
  | approved => "APPROVED"
  | rejected => "REJECTED"

structure ChangeRequestPayload where
  scopeType : String
  scopeId : Option ℕ
  maxDailyLoss : ℚ
  maxPositionSizePct : Option ℚ
  maxSectorExposurePct : Option ℚ
  maxDrawdownPct : Option ℚ
  effectiveFrom : ℤ
  deriving DecidableEq

structure RiskLimitChangeRequest where
  proposed : ChangeRequestPayload
  status : RequestStatus
  stagedByUserId : ℕ
  confirmedByUserId : Option ℕ
  decidedAt : Option ℤ
  rejectionReason : Option String
  resultingRiskLimitId : Option ℕ
  deriving DecidableEq

structure RiskLimit where
  id : ℕ
  values : ChangeRequestPayload
  setByUserId : ℕ
  deriving DecidableEq

structure User where
  id : ℕ
  email : String
  deriving DecidableEq

inductive AuditDetail
  | staged (proposed : ChangeRequestPayload)
  | approved (before : Option ℚ) (after : ℚ) (riskLimitId stagedBy confirmedBy : ℕ)
  | rejected (reason : String)
  deriving DecidableEq

def AuditDetail.action : AuditDetail → String
  | staged _ => "RISK_LIMIT_CHANGE_STAGED"
  | approved .. => "RISK_LIMIT_CHANGE_APPROVED"
  | rejected _ => "RISK_LIMIT_CHANGE_REJECTED"

structure AuditEntry where
  actorId : String
  entityId : ℕ
  detail : AuditDetail
  deriving DecidableEq

structure Db where
  requests : Table ℕ RiskLimitChangeRequest
  riskLimits : List RiskLimit
  audit : List AuditEntry
  deriving DecidableEq

inductive Decision
  | confirm
  | reject (reason : String)
  deriving DecidableEq

structure Request where
  decision : Decision
  user : User
  deriving DecidableEq

/-- What a call writes: a new limit beside the one it found in force, or a reason. -/
inductive Effect
  | approve (before : Option RiskLimit) (limit : RiskLimit)
  | reject (reason : String)
  deriving DecidableEq

def Effect.limits : Effect → List RiskLimit
  | approve _ limit => [limit]
  | reject _ => []

/-- Where a call stands, with the row it has read. -/
inductive Phase
  | called
  | admitted (row : RiskLimitChangeRequest)
  | measured (row : RiskLimitChangeRequest) (before : Option RiskLimit)
  | inserted (row : RiskLimitChangeRequest) (before : Option RiskLimit) (limit : RiskLimit)
  | locked (row : RiskLimitChangeRequest) (effect : Effect) (decidedAt : ℤ)
  | flushed (row : RiskLimitChangeRequest) (effect : Effect) (decidedAt : ℤ)
  | succeeded
  | refused (error : HttpError)
  deriving DecidableEq

def Phase.isOver : Phase → Bool
  | succeeded | refused _ => true
  | _ => false

/-- The statements of a call. `write_audit_entry` takes its advisory lock before the session sends
the update of the request, and holds it to the commit. -/
inductive Action
  | read | readLatest
  | insert (limitId : ℕ)
  | lock (now : ℤ)
  | flush | commit
  deriving DecidableEq

namespace Db

variable (db : Db) (rid : ℕ)

def stageChange (body : ChangeRequestPayload) (user : User) : Db where
  requests := db.requests.put rid ⟨body, .pending, user.id, none, none, none, none⟩
  riskLimits := db.riskLimits
  audit := db.audit ++ [⟨user.email, rid, .staged body⟩]

def latestRiskLimit (scopeType : String) : Option RiskLimit :=
  let ofScope := db.riskLimits.filter (·.values.scopeType = scopeType)
  (ofScope.insertionSort fun limit limit' ↦
    limit'.values.effectiveFrom ≤ limit.values.effectiveFrom).head?

/-- The checks on the row as read. -/
def admission (request : Request) : Phase :=
  match db.requests.get? rid with
  | none => .refused ⟨404, "Change request not found"⟩
  | some row =>
    let status := row.status.text
    if row.status ≠ .pending then .refused ⟨400, s!"Change request is already {status}"⟩
    else if request.decision = .confirm ∧ row.stagedByUserId = request.user.id then
      .refused ⟨403, "Cannot confirm your own staged change (dual-control, SEC-013)"⟩
    else .admitted row

/-- What becomes visible when a call commits. The update names its row by the key alone. -/
def commitEffect (user : User) (row : RiskLimitChangeRequest) (effect : Effect) (decidedAt : ℤ) :
    Db where
  requests := db.requests.modify rid fun r ↦
    match effect with
    | .approve _ limit =>
      { r with
        status := .approved
        confirmedByUserId := some user.id
        decidedAt := some decidedAt
        resultingRiskLimitId := some limit.id }
    | .reject reason =>
      { r with
        status := .rejected
        confirmedByUserId := some user.id
        decidedAt := some decidedAt
        rejectionReason := some reason }
  riskLimits := db.riskLimits ++ effect.limits
  audit := db.audit ++ [
    match effect with
    | .approve before limit =>
      ⟨user.email, rid, .approved (before.map (·.values.maxDailyLoss)) limit.values.maxDailyLoss
        limit.id row.stagedByUserId user.id⟩
    | .reject reason => ⟨user.email, rid, .rejected reason⟩]

end Db

/-- The committed database, the holder of the advisory lock, and the calls. -/
structure Race where
  db : Db
  lock : Option ℕ
  calls : List (Served Request Phase)
  deriving DecidableEq

namespace Race

def move (r : Race) (i : ℕ) (phase : Phase) : Race :=
  { r with calls := Served.move r.calls i phase }

def step (rid : ℕ) (r : Race) : ℕ × Action → Option Race
  | (i, action) =>
    match r.calls[i]? with
    | none => none
    | some ⟨request, phase⟩ =>
      match action, phase with
      | .read, .called => some (r.move i (r.db.admission rid request))
      | .readLatest, .admitted row =>
        if request.decision = .confirm then
          some (r.move i (.measured row (r.db.latestRiskLimit row.proposed.scopeType)))
        else none
      | .insert limitId, .measured row before =>
        some (r.move i (.inserted row before ⟨limitId, row.proposed, request.user.id⟩))
      | .lock now, .inserted row before limit =>
        if r.lock = none then
          some { r.move i (.locked row (.approve before limit) now) with lock := some i }
        else none
      | .lock now, .admitted row =>
        match request.decision with
        | .confirm => none
        | .reject reason =>
          if r.lock = none then
            some { r.move i (.locked row (.reject reason) now) with lock := some i }
          else none
      | .flush, .locked row effect decidedAt => some (r.move i (.flushed row effect decidedAt))
      | .commit, .flushed row effect decidedAt =>
        some
          { r.move i .succeeded with
            db := r.db.commitEffect rid request.user row effect decidedAt
            lock := none }
      | _, _ => none

def begin (db : Db) (rid : ℕ) (body : ChangeRequestPayload) (stager : User)
    (requests : List Request) : Race :=
  ⟨db.stageChange rid body stager, none, Served.start requests .called⟩

end Race

def Request.IsSelfConfirm (request : Request) (row : RiskLimitChangeRequest) : Prop :=
  request.decision = .confirm ∧ row.stagedByUserId = request.user.id

/-- The change that was staged is decided once, by another than its stager if it takes effect, and
then by the one limit its row names. -/
structure Controlled (before : Db) (row : RiskLimitChangeRequest) (r : Race) : Prop where
  once : ∀ (i j : ℕ) (call call' : Served Request Phase), r.calls[i]? = some call →
    r.calls[j]? = some call' → call.phase = .succeeded → call'.phase = .succeeded → i = j
  decided : row.status = .pending ↔ ∀ call ∈ r.calls, call.phase ≠ .succeeded
  limits : ∃ new, r.db.riskLimits = before.riskLimits ++ new ∧
    if row.status = .approved then ∃ limit, new = [limit] ∧ row.resultingRiskLimitId = some limit.id
    else new = []
  distinct : row.status = .approved →
    ∃ user, row.confirmedByUserId = some user ∧ user ≠ row.stagedByUserId
  settled : (∀ call ∈ r.calls, call.phase.isOver) →
    (∃ call ∈ r.calls, ¬ call.input.IsSelfConfirm row) → ∃ call ∈ r.calls, call.phase = .succeeded

def DualControl (before : Db) (rid : ℕ) (r : Race) : Prop :=
  ∃ row, r.db.requests.get? rid = some row ∧ Controlled before row r

/-- The condition: whoever commits a decision finds the row still pending. -/
def DecidesPending (rid : ℕ) (r : Race) : ℕ × Action → Race → Prop
  | (_, .commit), _ => ∀ row, r.db.requests.get? rid = some row → row.status = .pending
  | _, _ => True

/-- One statement of one call. -/
inductive Advance (rid : ℕ) (db : Db) (request : Request) : Action → Phase → Phase → Db → Prop
  | read : Advance rid db request .read .called (db.admission rid request) db
  | readLatest {row : RiskLimitChangeRequest} :
      request.decision = .confirm →
      Advance rid db request .readLatest (.admitted row)
        (.measured row (db.latestRiskLimit row.proposed.scopeType)) db
  | insert {row : RiskLimitChangeRequest} {before : Option RiskLimit} {limitId : ℕ} :
      Advance rid db request (.insert limitId) (.measured row before)
        (.inserted row before ⟨limitId, row.proposed, request.user.id⟩) db
  | lockApproval {row : RiskLimitChangeRequest} {before : Option RiskLimit} {limit : RiskLimit}
      {now : ℤ} :
      Advance rid db request (.lock now) (.inserted row before limit)
        (.locked row (.approve before limit) now) db
  | lockRejection {row : RiskLimitChangeRequest} {reason : String} {now : ℤ} :
      request.decision = .reject reason →
      Advance rid db request (.lock now) (.admitted row) (.locked row (.reject reason) now) db
  | flush {row : RiskLimitChangeRequest} {effect : Effect} {decidedAt : ℤ} :
      Advance rid db request .flush (.locked row effect decidedAt)
        (.flushed row effect decidedAt) db
  | commit {row : RiskLimitChangeRequest} {effect : Effect} {decidedAt : ℤ} :
      Advance rid db request .commit (.flushed row effect decidedAt) .succeeded
        (db.commitEffect rid request.user row effect decidedAt)

namespace Race

variable {rid : ℕ} {r r' : Race} {i : ℕ} {action : Action}

theorem step_advance (h : r.step rid (i, action) = some r') :
    ∃ request phase phase', r.calls[i]? = some ⟨request, phase⟩ ∧
      Advance rid r.db request action phase phase' r'.db ∧
      r'.calls = Served.move r.calls i phase' := by
  simp only [step] at h
  split at h
  · cases h
  · next request phase hcall =>
    split at h
    · cases h
      exact ⟨request, _, _, hcall, .read, rfl⟩
    · split_ifs at h with hconfirm
      cases h
      exact ⟨request, _, _, hcall, .readLatest hconfirm, rfl⟩
    · cases h
      exact ⟨request, _, _, hcall, .insert, rfl⟩
    · split_ifs at h
      cases h
      exact ⟨request, _, _, hcall, .lockApproval, rfl⟩
    · split at h
      · cases h
      · next hreject =>
        split_ifs at h
        cases h
        exact ⟨request, _, _, hcall, .lockRejection hreject, rfl⟩
    · cases h
      exact ⟨request, _, _, hcall, .flush, rfl⟩
    · cases h
      exact ⟨request, _, _, hcall, .commit, rfl⟩
    · cases h

end Race

/-- What the phase of a call says of the row there is. -/
def Phase.Consistent (row : RiskLimitChangeRequest) (request : Request) : Phase → Prop
  | called | succeeded => True
  | admitted _ => ¬ request.IsSelfConfirm row
  | measured .. | inserted .. => request.user.id ≠ row.stagedByUserId
  | locked _ effect _ | flushed _ effect _ =>
    effect.limits ≠ [] → request.user.id ≠ row.stagedByUserId
  | refused _ => request.IsSelfConfirm row ∨ row.status ≠ .pending

theorem Phase.Consistent.mono {row row' : RiskLimitChangeRequest} {request : Request} {phase : Phase}
    (h : phase.Consistent row request) (hstager : row'.stagedByUserId = row.stagedByUserId)
    (hstatus : row.status ≠ .pending → row'.status ≠ .pending) : phase.Consistent row' request := by
  cases phase with
  | called | succeeded => trivial
  | refused => exact h.imp (fun hself ↦ ⟨hself.1, hstager.trans hself.2⟩) hstatus
  | admitted => exact fun hself ↦ h ⟨hself.1, hstager.symm.trans hself.2⟩
  | measured | inserted => exact fun he ↦ h (he.trans hstager)
  | locked | flushed => exact fun hlimits he ↦ h hlimits (he.trans hstager)

theorem Db.consistent_admission {db : Db} {rid : ℕ} {row : RiskLimitChangeRequest}
    (h : db.requests.get? rid = some row) (request : Request) :
    (db.admission rid request).Consistent row request := by
  simp only [admission, h]
  split_ifs with hpending hself
  · exact .inr hpending
  · exact .inl hself
  · exact hself

theorem Db.get?_commitEffect {db : Db} {rid : ℕ} {row : RiskLimitChangeRequest}
    (h : db.requests.get? rid = some row) (user : User) (read : RiskLimitChangeRequest)
    (effect : Effect) (decidedAt : ℤ) :
    ∃ row', (db.commitEffect rid user read effect decidedAt).requests.get? rid = some row' ∧
      row'.stagedByUserId = row.stagedByUserId ∧ row'.confirmedByUserId = some user.id ∧
      row'.status ≠ .pending ∧
      if row'.status = .approved then
        ∃ limit, effect.limits = [limit] ∧ row'.resultingRiskLimitId = some limit.id
      else effect.limits = [] := by
  simp only [commitEffect, Table.get?_modify, if_pos, h, Option.map_some, Option.some.injEq,
    exists_eq_left']
  cases effect with
  | approve before limit => exact ⟨rfl, rfl, by simp, by simp [Effect.limits]⟩
  | reject reason => exact ⟨rfl, rfl, by simp, by simp [Effect.limits]⟩

/-- The row is there, and every call is consistent with it. -/
structure Race.Consistent (rid : ℕ) (row : RiskLimitChangeRequest) (r : Race) : Prop where
  get : r.db.requests.get? rid = some row
  calls : ∀ call ∈ r.calls, call.phase.Consistent row call.input

theorem Advance.status {rid : ℕ} {db db' : Db} {request : Request} {action : Action}
    {phase phase' : Phase} (h : Advance rid db request action phase phase' db')
    {row : RiskLimitChangeRequest} (hrow : db.requests.get? rid = some row)
    (hphase : phase.Consistent row request) :
    ∃ row', db'.requests.get? rid = some row' ∧ row'.stagedByUserId = row.stagedByUserId ∧
      (row.status ≠ .pending → row'.status ≠ .pending) ∧ phase'.Consistent row' request := by
  cases h with
  | read => exact ⟨row, hrow, rfl, id, Db.consistent_admission hrow request⟩
  | readLatest hconfirm => exact ⟨row, hrow, rfl, id, fun he ↦ hphase ⟨hconfirm, he.symm⟩⟩
  | insert => exact ⟨row, hrow, rfl, id, hphase⟩
  | lockApproval => exact ⟨row, hrow, rfl, id, fun _ ↦ hphase⟩
  | lockRejection => exact ⟨row, hrow, rfl, id, fun hlimits ↦ absurd rfl hlimits⟩
  | flush => exact ⟨row, hrow, rfl, id, hphase⟩
  | commit =>
    obtain ⟨row', hrow', hstager, -, hstatus, -⟩ := Db.get?_commitEffect hrow request.user _ _ _
    exact ⟨row', hrow', hstager, fun _ ↦ hstatus, trivial⟩

namespace Race

variable {rid : ℕ} {row : RiskLimitChangeRequest} {r r' : Race} {before : Db}

theorem consistent_step (h : r.Consistent rid row) {label : ℕ × Action}
    (hstep : r.step rid label = some r') : ∃ row', r'.Consistent rid row' := by
  obtain ⟨request, phase, phase', hi, hadv, hcalls⟩ := step_advance hstep
  obtain ⟨row', hrow', hstager, hstatus, hphase'⟩ :=
    hadv.status h.get (h.calls _ (List.mem_of_getElem? hi))
  refine ⟨row', hrow', ?_⟩
  rw [hcalls]
  exact Served.forall_mem_move hi (fun call hcall ↦ (h.calls call hcall).mono hstager hstatus)
    hphase'

/-- When all the calls are over, one that may decide has met a decision or made it. -/
theorem Consistent.settled (h : r.Consistent rid row)
    (hdecided : row.status = .pending ↔ ∀ call ∈ r.calls, call.phase ≠ .succeeded)
    (hover : ∀ call ∈ r.calls, call.phase.isOver)
    (hmay : ∃ call ∈ r.calls, ¬ call.input.IsSelfConfirm row) :
    ∃ call ∈ r.calls, call.phase = .succeeded := by
  obtain ⟨call, hcall, hself⟩ := hmay
  by_contra hnone
  have hpending : row.status = .pending := hdecided.mpr fun call hcall hsucceeded ↦
    hnone ⟨call, hcall, hsucceeded⟩
  have hconsistent := h.calls call hcall
  have hend := hover call hcall
  cases hphase : call.phase with
  | succeeded => exact hnone ⟨call, hcall, hphase⟩
  | refused e =>
    rw [hphase] at hconsistent
    exact hconsistent.elim hself fun hstatus ↦ hstatus hpending
  | _ =>
    rw [hphase] at hend
    cases hend

end Race

theorem Advance.quiet {rid : ℕ} {db db' : Db} {request : Request} {action : Action}
    {phase phase' : Phase} (h : Advance rid db request action phase phase' db')
    (haction : action ≠ .commit) : db' = db ∧ phase ≠ .succeeded ∧ phase' ≠ .succeeded := by
  cases h with
  | commit => exact absurd rfl haction
  | read =>
    refine ⟨rfl, by simp, ?_⟩
    rw [Db.admission]
    split
    · simp
    · split_ifs <;> simp
  | _ => exact ⟨rfl, by simp, by simp⟩

theorem Advance.of_commit {rid : ℕ} {db db' : Db} {request : Request} {phase phase' : Phase}
    (h : Advance rid db request .commit phase phase' db') :
    ∃ read effect decidedAt, phase = .flushed read effect decidedAt ∧ phase' = .succeeded ∧
      db' = db.commitEffect rid request.user read effect decidedAt := by
  cases h with
  | commit => exact ⟨_, _, _, rfl, rfl, rfl⟩

namespace Race

variable {rid : ℕ} {row : RiskLimitChangeRequest} {r r' : Race} {before : Db} {i : ℕ}

/-- A call that does not commit changes nothing that is looked at. -/
theorem dualControl_of_quiet {request : Request} {phase phase' : Phase}
    (hi : r.calls[i]? = some ⟨request, phase⟩) (hcalls : r'.calls = Served.move r.calls i phase')
    (hdb : r'.db = r.db) (hphase : phase ≠ .succeeded) (hphase' : phase' ≠ .succeeded)
    (hconsistent : ∃ row, r'.Consistent rid row) (h : DualControl before rid r) :
    DualControl before rid r' := by
  obtain ⟨row, hrow, hcontrolled⟩ := h
  obtain ⟨row', hconsistent⟩ := hconsistent
  obtain rfl : row' = row := Option.some.inj (hconsistent.get.symm.trans (hdb ▸ hrow))
  have hold {j : ℕ} {call : Served Request Phase} (hj : r'.calls[j]? = some call)
      (hsucceeded : call.phase = .succeeded) : r.calls[j]? = some call := by
    rw [hcalls] at hj
    rcases Served.of_getElem?_move hi hj with ⟨-, rfl⟩ | ⟨-, hj⟩
    · exact absurd hsucceeded hphase'
    · exact hj
  have hdecided : row'.status = .pending ↔ ∀ call ∈ r'.calls, call.phase ≠ .succeeded := by
    rw [hcontrolled.decided]
    constructor
    · intro hnone
      rw [hcalls]
      exact Served.forall_mem_move hi hnone hphase'
    · intro hnone call hcall hsucceeded
      have hsome : ∃ call ∈ r.calls, call.phase = .succeeded := ⟨call, hcall, hsucceeded⟩
      obtain ⟨call', hcall', hsucceeded'⟩ :
          ∃ call ∈ Served.move r.calls i phase', call.phase = .succeeded :=
        Served.exists_mem_move _ hi hphase hsome
      exact hnone call' (hcalls ▸ hcall') hsucceeded'
  exact ⟨row', hconsistent.get,
    { once := fun j k call call' hj hk hsucceeded hsucceeded' ↦
        hcontrolled.once j k call call' (hold hj hsucceeded) (hold hk hsucceeded') hsucceeded
          hsucceeded'
      decided := hdecided
      limits := hdb ▸ hcontrolled.limits
      distinct := hcontrolled.distinct
      settled := hconsistent.settled hdecided }⟩

/-- The first commit decides. -/
theorem dualControl_of_commit {request : Request} {read : RiskLimitChangeRequest} {effect : Effect}
    {decidedAt : ℤ} (hi : r.calls[i]? = some ⟨request, .flushed read effect decidedAt⟩)
    (hcalls : r'.calls = Served.move r.calls i .succeeded)
    (hdb : r'.db = r.db.commitEffect rid request.user read effect decidedAt)
    (hcons : r.Consistent rid row) (hconsistent : ∃ row, r'.Consistent rid row)
    (h : Controlled before row r) (hpending : row.status = .pending) :
    DualControl before rid r' := by
  obtain ⟨row', hrow', hstager, hconfirmed, hstatus, hlimits⟩ :=
    Db.get?_commitEffect hcons.get request.user read effect decidedAt
  obtain ⟨row'', hconsistent⟩ := hconsistent
  obtain rfl : row'' = row' := Option.some.inj (hconsistent.get.symm.trans (hdb ▸ hrow'))
  have hnone := h.decided.mp hpending
  have honly {j : ℕ} {call : Served Request Phase} (hj : r'.calls[j]? = some call)
      (hsucceeded : call.phase = .succeeded) : j = i := by
    rw [hcalls] at hj
    rcases Served.of_getElem?_move hi hj with ⟨hji, -⟩ | ⟨-, hj⟩
    · exact hji
    · exact absurd hsucceeded (hnone call (List.mem_of_getElem? hj))
  have hself : ⟨request, .succeeded⟩ ∈ r'.calls := by
    rw [hcalls]
    exact Served.mem_move_self hi
  have hdecided : row''.status = .pending ↔ ∀ call ∈ r'.calls, call.phase ≠ .succeeded :=
    iff_of_false hstatus fun hall ↦ hall _ hself rfl
  refine ⟨row'', hconsistent.get, ?_⟩
  refine
    { once := fun j k call call' hj hk hsucceeded hsucceeded' ↦
        (honly hj hsucceeded).trans (honly hk hsucceeded').symm
      decided := hdecided
      limits := ?_
      distinct := fun happroved ↦ ⟨request.user.id, hconfirmed, ?_⟩
      settled := hconsistent.settled hdecided }
  · obtain ⟨new, hnew, hempty⟩ := h.limits
    rw [if_neg (by simp [hpending])] at hempty
    have happended : r'.db.riskLimits = r.db.riskLimits ++ effect.limits := by
      rw [hdb]
      rfl
    exact ⟨effect.limits, by rw [happended, hnew, hempty, List.append_nil], hlimits⟩
  · rw [if_pos happroved] at hlimits
    obtain ⟨limit, hlimit, -⟩ := hlimits
    rw [hstager]
    exact hcons.calls _ (List.mem_of_getElem? hi) (by simp [hlimit])

theorem dualControl_step_iff (hcons : ∃ row, r.Consistent rid row) (h : DualControl before rid r)
    {label : ℕ × Action} (hstep : r.step rid label = some r') :
    DualControl before rid r' ↔ DecidesPending rid r label r' := by
  obtain ⟨i, action⟩ := label
  obtain ⟨row, hrow, hcontrolled⟩ := h
  obtain ⟨row₀, hcons⟩ := hcons
  obtain rfl : row₀ = row := Option.some.inj (hcons.get.symm.trans hrow)
  have hconsistent := consistent_step hcons hstep
  obtain ⟨request, phase, phase', hi, hadv, hcalls⟩ := step_advance hstep
  by_cases haction : action = .commit
  · subst haction
    obtain ⟨read, effect, decidedAt, rfl, rfl, hdb⟩ := hadv.of_commit
    simp only [DecidesPending, hrow, Option.some.injEq, forall_eq']
    constructor
    · rintro ⟨row', hrow', hcontrolled'⟩
      by_contra hdecided
      rw [hcontrolled.decided, not_forall] at hdecided
      obtain ⟨call, hdecided⟩ := hdecided
      obtain ⟨hcall, hsucceeded⟩ := not_forall.mp hdecided
      obtain ⟨j, hj⟩ := List.mem_iff_getElem?.mp hcall
      rw [not_not] at hsucceeded
      have hne : j ≠ i := by
        rintro rfl
        obtain rfl := Option.some.inj (hi.symm.trans hj)
        cases hsucceeded
      have hself : r'.calls[i]? = some ⟨request, .succeeded⟩ := by
        rw [hcalls]
        exact Served.getElem?_move_self hi
      have hother : r'.calls[j]? = some call := by
        rw [hcalls, Served.getElem?_move_of_ne hne]
        exact hj
      exact hne (hcontrolled'.once j i _ _ hother hself hsucceeded rfl)
    · intro hpending
      exact dualControl_of_commit hi hcalls hdb hcons hconsistent hcontrolled hpending
  · obtain ⟨hdb, hphase, hphase'⟩ := hadv.quiet haction
    have hquiet : DecidesPending rid r (i, action) r' := by
      cases action with
      | commit => exact absurd rfl haction
      | _ => trivial
    exact iff_of_true (dualControl_of_quiet hi hcalls hdb hphase hphase' hconsistent
      ⟨row₀, hrow, hcontrolled⟩) hquiet

theorem consistent_begin (db : Db) (rid : ℕ) (body : ChangeRequestPayload) (stager : User)
    (requests : List Request) : (begin db rid body stager requests).Consistent rid
      ⟨body, .pending, stager.id, none, none, none, none⟩ := by
  refine ⟨(Table.get?_put ..).trans (if_pos rfl), fun call hcall ↦ ?_⟩
  rw [Served.phase_of_mem_start hcall]
  trivial

theorem dualControl_begin (db : Db) (rid : ℕ) (body : ChangeRequestPayload) (stager : User)
    (requests : List Request) : DualControl db rid (begin db rid body stager requests) := by
  have hcons := consistent_begin db rid body stager requests
  have hcalled : ∀ call ∈ (begin db rid body stager requests).calls, call.phase ≠ .succeeded :=
    fun call hcall hsucceeded ↦ by cases (Served.phase_of_mem_start hcall).symm.trans hsucceeded
  refine ⟨_, hcons.get, ?_⟩
  have hdecided : RequestStatus.pending = .pending ↔
      ∀ call ∈ (begin db rid body stager requests).calls, call.phase ≠ .succeeded :=
    iff_of_true rfl hcalled
  exact
    { once := fun i j call call' hi _ hsucceeded _ ↦
        absurd hsucceeded (hcalled call (List.mem_of_getElem? hi))
      decided := hdecided
      limits := ⟨[], (List.append_nil _).symm, by simp⟩
      distinct := fun happroved ↦ by cases happroved
      settled := hcons.settled hdecided }

end Race

/-- Whatever calls overlap on a staged change, it is under dual control in every state exactly if
each commit finds the change still pending. -/
theorem dualControl_along_iff (db : Db) (rid : ℕ) (body : ChangeRequestPayload) (stager : User)
    (requests : List Request) (labels : List (ℕ × Action)) :
    Along (Race.step rid) (fun _ _ r ↦ DualControl db rid r)
        (.begin db rid body stager requests) labels ↔
      Along (Race.step rid) (DecidesPending rid) (.begin db rid body stager requests) labels := by
  have hconsistent : ∀ r label r', (∃ row, Race.Consistent rid row r) →
      Race.step rid r label = some r' → ∃ row, Race.Consistent rid row r' :=
    fun r label r' ⟨row, hcons⟩ hstep ↦ Race.consistent_step hcons hstep
  exact along_state_iff_of_invariant hconsistent
    (fun r label r' hcons h hstep ↦ Race.dualControl_step_iff hcons h hstep)
    ⟨_, Race.consistent_begin db rid body stager requests⟩
    (Race.dualControl_begin db rid body stager requests)

def tighter : ChangeRequestPayload := ⟨"Global", none, 50000, none, none, some 10, 0⟩

def twoConfirmations : Race :=
  .begin ⟨.empty, [], []⟩ 1 tighter ⟨1, "stager"⟩
    [⟨.confirm, ⟨2, "second"⟩⟩, ⟨.confirm, ⟨3, "third"⟩⟩]

def overlapping : List (ℕ × Action) :=
  [(0, .read), (1, .read), (0, .readLatest), (0, .insert 7), (0, .lock 10), (0, .flush), (0, .commit),
   (1, .readLatest), (1, .insert 8), (1, .lock 11), (1, .flush), (1, .commit)]

/-- Two confirmations that have both read the change pending both make a limit. -/
theorem not_dualControl_overlapping :
    (exec (Race.step 1) twoConfirmations overlapping).map (·.db.riskLimits.length) = some 2 ∧
      ¬ Along (Race.step 1) (fun _ _ r ↦ DualControl ⟨.empty, [], []⟩ 1 r) twoConfirmations
        overlapping := by
  have hlimits : (exec (Race.step 1) twoConfirmations overlapping).map (·.db.riskLimits.length) =
      some 2 := by decide +kernel
  refine ⟨hlimits, fun h ↦ ?_⟩
  obtain ⟨r, hr, hlength⟩ := Option.map_eq_some_iff.mp hlimits
  obtain ⟨s, row, -, hcontrolled⟩ := @Along.last _ _ _ _ _ _ (overlapping.take 11) _ h
    (exec_eq_some.mp hr)
  obtain ⟨new, hnew, hone⟩ := hcontrolled.limits
  rw [hnew, List.nil_append] at hlength
  split at hone
  · obtain ⟨limit, rfl, -⟩ := hone
    cases hlength
  · rw [hone] at hlength
    cases hlength

end TradingOS.Governance.RiskLimits
