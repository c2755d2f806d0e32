import Mathlib.Data.Nat.Notation

namespace TradingOS.Governance

abbrev StrategyId := ℕ
abbrev VersionId := ℕ
abbrev RequestId := ℕ

inductive StrategyStatus
  | ideation | coding | backtesting | optimizing | riskReview | pendingPaperApproval | paperTrading
  | live | deprecated
  deriving DecidableEq

inductive ApprovalStatus
  | pending | approved | rejected
  deriving DecidableEq

def ApprovalStatus.value : ApprovalStatus → String
  | pending => "pending"
  | approved => "approved"
  | rejected => "rejected"

inductive Role
  | systemAdministrator | portfolioManager | riskManager | readOnlyAuditor
  deriving DecidableEq

def Role.value : Role → String
  | systemAdministrator => "SystemAdministrator"
  | portfolioManager => "PortfolioManager"
  | riskManager => "RiskManager"
  | readOnlyAuditor => "ReadOnlyAuditor"

structure User where
  email : String
  role : Role
  deriving DecidableEq

/-- `_can_promote` and `_can_decide`: the same two roles. -/
def User.canDecide (user : User) : Bool :=
  user.role ∈ [Role.systemAdministrator, .portfolioManager]

structure Strategy where
  status : StrategyStatus
  currentVersionId : Option VersionId
  deriving DecidableEq

structure ApprovalRequest where
  id : RequestId
  strategyId : StrategyId
  strategyVersionId : Option VersionId
  status : ApprovalStatus
  decidedBy : Option String
  reason : Option String
  deriving DecidableEq

inductive AuditAction
  | approvalRequested | approvalApproved | approvalRejected | strategyPromoted
  deriving DecidableEq

structure AuditRecord where
  actorId : String
  action : AuditAction
  entityId : ℕ
  strategyId : StrategyId
  beforeStatus : Option StrategyStatus
  afterStatus : Option StrategyStatus
  note : Option String
  deriving DecidableEq

/-- A strategy's id is its position; the requests stand newest first, as the gate orders them. -/
structure Db where
  strategies : List Strategy
  versions : ℕ
  requests : List ApprovalRequest
  audit : List AuditRecord
  deriving DecidableEq

structure HttpError where
  statusCode : ℕ
  detail : String
  deriving DecidableEq

/-- The characters Python's `str.strip` takes off. -/
def isSpace (c : Char) : Bool :=
  c.toNat ∈ [0x20, 0x85, 0xa0, 0x1680, 0x2028, 0x2029, 0x202f, 0x205f, 0x3000] ∨
    0x09 ≤ c.toNat ∧ c.toNat ≤ 0x0d ∨ 0x1c ≤ c.toNat ∧ c.toNat ≤ 0x1f ∨
    0x2000 ≤ c.toNat ∧ c.toNat ≤ 0x200a

def strip (s : String) : String :=
  .ofList (((s.toList.dropWhile isSpace).reverse.dropWhile isSpace).reverse)

inductive Decision
  | approve
  | reject (reason : String)
  deriving DecidableEq

namespace Decision

def requestStatus : Decision → ApprovalStatus
  | approve => .approved
  | reject _ => .rejected

/-- Where a strategy that is waiting for the decision goes. -/
def strategyStatus : Decision → StrategyStatus
  | approve => .paperTrading
  | reject _ => .deprecated

def action : Decision → AuditAction
  | approve => .approvalApproved
  | reject _ => .approvalRejected

def reason : Decision → Option String
  | approve => none
  | reject reason => some (strip reason)

/-- What a decision does to the strategy's row: only a waiting strategy moves. -/
def applyTo (d : Decision) (s : Strategy) : Strategy :=
  if s.status = .pendingPaperApproval then { s with status := d.strategyStatus } else s

end Decision

namespace Db

def empty : Db := ⟨[], 0, [], []⟩

def modifyStrategy (db : Db) (sid : StrategyId) (f : Strategy → Strategy) : Db :=
  { db with strategies := db.strategies.modify sid f }

def setStatus (db : Db) (sid : StrategyId) (status : StrategyStatus) : Db :=
  db.modifyStrategy sid fun s ↦ { s with status := status }

def latestRequest (db : Db) (sid : StrategyId) : Option ApprovalRequest :=
  db.requests.find? (·.strategyId = sid)

def hasApprovedPaperRequest (db : Db) (sid : StrategyId) : Bool :=
  match db.latestRequest sid with
  | none => false
  | some latest => latest.status = .approved

def loadPending (db : Db) (rid : RequestId) : Except HttpError ApprovalRequest :=
  match db.requests.find? (·.id = rid) with
  | none => .error ⟨404, "Approval request not found"⟩
  | some request =>
    if request.status = .pending then .ok request
    else
      let status := request.status.value
      .error ⟨409, s!"approval {rid} is already '{status}'"⟩

def modifyRequest (db : Db) (rid : RequestId) (f : ApprovalRequest → ApprovalRequest) : Db :=
  { db with requests := db.requests.map fun r ↦ if r.id = rid then f r else r }

/-- The body that `approve` and `reject` share. -/
def decideRequest (db : Db) (rid : RequestId) (d : Decision) (actorId : String) :
    Except HttpError Db :=
  match db.loadPending rid with
  | .error e => .error e
  | .ok request =>
    let before := (db.strategies[request.strategyId]?).map Strategy.status
    let db := db.modifyStrategy request.strategyId d.applyTo
    let after := (db.strategies[request.strategyId]?).map Strategy.status
    let db := db.modifyRequest rid fun r ↦
      { r with status := d.requestStatus, decidedBy := some actorId, reason := d.reason }
    .ok
      { db with
        audit := db.audit ++
          [⟨actorId, d.action, rid, request.strategyId, before, after, d.reason⟩] }

def approve (db : Db) (rid : RequestId) (actorId : String) : Except HttpError Db :=
  db.decideRequest rid .approve actorId

def reject (db : Db) (rid : RequestId) (actorId reason : String) : Except HttpError Db :=
  if strip reason = "" then .error ⟨422, "a rejection reason is required (FR-053)"⟩
  else db.decideRequest rid (.reject reason) actorId

end Db

def forbidden (role : Role) : HttpError :=
  let name := role.value
  ⟨403, s!"Role '{name}' is not permitted to perform this action."⟩

inductive PromoteTarget
  | backtesting | paperTrading | live | deprecated
  deriving DecidableEq

def PromoteTarget.status : PromoteTarget → StrategyStatus
  | backtesting => .backtesting
  | paperTrading => .paperTrading
  | live => .live
  | deprecated => .deprecated

namespace Db

def promoteStrategy (db : Db) (sid : StrategyId) (user : User) (toStatus : PromoteTarget) :
    Except HttpError Db :=
  if user.canDecide = false then .error (forbidden user.role)
  else
    match db.strategies[sid]? with
    | none => .error ⟨404, "Strategy not found"⟩
    | some strategy =>
      if strategy.status = .ideation then
        .error ⟨409, "Strategy has no code yet -- nothing to promote"⟩
      else if strategy.currentVersionId = none then
        .error ⟨409, "Strategy has no code version yet"⟩
      else if toStatus = .paperTrading ∧ db.hasApprovedPaperRequest sid = false then
        .error ⟨409, "Strategy cannot enter Paper Trading without an approved ApprovalRequest -- " ++
          "no approval on record, or the most recent decision was a rejection"⟩
      else
        let promoted := db.setStatus sid toStatus.status
        .ok
          { promoted with
            audit := db.audit ++
              [⟨user.email, .strategyPromoted, sid, sid, some strategy.status,
                some toStatus.status, none⟩] }

def approveApproval (db : Db) (rid : RequestId) (user : User) : Except HttpError Db :=
  if user.canDecide then db.approve rid user.email else .error (forbidden user.role)

def rejectApproval (db : Db) (rid : RequestId) (user : User) (reason : String) :
    Except HttpError Db :=
  if user.canDecide then db.reject rid user.email reason else .error (forbidden user.role)

end Db

inductive RecommendedStatus
  | paperTrading | reject
  deriving DecidableEq

/-- The node outputs whose write-back reaches the strategy's status or its current version. -/
inductive NodeWrite
  | pythonCode
  | validatorPass
  | evaluatorPass
  | optimization
  | deployment (recommended : RecommendedStatus) (resultVersionId : Option VersionId)
      (rationale : String)
  deriving DecidableEq

namespace Db

def createStrategy (db : Db) : Db :=
  { db with strategies := db.strategies ++ [⟨.ideation, none⟩] }

def openPaperApprovalRequest (db : Db) (sid : StrategyId) (versionId : Option VersionId)
    (rationale : String) : Db :=
  if db.requests.any fun r ↦ r.strategyId = sid ∧ r.status = .pending then db
  else
    { db with
      requests := ⟨db.requests.length, sid, versionId, .pending, none, none⟩ :: db.requests
      audit := db.audit ++ [⟨"deployment_agent", .approvalRequested, db.requests.length, sid, none,
        some .pendingPaperApproval, some rationale⟩] }

def persistVersion (db : Db) (sid : StrategyId) : Db :=
  { db.modifyStrategy sid fun s ↦
      { s with currentVersionId := some db.versions, status := .coding } with
    versions := db.versions + 1 }

def persistValidation (db : Db) (sid : StrategyId) : Db :=
  db.modifyStrategy sid fun s ↦
    if s.currentVersionId = none then s else { s with status := .backtesting }

def persistStrategyProgress (db : Db) (sid : StrategyId) : NodeWrite → Db
  | .pythonCode => db.persistVersion sid
  | .validatorPass => db.persistValidation sid
  | .evaluatorPass => db.setStatus sid .optimizing
  | .optimization => db.setStatus sid .riskReview
  | .deployment .paperTrading versionId rationale =>
    (db.setStatus sid .pendingPaperApproval).openPaperApprovalRequest sid versionId rationale
  | .deployment .reject _ _ => db.setStatus sid .deprecated

/-- A regeneration stops at the evaluator, which leaves the status to a human. -/
def persistSuggestionRegeneration (db : Db) (sid : StrategyId) : NodeWrite → Db
  | .pythonCode => db.persistVersion sid
  | .validatorPass => db.persistValidation sid
  | _ => db

end Db

inductive Event
  | createStrategy
  | researchRun (sid : StrategyId) (write : NodeWrite)
  | regeneration (sid : StrategyId) (write : NodeWrite)
  | approve (rid : RequestId) (user : User)
  | reject (rid : RequestId) (user : User) (reason : String)
  | promote (sid : StrategyId) (user : User) (toStatus : PromoteTarget)
  deriving DecidableEq

/-- One committed transaction; a refused call leaves the database as it was. A write-back is
about a strategy whose row exists. -/
def Db.step (db : Db) : Event → Option Db
  | .createStrategy => some db.createStrategy
  | .researchRun sid write =>
    if sid < db.strategies.length then some (db.persistStrategyProgress sid write) else none
  | .regeneration sid write =>
    if sid < db.strategies.length then some (db.persistSuggestionRegeneration sid write) else none
  | .approve rid user => some ((db.approveApproval rid user).toOption.getD db)
  | .reject rid user reason => some ((db.rejectApproval rid user reason).toOption.getD db)
  | .promote sid user toStatus => some ((db.promoteStrategy sid user toStatus).toOption.getD db)

end TradingOS.Governance
