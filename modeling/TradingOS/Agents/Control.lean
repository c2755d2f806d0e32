import TradingOS.Lib.Runs
import TradingOS.Lib.Table

namespace TradingOS.Agents.Control

open Lib

def auditAgentName : String := "audit_agent"

/-- The names of `KNOWN_AGENTS`. -/
def knownAgentNames : List String :=
  ["ceo_agent", "market_analyst", "strategy_generator", "python_code_generator", "compliance",
   "python_validator", "backtesting", "evaluator", "memory_ingest", "optimization",
   "risk_manager", "deployment", "options_strategy_agent", "memory_agent", "news_agent",
   "sentiment_agent", "data_ingestion_agent", "paper_trading_engine", "execution_agent",
   "portfolio_manager_agent", "audit_agent", "notification_agent", "skill_registry_manager_agent",
   "scheduler_agent", "ceo_agent_chat"]

/-- A row of `agent_control_state`. -/
structure AgentControlState where
  enabled : Bool
  reason : Option String
  deriving DecidableEq

abbrev ControlTable := Table String AgentControlState

/-- No row means enabled. -/
def isAgentEnabled (control : ControlTable) (agentName : String) : Bool :=
  (control.get? agentName).all (·.enabled)

/-- The text of the `AgentHaltedError` that `require_enabled` raises, if it does. -/
def requireEnabled (control : ControlTable) (agentName : String) : Except String Unit :=
  match control.get? agentName with
  | none => .ok ()
  | some row =>
    if row.enabled then .ok ()
    else
      let detail := match row.reason with
        | none => ""
        | some reason => if reason = "" then "" else s!": {reason}"
      .error s!"Agent '{agentName}' is administratively disabled{detail}"

inductive ControlError
  | unknownAgent (agentName : String)
  | auditAgent
  deriving DecidableEq

def ControlError.message : ControlError → String
  | .unknownAgent agentName => agentName
  | .auditAgent =>
    "The Audit Agent cannot be disabled -- Business Rule 5 requires an immutable " ++
      "AI/trade audit trail at all times."

def setAgentEnabled (control : ControlTable) (agentName : String) (enabled : Bool)
    (reason : Option String) : Except ControlError ControlTable :=
  if agentName ∉ knownAgentNames then .error (.unknownAgent agentName)
  else if agentName = auditAgentName ∧ ¬ enabled then .error .auditAgent
  else .ok (control.assign agentName ⟨enabled, reason⟩)

variable {control control' : ControlTable} {agentName : String} {enabled : Bool}
  {reason : Option String}

theorem requireEnabled_eq_ok :
    requireEnabled control agentName = .ok () ↔ isAgentEnabled control agentName := by
  rw [requireEnabled, isAgentEnabled]
  cases control.get? agentName with
  | none => simp
  | some row =>
    simp only [Option.all_some]
    split <;> simp_all

theorem setAgentEnabled_ok (h : setAgentEnabled control agentName enabled reason = .ok control') :
    agentName ∈ knownAgentNames ∧ (agentName = auditAgentName → enabled) ∧
      control' = control.assign agentName ⟨enabled, reason⟩ := by
  rw [setAgentEnabled] at h
  split at h
  · cases h
  · next hknown =>
    split at h
    · cases h
    · next haudit =>
      refine ⟨not_not.mp hknown, ?_, (Except.ok.inj h).symm⟩
      intro he
      by_contra hdisabled
      exact haudit ⟨he, hdisabled⟩

theorem isAgentEnabled_setAgentEnabled
    (h : setAgentEnabled control agentName enabled reason = .ok control') (other : String) :
    isAgentEnabled control' other =
      if other = agentName then enabled else isAgentEnabled control other := by
  obtain ⟨-, -, rfl⟩ := setAgentEnabled_ok h
  rw [isAgentEnabled, Table.get?_assign]
  split
  · rfl
  · rfl

/-- The audit agent is not disabled, and only known agents have a row. -/
structure Sound (control : ControlTable) : Prop where
  audit : isAgentEnabled control auditAgentName
  known : ∀ agentName, control.get? agentName ≠ none → agentName ∈ knownAgentNames

theorem Sound.setAgentEnabled (hs : Sound control)
    (h : setAgentEnabled control agentName enabled reason = .ok control') : Sound control' := by
  obtain ⟨hknown, haudit, heq⟩ := setAgentEnabled_ok h
  constructor
  · rw [isAgentEnabled_setAgentEnabled h]
    split
    · next he => exact haudit he.symm
    · exact hs.audit
  · intro other hother
    rw [heq, Table.get?_assign] at hother
    split at hother
    · next he => exact he ▸ hknown
    · exact hs.known other hother

end TradingOS.Agents.Control
