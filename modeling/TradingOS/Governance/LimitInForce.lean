import TradingOS.Governance.RiskLimits
import TradingOS.Lib.KeyedRows

namespace TradingOS.Governance.RiskLimits.LimitInForce

open Lib Lib.Runs

/-- `ORDER BY effective_from DESC`. -/
abbrev LatestFirst := Sorting fun limit : RiskLimit ↦ OrderDual.toDual limit.values.effectiveFrom

def ofScope (db : Db) (scopeType : String) : List RiskLimit :=
  db.riskLimits.filter (·.values.scopeType = scopeType)

namespace RiskLimitsRouter

/-- `_latest_risk_limit`, where the database breaks ties as it likes. -/
def latestRiskLimit (order : LatestFirst) (db : Db) (scopeType : String) : Option RiskLimit :=
  (order.sort (ofScope db scopeType)).head?

def current (order : LatestFirst) (db : Db) : Option RiskLimit := latestRiskLimit order db "Global"

end RiskLimitsRouter

namespace PortfolioRouter

def latestRiskLimit (order : LatestFirst) (db : Db) : Option RiskLimit :=
  (order.sort (ofScope db "Global")).head?

end PortfolioRouter

/-- A call of the router, with the keys of the rows it makes and the time at which it decides. -/
inductive Event
  | stageChange (rid : ℕ) (body : ChangeRequestPayload) (user : User)
  | confirmChange (rid : ℕ) (user : User) (limitId : ℕ) (now : ℤ)
  | rejectChange (rid : ℕ) (reason : String) (user : User) (now : ℤ)
  deriving DecidableEq

/-- One call after the other. A refused call leaves the database as it is. -/
def step (db : Db) : Event → Option Db
  | .stageChange rid body user =>
    if (db.requests.get? rid).isSome then none else some (db.stageChange rid body user)
  | .confirmChange rid user limitId now =>
    match db.admission rid ⟨.confirm, user⟩ with
    | .admitted row =>
      let before := db.latestRiskLimit row.proposed.scopeType
      some (db.commitEffect rid user row (.approve before ⟨limitId, row.proposed, user.id⟩) now)
    | _ => some db
  | .rejectChange rid reason user now =>
    match db.admission rid ⟨.reject reason, user⟩ with
    | .admitted row => some (db.commitEffect rid user row (.reject reason) now)
    | _ => some db

def empty : Db := ⟨.empty, [], []⟩

/-- The limit, if any, that applies at a time: of those in effect by then one of the latest. -/
def InForce (db : Db) (scopeType : String) (t : ℤ) : Option RiskLimit → Prop
  | some limit => limit ∈ ofScope db scopeType ∧ limit.values.effectiveFrom ≤ t ∧
    ∀ limit' ∈ ofScope db scopeType, limit'.values.effectiveFrom ≤ t →
      limit'.values.effectiveFrom ≤ limit.values.effectiveFrom
  | none => ∀ limit ∈ ofScope db scopeType, t < limit.values.effectiveFrom

/-- Both views serve the limit in force. -/
structure ServesInForce (t : ℤ) (db : Db) : Prop where
  current : ∀ order, InForce db "Global" t (RiskLimitsRouter.current order db)
  portfolio : ∀ order, InForce db "Global" t (PortfolioRouter.latestRiskLimit order db)

/-- A change confirmed for a later time leaves alone what is served. -/
def LeavesToday (t : ℤ) (db : Db) : Event → Db → Prop
  | .confirmChange rid _ _ _, db' => ∀ row, db.requests.get? rid = some row →
    t < row.proposed.effectiveFrom → ∀ order,
      RiskLimitsRouter.current order db' = RiskLimitsRouter.current order db ∧
        PortfolioRouter.latestRiskLimit order db' = PortfolioRouter.latestRiskLimit order db
  | _, _ => True

/-- The change that is confirmed is not a global one for a later time. -/
def TakesEffectBy (t : ℤ) (db : Db) : Event → Prop
  | .confirmChange rid user _ _ => ∀ row, db.admission rid ⟨.confirm, user⟩ = .admitted row →
    row.proposed.scopeType = "Global" → row.proposed.effectiveFrom ≤ t
  | _ => True

def AllInEffect (t : ℤ) (db : Db) : Prop :=
  ∀ limit ∈ ofScope db "Global", limit.values.effectiveFrom ≤ t

section Serving

variable {db db' : Db} {t : ℤ}

theorem latestRiskLimit_insertion (db : Db) (scopeType : String) :
    RiskLimitsRouter.latestRiskLimit (.insertion _) db scopeType = db.latestRiskLimit scopeType := rfl

theorem inForce_head_iff {scopeType : String} (order : LatestFirst) :
    InForce db scopeType t (RiskLimitsRouter.latestRiskLimit order db scopeType) ↔
      ∀ limit ∈ ofScope db scopeType, limit.values.effectiveFrom ≤ t := by
  rw [RiskLimitsRouter.latestRiskLimit]
  cases hsort : order.sort (ofScope db scopeType) with
  | nil =>
    have hnone : ofScope db scopeType = [] := by
      simpa [hsort] using order.perm (ofScope db scopeType)
    simp [InForce, hnone]
  | cons limit rest =>
    have hmem {limit' : RiskLimit} : limit' ∈ ofScope db scopeType ↔ limit' ∈ limit :: rest := by
      rw [← hsort, order.mem_sort]
    have hlatest : ∀ limit' ∈ ofScope db scopeType,
        limit'.values.effectiveFrom ≤ limit.values.effectiveFrom := by
      have hsorted := order.sorted (ofScope db scopeType)
      rw [hsort, List.pairwise_cons] at hsorted
      intro limit' h
      rcases List.mem_cons.mp (hmem.mp h) with rfl | h
      · exact le_rfl
      · exact hsorted.1 limit' h
    constructor
    · rintro ⟨-, heffect, -⟩ limit' h
      exact (hlatest limit' h).trans heffect
    · intro h
      have hfirst := hmem.mpr List.mem_cons_self
      exact ⟨hfirst, h limit hfirst, fun limit' h' _ ↦ hlatest limit' h'⟩

theorem servesInForce_iff : ServesInForce t db ↔ AllInEffect t db :=
  ⟨fun h ↦ (inForce_head_iff (.insertion _)).mp (h.current _),
    fun h ↦ ⟨fun order ↦ (inForce_head_iff order).mpr h, fun order ↦ (inForce_head_iff order).mpr h⟩⟩

end Serving

section Steps

variable {db db' : Db} {t : ℤ} {event : Event}

/-- Only a change that is confirmed adds a limit. -/
theorem step_cases (h : step db event = some db') :
    (db'.riskLimits = db.riskLimits ∧ ∀ t, TakesEffectBy t db event) ∨
      ∃ rid user limitId now row, event = .confirmChange rid user limitId now ∧
        db.admission rid ⟨.confirm, user⟩ = .admitted row ∧
        db'.riskLimits = db.riskLimits ++ [⟨limitId, row.proposed, user.id⟩] := by
  cases event with
  | stageChange rid body user =>
    simp only [step] at h
    split at h
    · cases h
    · cases h
      exact .inl ⟨rfl, fun _ ↦ trivial⟩
  | confirmChange rid user limitId now =>
    simp only [step] at h
    split at h
    · next row hrow =>
      cases h
      exact .inr ⟨rid, user, limitId, now, row, rfl, hrow, rfl⟩
    · next hrefused =>
      cases h
      exact .inl ⟨rfl, fun _ row hrow ↦ absurd hrow (hrefused row)⟩
  | rejectChange rid reason user now =>
    simp only [step] at h
    split at h
    · cases h
      exact .inl ⟨List.append_nil _, fun _ ↦ trivial⟩
    · cases h
      exact .inl ⟨rfl, fun _ ↦ trivial⟩

theorem get?_of_admitted {rid : ℕ} {request : Request} {row : RiskLimitChangeRequest}
    (h : db.admission rid request = .admitted row) : db.requests.get? rid = some row := by
  rw [Db.admission] at h
  cases hrow : db.requests.get? rid with
  | none =>
    rw [hrow] at h
    cases h
  | some row' =>
    rw [hrow] at h
    dsimp only at h
    split_ifs at h
    cases h
    rfl

theorem served_congr (h : ofScope db' "Global" = ofScope db "Global") (order : LatestFirst) :
    RiskLimitsRouter.current order db' = RiskLimitsRouter.current order db ∧
      PortfolioRouter.latestRiskLimit order db' = PortfolioRouter.latestRiskLimit order db := by
  rw [RiskLimitsRouter.current, RiskLimitsRouter.latestRiskLimit, PortfolioRouter.latestRiskLimit, h]
  exact ⟨rfl, rfl⟩

theorem leavesToday_of_eq (h : ofScope db' "Global" = ofScope db "Global") :
    LeavesToday t db event db' := by
  cases event with
  | confirmChange => exact fun _ _ _ order ↦ served_congr h order
  | stageChange | rejectChange => trivial

theorem step_serves_iff (hserves : ServesInForce t db) (h : step db event = some db') :
    ServesInForce t db' ∧ LeavesToday t db event db' ↔ TakesEffectBy t db event := by
  rcases step_cases h with ⟨hlimits, heffect⟩ | ⟨rid, user, limitId, now, row, rfl, hrow, hlimits⟩
  · have hsame : ofScope db' "Global" = ofScope db "Global" := by rw [ofScope, ofScope, hlimits]
    refine iff_of_true ⟨servesInForce_iff.mpr ?_, leavesToday_of_eq hsame⟩ (heffect t)
    rw [AllInEffect, hsame]
    exact servesInForce_iff.mp hserves
  · have hscope : ofScope db' "Global" = ofScope db "Global" ++
        if row.proposed.scopeType = "Global" then [⟨limitId, row.proposed, user.id⟩] else [] := by
      rw [ofScope, hlimits, List.filter_append]
      simp [ofScope, List.filter_cons]
    rw [servesInForce_iff, AllInEffect, hscope]
    constructor
    · rintro ⟨hall, -⟩ row' hrow' hglobal
      cases hrow.symm.trans hrow'
      rw [if_pos hglobal] at hall
      exact hall _ (List.mem_append_right _ (List.mem_singleton_self _))
    · intro heffect
      refine ⟨?_, ?_⟩
      · refine List.forall_mem_append.mpr ⟨servesInForce_iff.mp hserves, ?_⟩
        split
        · next hglobal => simpa using heffect row hrow hglobal
        · simp
      · intro row' hrow' hlate order
        cases (get?_of_admitted hrow).symm.trans hrow'
        refine served_congr ?_ order
        rw [hscope, if_neg fun hglobal ↦ (heffect row hrow hglobal).not_gt hlate, List.append_nil]

/-- Through a run of changes both views serve the limit in force at a time, and no change for a later
time alters what they serve, exactly if no global change for a later time is confirmed. -/
theorem serves_limit_in_force_iff (t : ℤ) (events : List Event) :
    Along step (fun db event db' ↦ ServesInForce t db' ∧ LeavesToday t db event db') empty events ↔
      Along step (fun db event _ ↦ TakesEffectBy t db event) empty events := by
  have hempty : ServesInForce t empty :=
    servesInForce_iff.mpr (by simp [AllInEffect, ofScope, empty])
  refine along_step_iff ?_ hempty
  intro db event db' hserves h
  exact step_serves_iff hserves h

end Steps

section Scheduled

def globalLimit (maxDailyLoss : ℚ) (effectiveFrom : ℤ) : ChangeRequestPayload :=
  ⟨"Global", none, maxDailyLoss, none, none, none, effectiveFrom⟩

def stager : User := ⟨1, "risk@desk"⟩

def confirmer : User := ⟨2, "admin@desk"⟩

def staged : List Event := [
  .stageChange 0 (globalLimit 50000 5) stager, .confirmChange 0 confirmer 0 5,
  .stageChange 1 (globalLimit 200000 20) stager]

/-- On day 10 a looser limit is confirmed that is to apply from day 20. -/
def looserFromTwenty : List Event := staged ++ [.confirmChange 1 confirmer 1 10]

theorem served_before_it_applies : ¬ Along step
    (fun db event db' ↦ ServesInForce 10 db' ∧ LeavesToday 10 db event db') empty looserFromTwenty := by
  intro h
  obtain ⟨db, hrun⟩ : ∃ db, exec step empty looserFromTwenty = some db := ⟨_, rfl⟩
  obtain ⟨-, hserves, -⟩ := h.last (exec_eq_some.mp hrun)
  cases hrun
  have hall := servesInForce_iff.mp hserves ⟨1, globalLimit 200000 20, 2⟩ (by decide)
  exact absurd hall (by decide)

end Scheduled

end TradingOS.Governance.RiskLimits.LimitInForce
