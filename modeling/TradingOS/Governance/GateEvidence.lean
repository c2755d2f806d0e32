import TradingOS.Governance.GoLiveGate

namespace TradingOS.Governance.GateEvidence

open Lib Lib.Runs PaperTrading GoLiveGate

def currentVersionOf (db : Db) (sid : StrategyId) : Option VersionId :=
  (db.strategies[sid]?).bind Strategy.currentVersionId

/-- The desk with a history variable: the trades as they were recorded, each with the version of
its strategy that was current. -/
structure History where
  desk : Desk
  executed : List (PaperTradeRow × Option VersionId)

namespace History

def empty : History := ⟨.empty, []⟩

def record (h : History) (desk : Desk) : DeskEvent → History
  | .paperTrade row =>
    ⟨desk, h.executed ++ [(row, row.strategyId.bind (currentVersionOf h.desk.db))]⟩
  | _ => ⟨desk, h.executed⟩

/-- An order of which nothing is filled leaves no row. -/
def Filled : DeskEvent → Bool
  | .paperTrade row => 0 < row.trade.filledQuantity
  | _ => true

def step (h : History) (event : DeskEvent) : Option History :=
  if Filled event then (h.desk.step event).map fun desk ↦ h.record desk event else none

/-- The filled trades of a strategy that were executed while the version was current. -/
def filledUnder (h : History) (sid : StrategyId) (version : VersionId) : List PaperTradeRow :=
  (h.executed.filter fun e ↦
    e.1.strategyId = some sid ∧ e.2 = some version ∧ 0 < e.1.trade.filledQuantity).map Prod.fst

end History

/-- The evidence is the version's own: enough filled trades over enough days were executed while it
was current, and the win rate is that of their closes alone. -/
structure OwnEvidence (E : Engine) (h : History) (sid : StrategyId) (version : VersionId) :
    Prop where
  tradeCount : 30 ≤ (h.filledUnder sid version).length
  calendarSpan : ∃ t ∈ h.filledUnder sid version, ∃ t' ∈ h.filledUnder sid version,
    t.date + 21 ≤ t'.date
  closes : E.closesOf (E.tradeOrder.sort (h.desk.tradesOf sid)) =
    E.closesOf (E.tradeOrder.sort (h.filledUnder sid version))

/-- A write-back that makes a new version of the strategy's code the current one. -/
def WritesVersion (sid : StrategyId) (event : DeskEvent) : Prop :=
  event = .strategies (.researchRun sid .pythonCode) ∨
    event = .strategies (.regeneration sid .pythonCode)

def Trades (sid : StrategyId) (event : DeskEvent) : Prop :=
  ∃ row, event = .paperTrade row ∧ row.strategyId = some sid

/-- No version of the strategy's code is written once it has traded. -/
def KeepsVersion (sid : StrategyId) (events : List DeskEvent) : Prop :=
  events.Pairwise fun e e' ↦ Trades sid e → ¬ WritesVersion sid e'

section CurrentVersion

variable {db db' : Db} {sid k : StrategyId} {f : Strategy → Strategy}

theorem currentVersionOf_modify (h : db'.strategies = db.strategies.modify sid f)
    (hf : k = sid → ∀ s, (f s).currentVersionId = s.currentVersionId) :
    currentVersionOf db' k = currentVersionOf db k := by
  rw [currentVersionOf, currentVersionOf, h, List.getElem?_modify]
  cases db.strategies[k]? with
  | none => rfl
  | some s =>
    by_cases hk : sid = k
    · simpa [hk] using hf hk.symm s
    · simp [hk]

theorem currentVersionOf_setStatus (status : StrategyStatus) :
    currentVersionOf (db.setStatus sid status) k = currentVersionOf db k :=
  currentVersionOf_modify rfl fun _ _ ↦ rfl

theorem currentVersionOf_persistVersion (hk : k ≠ sid) :
    currentVersionOf (db.persistVersion sid) k = currentVersionOf db k :=
  currentVersionOf_modify rfl fun h ↦ absurd h hk

theorem currentVersionOf_persistValidation :
    currentVersionOf (db.persistValidation sid) k = currentVersionOf db k :=
  currentVersionOf_modify rfl fun _ s ↦ by split_ifs <;> rfl

theorem currentVersionOf_decideRequest {rid : RequestId} {d : Decision} {actorId : String}
    (hok : db.decideRequest rid d actorId = .ok db') :
    currentVersionOf db' k = currentVersionOf db k := by
  obtain ⟨request, -, -, -, hstrategies, -⟩ := Db.decideRequest_eq_ok hok
  refine currentVersionOf_modify hstrategies fun _ s ↦ ?_
  rw [Decision.applyTo]
  split_ifs <;> rfl

/-- Only a write-back of code changes which version of a strategy is current. -/
theorem currentVersionOf_step {event : Event} (hstep : db.step event = some db')
    (h : ¬ WritesVersion k (.strategies event)) :
    currentVersionOf db' k = currentVersionOf db k := by
  cases Db.effect_of_step hstep with
  | refused => rfl
  | createStrategy =>
    simp only [currentVersionOf, Db.createStrategy, List.getElem?_append]
    split
    · rfl
    · next hk =>
      rw [List.getElem?_eq_none (not_lt.mp hk), List.getElem?_singleton]
      split <;> rfl
  | researchRun sid write _ =>
    cases write with
    | pythonCode =>
      exact currentVersionOf_persistVersion fun hk ↦ h (.inl (by rw [hk]))
    | validatorPass => exact currentVersionOf_persistValidation
    | evaluatorPass => exact currentVersionOf_setStatus _
    | optimization => exact currentVersionOf_setStatus _
    | deployment recommended versionId rationale =>
      cases recommended with
      | paperTrading =>
        simp only [Db.persistStrategyProgress, Db.openPaperApprovalRequest]
        split <;> exact currentVersionOf_setStatus _
      | reject => exact currentVersionOf_setStatus _
  | regeneration sid write _ =>
    cases write with
    | pythonCode =>
      exact currentVersionOf_persistVersion fun hk ↦ h (.inr (by rw [hk]))
    | validatorPass => exact currentVersionOf_persistValidation
    | _ => rfl
  | approve hok => exact currentVersionOf_decideRequest (Db.approveApproval_eq_ok hok).2
  | reject hok => exact currentVersionOf_decideRequest (Db.rejectApproval_eq_ok hok).2
  | promote hok =>
    obtain ⟨-, -, -, hstrategies, -⟩ := Db.promoteStrategy_eq_ok hok
    exact currentVersionOf_modify hstrategies fun _ _ ↦ rfl

end CurrentVersion

section Run

variable {h h' : History} {event : DeskEvent} {events : List DeskEvent} {sid : StrategyId}

theorem step_eq_some (hstep : h.step event = some h') :
    History.Filled event ∧ ∃ desk, h.desk.step event = some desk ∧ h' = h.record desk event := by
  rw [History.step] at hstep
  split_ifs at hstep with hfilled
  obtain ⟨desk, hdesk, rfl⟩ := Option.map_eq_some_iff.mp hstep
  exact ⟨hfilled, desk, hdesk, rfl⟩

/-- The rows of the ledger are the trades recorded, and each of them is filled. -/
structure Ledger (h : History) : Prop where
  rows : h.executed.map Prod.fst = h.desk.paperTrades
  filled : ∀ e ∈ h.executed, 0 < e.1.trade.filledQuantity

theorem ledger_step (hstep : h.step event = some h') (hledger : Ledger h) : Ledger h' := by
  obtain ⟨hfilled, desk, hdesk, rfl⟩ := step_eq_some hstep
  cases event with
  | strategies event =>
    obtain ⟨db, -, rfl⟩ := Option.map_eq_some_iff.mp hdesk
    exact ⟨hledger.rows, hledger.filled⟩
  | paperTrade row =>
    obtain rfl := Option.some.inj hdesk
    refine ⟨by simp [History.record, hledger.rows], fun e he ↦ ?_⟩
    rcases List.mem_append.mp he with he | he
    · exact hledger.filled e he
    · obtain rfl := List.mem_singleton.mp he
      exact of_decide_eq_true hfilled
  | _ =>
    obtain rfl := Option.some.inj hdesk
    exact ⟨hledger.rows, hledger.filled⟩

/-- Every trade of the strategy was executed under the version that is current now. -/
def TradedAsNow (h : History) (sid : StrategyId) : Prop :=
  ∀ e ∈ h.executed, e.1.strategyId = some sid → e.2 = currentVersionOf h.desk.db sid

theorem tradedAsNow_step (hstep : h.step event = some h') (hnow : TradedAsNow h sid)
    (hkeeps : ¬ WritesVersion sid event) : TradedAsNow h' sid := by
  obtain ⟨-, desk, hdesk, rfl⟩ := step_eq_some hstep
  cases event with
  | strategies event =>
    obtain ⟨db, hdb, rfl⟩ := Option.map_eq_some_iff.mp hdesk
    intro e he hsid
    rw [hnow e he hsid]
    exact (currentVersionOf_step hdb hkeeps).symm
  | paperTrade row =>
    obtain rfl := Option.some.inj hdesk
    intro e he hsid
    rcases List.mem_append.mp he with he | he
    · exact hnow e he hsid
    · obtain rfl := List.mem_singleton.mp he
      exact congrArg (Option.bind · _) hsid
  | _ =>
    obtain rfl := Option.some.inj hdesk
    exact hnow

theorem executed_cases (hstep : h.step event = some h') {e : PaperTradeRow × Option VersionId}
    (he : e ∈ h'.executed) (hsid : e.1.strategyId = some sid) :
    e ∈ h.executed ∨ Trades sid event := by
  obtain ⟨-, desk, -, rfl⟩ := step_eq_some hstep
  cases event with
  | paperTrade row =>
    rcases List.mem_append.mp he with he | he
    · exact .inl he
    · obtain rfl := List.mem_singleton.mp he
      exact .inr ⟨row, rfl, hsid⟩
  | _ => exact .inl he

theorem not_writesVersion_of_trades (h : Trades sid event) : ¬ WritesVersion sid event := by
  obtain ⟨row, rfl, -⟩ := h
  rintro (he | he) <;> cases he

theorem ledger_of_run (hrun : Run History.step .empty events h) : Ledger h :=
  hrun.invariant (fun _ _ _ hledger hstep ↦ ledger_step hstep hledger)
    ⟨rfl, fun _ he ↦ absurd he List.not_mem_nil⟩

/-- From the last event back: what an earlier write of code did no longer matters once a trade
was recorded after it. -/
theorem tradedAsNow_of_run (hrun : Run History.step .empty events h)
    (hkeeps : KeepsVersion sid events) :
    TradedAsNow h sid ∧
      ∀ e ∈ h.executed, e.1.strategyId = some sid → ∃ l ∈ events, Trades sid l := by
  induction events using List.reverseRecOn generalizing h with
  | nil =>
    cases hrun
    exact ⟨fun _ he ↦ absurd he List.not_mem_nil, fun _ he ↦ absurd he List.not_mem_nil⟩
  | append_singleton events event ih =>
    obtain ⟨t, ht, hlast⟩ := run_append_iff.mp hrun
    obtain ⟨hpast, -, hafter⟩ := List.pairwise_append.mp hkeeps
    obtain ⟨hnow, htraded⟩ := ih ht hpast
    cases hlast with
    | cons hstep hnil =>
      cases hnil
      refine ⟨?_, fun e he hsid ↦ ?_⟩
      · by_cases hwrites : WritesVersion sid event
        · intro e he hsid
          rcases executed_cases hstep he hsid with he | htrades
          · obtain ⟨l, hl, htrades⟩ := htraded e he hsid
            exact absurd hwrites (hafter l hl event (List.mem_singleton_self _) htrades)
          · exact absurd hwrites (not_writesVersion_of_trades htrades)
        · exact tradedAsNow_step hstep hnow hwrites
      · rcases executed_cases hstep he hsid with he | htrades
        · obtain ⟨l, hl, htrades⟩ := htraded e he hsid
          exact ⟨l, List.mem_append_left _ hl, htrades⟩
        · exact ⟨event, List.mem_append_right _ (List.mem_singleton_self _), htrades⟩

theorem filledUnder_eq {version : VersionId} (hledger : Ledger h) (hnow : TradedAsNow h sid)
    (hcurrent : currentVersionOf h.desk.db sid = some version) :
    h.filledUnder sid version = h.desk.tradesOf sid := by
  rw [Desk.tradesOf, ← hledger.rows, List.filter_map, History.filledUnder]
  refine congrArg (List.map Prod.fst) (List.filter_congr fun e he ↦ ?_)
  refine decide_eq_decide.mpr (and_iff_left_of_imp fun hsid ↦ ?_)
  exact ⟨(hnow e he hsid).trans hcurrent, hledger.filled e he⟩

theorem tradeCount_eq (hledger : Ledger h) :
    (h.desk.tradesOf sid).countP (0 < ·.trade.filledQuantity) = (h.desk.tradesOf sid).length := by
  refine List.countP_eq_length.mpr fun t ht ↦ decide_eq_true ?_
  have hrow : t ∈ h.desk.paperTrades := List.mem_of_mem_filter ht
  rw [← hledger.rows] at hrow
  obtain ⟨e, he, rfl⟩ := List.mem_map.mp hrow
  exact hledger.filled e he

end Run

/-- In every history of endpoint calls, write-backs, trades, attempts and backtests: when the gate
reports that it is met, the strategy's ledger as a whole meets its conditions, whichever versions
of its code traded. The evidence is the current version's own if no code was written since the
strategy first traded. -/
theorem evidence_of_strategy (E : Engine) {events : List DeskEvent} {h : History}
    (hrun : Run History.step .empty events h) {sid : StrategyId} {strategy : Strategy}
    (hs : h.desk.db.strategies[sid]? = some strategy)
    (hmet : (E.computeReadiness h.desk sid strategy).gateMet) :
    E.Cleared h.desk sid strategy ∧
      (KeepsVersion sid events →
        ∃ version, strategy.currentVersionId = some version ∧ OwnEvidence E h sid version) := by
  have hcleared := E.computeReadiness_gateMet.mp hmet
  refine ⟨hcleared, fun hkeeps ↦ ?_⟩
  obtain ⟨-, version, -, -, hcurrent, -⟩ := hcleared.performance
  have hledger := ledger_of_run hrun
  have hown : h.filledUnder sid version = h.desk.tradesOf sid := by
    refine filledUnder_eq hledger (tradedAsNow_of_run hrun hkeeps).1 ?_
    rw [currentVersionOf, hs]
    exact hcurrent
  refine ⟨version, hcurrent, ?_, ?_, ?_⟩
  · rw [hown, ← tradeCount_eq hledger]
    exact hcleared.tradeCount
  · rw [hown]
    exact hcleared.calendarSpan
  · rw [hown]

/-- Thirty shares are bought, and three weeks later 29 of them are sold one by one. -/
def soldOneByOne : List PaperTradeRow :=
  ⟨some 0, 0, ⟨"INFY", .equity, .buy, 30, 100⟩⟩ ::
    .replicate 29 ⟨some 0, 21 * 86400000000, ⟨"INFY", .equity, .sell, 1, 110⟩⟩

def tenCleanDays : List ShadowModeAttempt :=
  (List.range 10).map fun (day : ℕ) ↦ ⟨.validated, day * 86400000000⟩

/-- The first version trades; then other events follow, and the backtest of a version. -/
def tested (later : List DeskEvent) (version : VersionId) : List DeskEvent :=
  [.strategies .createStrategy, .strategies (.researchRun 0 .pythonCode)] ++
    soldOneByOne.map .paperTrade ++ tenCleanDays.map .shadowAttempt ++ later ++
    [.backtest ⟨version, some 1, 0⟩]

def testedDesk (version : VersionId) : Desk :=
  ⟨⟨[⟨.coding, some version⟩], version + 1, [], []⟩, soldOneByOne, tenCleanDays,
    [⟨version, some 1, 0⟩]⟩

def testedHistory (version : VersionId) : History :=
  ⟨testedDesk version, soldOneByOne.map fun row ↦ (row, some 0)⟩

theorem tradesOf_testedDesk (version : VersionId) :
    (testedDesk version).tradesOf 0 = soldOneByOne := by
  have hall : ∀ row ∈ soldOneByOne, decide (row.strategyId = some 0) := by decide
  exact List.filter_eq_self.mpr hall

theorem gateMet_tested (version : VersionId) :
    (Engine.plain.computeReadiness (testedDesk version) 0 ⟨.coding, some version⟩).gateMet := by
  have hcloses : Engine.plain.closesOf (Engine.plain.tradeOrder.sort soldOneByOne) =
      .replicate 29 ⟨"INFY", 1, 100, 110, 10⟩ := by
    decide +kernel
  have hlatest : Engine.plain.latestBacktest [⟨version, some 1, 0⟩] version =
      some ⟨version, some 1, 0⟩ := by
    simp only [Engine.latestBacktest, List.filter_cons, List.filter_nil, decide_true, if_true]
    rfl
  refine Engine.plain.computeReadiness_gateMet.mpr ⟨?_, ?_, ?_, ?_⟩
  · rw [tradesOf_testedDesk]
    decide
  · rw [tradesOf_testedDesk]
    exact ⟨_, List.mem_cons_self, _, List.mem_cons_of_mem _ List.mem_cons_self, by decide⟩
  · show 10 ≤ (cleanDays tenCleanDays).card
    decide
  · rw [tradesOf_testedDesk, hcloses]
    refine ⟨by simp, version, _, 1, rfl, hlatest, rfl, ?_⟩
    decide +kernel

theorem evidence_of_one_version :
    Engine.plain.Cleared (testedDesk 0) 0 ⟨.coding, some 0⟩ ∧
      (KeepsVersion 0 (tested [] 0) →
        ∃ version, some 0 = some version ∧
          OwnEvidence Engine.plain (testedHistory 0) 0 version) := by
  have hrun : Run History.step .empty (tested [] 0) (testedHistory 0) := exec_eq_some.mp rfl
  exact evidence_of_strategy Engine.plain hrun rfl (gateMet_tested 0)

/-- Regenerated after the three weeks, the strategy clears the gate before its new code trades. -/
theorem cleared_by_old_version :
    exec History.step .empty (tested [.strategies (.regeneration 0 .pythonCode)] 1) =
        some (testedHistory 1) ∧
      (Engine.plain.computeReadiness (testedDesk 1) 0 ⟨.coding, some 1⟩).gateMet ∧
      ¬ ∃ version, some 1 = some version ∧
        OwnEvidence Engine.plain (testedHistory 1) 0 version := by
  refine ⟨rfl, gateMet_tested 1, ?_⟩
  rintro ⟨version, hversion, hown⟩
  obtain rfl := Option.some.inj hversion
  exact absurd hown.tradeCount (by decide +kernel)

end TradingOS.Governance.GateEvidence
