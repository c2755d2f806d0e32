import Mathlib.Data.Finset.Card
import Mathlib.Data.List.Pairwise
import TradingOS.Governance.TradingGate
import TradingOS.PaperTrading.RoundedLedger

namespace TradingOS.Governance.GoLiveGate

open Lib Lib.Runs PaperTrading

/-- The day of a naive timestamp, which counts microseconds. -/
def dateOf (timestamp : ℤ) : ℤ := timestamp / 86400000000

/-- A row of the paper ledger, with the columns that the gate orders and selects it by. -/
structure PaperTradeRow where
  strategyId : Option StrategyId
  executedAt : ℤ
  trade : PaperTrade

def PaperTradeRow.date (t : PaperTradeRow) : ℤ := dateOf t.executedAt

inductive ShadowOutcome
  | validated | error
  deriving DecidableEq

structure ShadowModeAttempt where
  outcome : ShadowOutcome
  attemptedAt : ℤ

def ShadowModeAttempt.date (row : ShadowModeAttempt) : ℤ := dateOf row.attemptedAt

structure BacktestResult where
  strategyVersionId : VersionId
  winRate : Option ℚ
  createdAt : ℤ

structure DailyCleanliness where
  date : ℤ
  attempts : ℕ
  errors : ℕ
  clean : Bool

def computeDailySummary (rows : List ShadowModeAttempt) : List DailyCleanliness :=
  let byDay := Table.group ShadowModeAttempt.date rows
  ((Sorting.insertion Prod.fst).sort byDay.rows).map fun (day, dayRows) ↦
    { date := day
      attempts := dayRows.length
      errors := dayRows.countP (·.outcome = .error)
      clean := dayRows.all (·.outcome = .validated) }

/-- From the last day back to the first that is not clean. -/
def consecutiveCleanDays (dailySummary : List DailyCleanliness) : ℕ :=
  (dailySummary.reverse.takeWhile DailyCleanliness.clean).length

def minTradeCount : ℕ := 30

def minCalendarDays : ℤ := 21

def minCleanDays : ℕ := 10

def winRateDivergenceTolerance : ℚ := 1 / 5

structure GateCondition where
  label : String
  met : Bool
  detail : String

structure GoLiveReadiness where
  strategyId : StrategyId
  gateMet : Bool
  conditions : List GateCondition

def tradeCountCondition (trades : List PaperTradeRow) : GateCondition :=
  let filled := trades.filter (0 < ·.trade.filledQuantity)
  let count := filled.length
  { label := "Minimum trade count"
    met := minTradeCount ≤ count
    detail := s!"{count}/{minTradeCount} filled paper trades" }

def calendarSpanCondition : List PaperTradeRow → GateCondition
  | [] =>
    { label := "Minimum calendar span"
      met := false
      detail := s!"0/{minCalendarDays} days -- no paper trades recorded yet" }
  | first :: rest =>
    let last := (first :: rest).getLast (List.cons_ne_nil first rest)
    let spanDays := last.date - first.date
    { label := "Minimum calendar span"
      met := minCalendarDays ≤ spanDays
      detail :=
        s!"{spanDays}/{minCalendarDays} days between first and most recent paper trade" }

/-- What the gate relies on: the orders in which its queries return their rows, how a rational
rounds to a float, and how a float prints as a percentage with so many digits. -/
structure Engine where
  tradeOrder : Sorting PaperTradeRow.executedAt
  attemptOrder : Sorting ShadowModeAttempt.attemptedAt
  backtestOrder : Sorting fun b : BacktestResult ↦ OrderDual.toDual b.createdAt
  round : ℚ → ℚ
  percent : ℕ → ℚ → String

/-- The strategies with their approvals, and the evidence that is gathered about them. -/
structure Desk where
  db : Db
  paperTrades : List PaperTradeRow
  attempts : List ShadowModeAttempt
  backtests : List BacktestResult

def Desk.empty : Desk := ⟨.empty, [], [], []⟩

def Desk.tradesOf (desk : Desk) (sid : StrategyId) : List PaperTradeRow :=
  desk.paperTrades.filter (·.strategyId = some sid)

namespace Engine

variable (E : Engine)

/-- The closes of the replay, which computes in floats. -/
def closesOf (trades : List PaperTradeRow) : List RealizedClose :=
  (FloatLedger.replayLedger ⟨E.round⟩ (trades.map PaperTradeRow.trade)).2

def shadowModeCondition (attempts : List ShadowModeAttempt) : GateCondition :=
  let streak := consecutiveCleanDays (computeDailySummary (E.attemptOrder.sort attempts))
  { label := "Shadow Mode clean streak"
    met := minCleanDays ≤ streak
    detail := s!"{streak}/{minCleanDays} consecutive clean broker-validation days" }

def latestBacktest (backtests : List BacktestResult) (version : VersionId) :
    Option BacktestResult :=
  (E.backtestOrder.sort (backtests.filter (·.strategyVersionId = version))).head?

def liveWinRate (closes : List RealizedClose) : ℚ :=
  E.round (closes.countP (0 < ·.pnl) / closes.length)

def divergence (closes : List RealizedClose) (winRate : ℚ) : ℚ :=
  |E.round (E.liveWinRate closes - E.round winRate)|

def performanceDivergenceCondition (backtests : List BacktestResult) (strategy : Strategy)
    (trades : List PaperTradeRow) : GateCondition :=
  let label := "Live vs. backtest win-rate divergence"
  let closes := E.closesOf trades
  if closes = [] then
    { label := label
      met := false
      detail := "No realized (closed) paper trades yet -- nothing to compare against " ++
        "the backtest" }
  else
    match strategy.currentVersionId with
    | none =>
      { label := label
        met := false
        detail := "Strategy has no current version -- no backtest to compare against" }
    | some version =>
      match (E.latestBacktest backtests version).bind BacktestResult.winRate with
      | none =>
        { label := label
          met := false
          detail := "No backtest win rate on file for the strategy's current version" }
      | some winRate =>
        let live := E.percent 1 (E.liveWinRate closes)
        let backtest := E.percent 1 (E.round winRate)
        let divergence := E.percent 1 (E.divergence closes winRate)
        let tolerance := E.percent 0 (E.round winRateDivergenceTolerance)
        { label := label
          met := E.divergence closes winRate ≤ E.round winRateDivergenceTolerance
          detail := s!"live {live} vs. backtest {backtest} " ++
            s!"(divergence {divergence}, tolerance {tolerance})" }

def computeReadiness (desk : Desk) (sid : StrategyId) (strategy : Strategy) : GoLiveReadiness :=
  let trades := E.tradeOrder.sort (desk.tradesOf sid)
  let conditions :=
    [tradeCountCondition trades, calendarSpanCondition trades,
      E.shadowModeCondition desk.attempts,
      E.performanceDivergenceCondition desk.backtests strategy trades]
  { strategyId := sid
    gateMet := conditions.all GateCondition.met
    conditions := conditions }

end Engine

/-- The days of shadow mode from which on no attempt failed. -/
def cleanDays (attempts : List ShadowModeAttempt) : Finset ℤ :=
  (attempts.map ShadowModeAttempt.date).toFinset.filter fun day ↦
    ∀ row ∈ attempts, day ≤ row.date → row.outcome = .validated

/-- What the gate asks for: enough filled trades over enough days, enough days of shadow mode
since its last error, and a realized win rate near that of the current version's last backtest. -/
structure Engine.Cleared (E : Engine) (desk : Desk) (sid : StrategyId) (strategy : Strategy) :
    Prop where
  tradeCount : 30 ≤ (desk.tradesOf sid).countP (0 < ·.trade.filledQuantity)
  calendarSpan : ∃ t ∈ desk.tradesOf sid, ∃ t' ∈ desk.tradesOf sid, t.date + 21 ≤ t'.date
  shadowMode : 10 ≤ (cleanDays desk.attempts).card
  performance : E.closesOf (E.tradeOrder.sort (desk.tradesOf sid)) ≠ [] ∧
    ∃ version b winRate, strategy.currentVersionId = some version ∧
      E.latestBacktest desk.backtests version = some b ∧ b.winRate = some winRate ∧
      E.divergence (E.closesOf (E.tradeOrder.sort (desk.tradesOf sid))) winRate ≤ E.round (1 / 5)

theorem dateOf_mono {a b : ℤ} (h : a ≤ b) : dateOf a ≤ dateOf b :=
  Int.ediv_le_ediv (by decide) h

section ShadowMode

variable {rows : List ShadowModeAttempt}

theorem mem_cleanDays {day : ℤ} :
    day ∈ cleanDays rows ↔
      (∃ row ∈ rows, row.date = day) ∧
        ∀ row ∈ rows, day ≤ row.date → row.outcome = .validated := by
  simp [cleanDays]

theorem cleanDays_sort (S : Sorting ShadowModeAttempt.attemptedAt) :
    cleanDays (S.sort rows) = cleanDays rows := by
  ext day
  simp only [mem_cleanDays, Sorting.mem_sort]

/-- The days as the summary lists them, each with its attempts. -/
def days (rows : List ShadowModeAttempt) : List (ℤ × List ShadowModeAttempt) :=
  (Sorting.insertion Prod.fst).sort (Table.group ShadowModeAttempt.date rows).rows

theorem mem_days {day : ℤ} {dayRows : List ShadowModeAttempt} :
    (day, dayRows) ∈ days rows ↔
      (∃ row ∈ rows, row.date = day) ∧ dayRows = rows.filter (·.date = day) := by
  rw [days, Sorting.mem_sort, ← Table.get?_eq_some, Table.get?_group]
  split
  · next h =>
    rw [Option.some.injEq, eq_comm, and_iff_right (List.mem_map.mp h)]
  · next h =>
    refine iff_of_false nofun fun hday ↦ h ?_
    exact List.mem_map.mpr hday.1

theorem pairwise_days : (days rows).Pairwise fun d d' ↦ d.1 < d'.1 :=
  Sorting.pairwise_lt_sort _ (Table.group ShadowModeAttempt.date rows).nodup

theorem all_validated_iff {d : ℤ × List ShadowModeAttempt} (h : d ∈ days rows) :
    d.2.all (·.outcome = .validated) ↔
      ∀ row ∈ rows, row.date = d.1 → row.outcome = .validated := by
  obtain ⟨day, dayRows⟩ := d
  obtain ⟨-, rfl⟩ := mem_days.mp h
  simp [imp_iff_not_or]

/-- Going back from the last day, the clean ones are those from which on no attempt failed. -/
theorem takeWhile_days :
    (days rows).reverse.takeWhile (fun d ↦ d.2.all (·.outcome = .validated)) =
      (days rows).reverse.filter (·.1 ∈ cleanDays rows) := by
  rw [takeWhile_eq_filter (List.pairwise_reverse.mpr pairwise_days)]
  refine List.filter_congr fun d hd ↦ decide_eq_decide.mpr ?_
  have hday := (mem_days.mp (List.mem_reverse.mp hd)).1
  rw [mem_cleanDays, and_iff_right hday]
  constructor
  · intro h row hrow hle
    have hlater : (row.date, rows.filter (·.date = row.date)) ∈ days rows :=
      mem_days.mpr ⟨⟨row, hrow, rfl⟩, rfl⟩
    have hclean := h _ (List.mem_reverse.mpr hlater) hle
    exact (all_validated_iff hlater).mp hclean row hrow rfl
  · intro h d' hd' hle
    refine (all_validated_iff (List.mem_reverse.mp hd')).mpr fun row hrow he ↦ ?_
    exact h row hrow (he ▸ hle)

/-- The streak counts the days from which on no attempt failed. -/
theorem consecutiveCleanDays_eq (rows : List ShadowModeAttempt) :
    consecutiveCleanDays (computeDailySummary rows) = (cleanDays rows).card := by
  let recent := (days rows).reverse.filter (·.1 ∈ cleanDays rows)
  have hstreak : consecutiveCleanDays (computeDailySummary rows) = recent.length := by
    rw [consecutiveCleanDays, computeDailySummary, ← List.map_reverse, List.takeWhile_map,
      List.length_map]
    exact congrArg List.length takeWhile_days
  have hnodup : (recent.map Prod.fst).Nodup := by
    have hdesc : (days rows).reverse.Pairwise fun d d' ↦ d'.1 < d.1 :=
      List.pairwise_reverse.mpr pairwise_days
    exact List.pairwise_map.mpr ((hdesc.sublist List.filter_sublist).imp fun h ↦ h.ne')
  have hdays : (recent.map Prod.fst).toFinset = cleanDays rows := by
    ext day
    simp only [recent, List.mem_toFinset, List.mem_map, List.mem_filter, List.mem_reverse,
      Prod.exists, exists_and_right, exists_eq_right, decide_eq_true_eq]
    refine and_iff_right_of_imp fun h ↦ ?_
    exact ⟨_, mem_days.mpr ⟨(mem_cleanDays.mp h).1, rfl⟩⟩
  rw [hstreak, ← hdays, List.toFinset_card_of_nodup hnodup, List.length_map]

end ShadowMode

theorem tradeCountCondition_met {trades : List PaperTradeRow} :
    (tradeCountCondition trades).met ↔ 30 ≤ trades.countP (0 < ·.trade.filledQuantity) := by
  rw [tradeCountCondition, decide_eq_true_iff, List.countP_eq_length_filter]
  rfl

/-- The first and the last of the ordered trades are as far apart as any two. -/
theorem calendarSpanCondition_met {trades : List PaperTradeRow}
    (hsorted : trades.Pairwise (·.executedAt ≤ ·.executedAt)) :
    (calendarSpanCondition trades).met ↔
      ∃ t ∈ trades, ∃ t' ∈ trades, t.date + 21 ≤ t'.date := by
  cases trades with
  | nil => simp [calendarSpanCondition]
  | cons first rest =>
    let last := (first :: rest).getLast (List.cons_ne_nil first rest)
    have hdates : (first :: rest).Pairwise (·.date ≤ ·.date) := hsorted.imp dateOf_mono
    have hrefl : Std.Refl (α := PaperTradeRow) (·.date ≤ ·.date) := ⟨fun _ ↦ le_rfl⟩
    have hmet : (calendarSpanCondition (first :: rest)).met ↔ first.date + 21 ≤ last.date := by
      rw [calendarSpanCondition, decide_eq_true_iff]
      exact le_sub_iff_add_le'
    rw [hmet]
    constructor
    · intro h
      exact ⟨first, List.mem_cons_self, last, List.getLast_mem _, h⟩
    · rintro ⟨t, ht, t', ht', h⟩
      have hfirst : first.date ≤ t.date := hdates.rel_head ht
      have hlast : t'.date ≤ last.date := hdates.rel_getLast ht'
      omega

namespace Engine

variable (E : Engine) {desk : Desk} {sid : StrategyId} {strategy : Strategy}

theorem shadowModeCondition_met {attempts : List ShadowModeAttempt} :
    (E.shadowModeCondition attempts).met ↔ 10 ≤ (cleanDays attempts).card := by
  simp [shadowModeCondition, consecutiveCleanDays_eq, cleanDays_sort, minCleanDays]

theorem performanceDivergenceCondition_met {backtests : List BacktestResult}
    {trades : List PaperTradeRow} :
    (E.performanceDivergenceCondition backtests strategy trades).met ↔
      E.closesOf trades ≠ [] ∧
        ∃ version b winRate, strategy.currentVersionId = some version ∧
          E.latestBacktest backtests version = some b ∧ b.winRate = some winRate ∧
          E.divergence (E.closesOf trades) winRate ≤ E.round (1 / 5) := by
  simp only [performanceDivergenceCondition]
  split
  · next hnone => simp [hnone]
  · next hcloses =>
    rw [and_iff_right hcloses]
    cases strategy.currentVersionId with
    | none => simp
    | some version =>
      cases hlatest : E.latestBacktest backtests version with
      | none => simp [hlatest]
      | some b =>
        cases hrate : b.winRate with
        | none => simp [hlatest, hrate]
        | some winRate => simp [hlatest, hrate, winRateDivergenceTolerance]

/-- The report says whether the four conditions hold of the evidence. -/
theorem computeReadiness_gateMet :
    (E.computeReadiness desk sid strategy).gateMet ↔ E.Cleared desk sid strategy := by
  have hperm := E.tradeOrder.perm (desk.tradesOf sid)
  have hspan := calendarSpanCondition_met (E.tradeOrder.sorted (desk.tradesOf sid))
  simp only [Sorting.mem_sort] at hspan
  simp only [computeReadiness, List.all_cons, List.all_nil, Bool.and_true, Bool.and_eq_true,
    tradeCountCondition_met, hperm.countP_eq, hspan, shadowModeCondition_met,
    performanceDivergenceCondition_met]
  constructor
  · rintro ⟨hcount, hspan, hshadow, hperformance⟩
    exact ⟨hcount, hspan, hshadow, hperformance⟩
  · rintro ⟨hcount, hspan, hshadow, hperformance⟩
    exact ⟨hcount, hspan, hshadow, hperformance⟩

end Engine

inductive DeskEvent
  | strategies (event : Event)
  | paperTrade (row : PaperTradeRow)
  | shadowAttempt (row : ShadowModeAttempt)
  | backtest (row : BacktestResult)

/-- Trades, attempts and backtests are recorded; nothing deletes them. -/
def Desk.step (desk : Desk) : DeskEvent → Option Desk
  | .strategies event => (desk.db.step event).map fun db ↦ { desk with db := db }
  | .paperTrade row => some { desk with paperTrades := desk.paperTrades ++ [row] }
  | .shadowAttempt row => some { desk with attempts := desk.attempts ++ [row] }
  | .backtest row => some { desk with backtests := desk.backtests ++ [row] }

/-- The step sets a strategy to live that was not. -/
def GoesLive (desk desk' : Desk) (sid : StrategyId) : Prop :=
  (∃ s', desk'.db.strategies[sid]? = some s' ∧ s'.status = .live) ∧
    ∀ s, desk.db.strategies[sid]? = some s → s.status ≠ .live

/-- What goes live has cleared the gate. -/
def Engine.Earned (E : Engine) (desk desk' : Desk) : Prop :=
  ∀ sid, GoesLive desk desk' sid →
    ∃ s, desk.db.strategies[sid]? = some s ∧ (E.computeReadiness desk sid s).gateMet

/-- One of the two roles promotes a strategy that has a version of its code to live. -/
def Promotes (desk : Desk) (event : DeskEvent) (sid : StrategyId) : Prop :=
  ∃ user s, event = .strategies (.promote sid user .live) ∧ user.canDecide ∧
    desk.db.strategies[sid]? = some s ∧ s.status ≠ .ideation ∧ s.status ≠ .live ∧
    s.currentVersionId ≠ none

variable {desk desk' : Desk} {event : DeskEvent} {sid : StrategyId}

theorem Promotes.goesLive (h : Promotes desk event sid) (hstep : desk.step event = some desk') :
    GoesLive desk desk' sid := by
  obtain ⟨user, s, rfl, hrole, hs, hideation, hlive, hversion⟩ := h
  have hok : ∃ db', desk.db.promoteStrategy sid user .live = .ok db' := by
    simp [Db.promoteStrategy, hrole, hs, hideation, hversion]
  obtain ⟨db', hok⟩ := hok
  obtain rfl : { desk with db := db' } = desk' := by
    simpa [Desk.step, Db.step, hok, Except.toOption] using hstep
  obtain ⟨-, -, -, hstrategies, -⟩ := Db.promoteStrategy_eq_ok hok
  refine ⟨⟨{ s with status := .live }, ?_, rfl⟩, fun s₀ hs₀ ↦ ?_⟩
  · rw [hstrategies, List.getElem?_modify_eq, hs]
    rfl
  · obtain rfl := Option.some.inj (hs.symm.trans hs₀)
    exact hlive

theorem GoesLive.promotes (h : GoesLive desk desk' sid) (hstep : desk.step event = some desk') :
    Promotes desk event sid := by
  obtain ⟨⟨s', hs', hlive'⟩, hbefore⟩ := h
  cases event with
  | strategies event =>
    obtain ⟨db', hdb, rfl⟩ := Option.map_eq_some_iff.mp hstep
    rcases step_liveIsGated hdb sid s' hs' hlive' with
      hs | ⟨user, s, rfl, hrole, hs, hideation, hversion⟩
    · exact absurd hlive' (hbefore s' hs)
    · exact ⟨user, s, rfl, hrole, hs, hideation, hbefore s hs, hversion⟩
  | _ =>
    -- recording evidence writes no status
    obtain rfl := Option.some.inj hstep
    exact absurd hlive' (hbefore s' hs')

/-- In every order of endpoint calls, write-backs, trades, attempts and backtests: a step sets a
strategy to live exactly if it is a promotion by one of the two roles of a strategy that has code,
whatever the gate reports then; and the gate reports whether its four conditions hold. -/
theorem live_by_promotion_along (E : Engine) (events : List DeskEvent) :
    Along Desk.step (fun desk event desk' ↦ ∀ sid,
      (GoesLive desk desk' sid ↔ Promotes desk event sid) ∧
        ∀ s, desk.db.strategies[sid]? = some s →
          ((E.computeReadiness desk sid s).gateMet ↔ E.Cleared desk sid s)) .empty events := by
  refine along_of_step (fun desk event desk' _ hstep ↦ ⟨trivial, fun sid ↦ ⟨?_, fun s _ ↦ ?_⟩⟩)
    (trivial : (fun _ ↦ True) Desk.empty)
  · exact ⟨fun h ↦ h.promotes hstep, fun h ↦ h.goesLive hstep⟩
  · exact E.computeReadiness_gateMet

def Engine.plain : Engine where
  tradeOrder := .insertion _
  attemptOrder := .insertion _
  backtestOrder := .insertion _
  round := id
  percent _ x := s!"{x * 100}%"

/-- Coded and promoted at once: the strategy is live before its first trade. -/
theorem not_earned_promotedAtOnce :
    ¬ Along Desk.step (fun desk _ desk' ↦ Engine.plain.Earned desk desk') .empty
      [.strategies .createStrategy, .strategies (.researchRun 0 .pythonCode),
        .strategies (.promote 0 ⟨"admin@desk", .systemAdministrator⟩ .live)] := by
  intro h
  have hlive : GoesLive ⟨⟨[⟨.coding, some 0⟩], 1, [], []⟩, [], [], []⟩
      ⟨⟨[⟨.live, some 0⟩], 1, [], [⟨"admin@desk", .strategyPromoted, 0, 0, some .coding,
        some .live, none⟩]⟩, [], [], []⟩ 0 :=
    ⟨⟨_, rfl, rfl⟩, fun s hs ↦ by cases hs; exact nofun⟩
  obtain ⟨s, -, hmet⟩ := h.2.2.1 0 hlive
  have hcleared := Engine.plain.computeReadiness_gateMet.mp hmet
  exact absurd hcleared.tradeCount (by decide)

end TradingOS.Governance.GoLiveGate
