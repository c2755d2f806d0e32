import Mathlib.Algebra.BigOperators.Ring.List
import TradingOS.Data.Calendar
import TradingOS.PaperTrading.DailyCapital

namespace TradingOS.PaperTrading

open Data Lib

structure StrategyVersion where
  optionLegs : Option (List OptionLeg)
  optionExpiry : Option ℤ

/-- What `_process_fno_strategy` reads besides the ledger of its strategy; a date is the number of
its days, and `backtest` is given the date up to which it runs. -/
structure FnoCycle where
  strategyId : StrategyId
  universeSymbols : List String
  currentVersionId : Option ℕ
  version : ℕ → Option StrategyVersion
  latestDate : String → Option ℤ
  notAfter : ℤ
  today : ℤ
  backtest : ℤ → BacktestOutcome
  noBroker : Option String

inductive FnoAction
  | buy | sell | noTransition | skipped | partialFill
  deriving DecidableEq

structure FnoResult where
  action : FnoAction
  reason : Option String
  tradeIds : List String
  deriving DecidableEq

def FnoResult.skipped (reason : String) : FnoResult := ⟨.skipped, some reason, []⟩

def isoformat (date : ℤ) : String :=
  let pad (width : ℕ) (n : ℤ) : String := String.ofList ((toString n).toList.leftpad width '0')
  s!"{pad 4 (Date.year date)}-{pad 2 (Date.month date)}-{pad 2 (Date.day date)}"

/-- The legs and the last signal, or why the strategy is skipped. -/
def FnoCycle.signal (c : FnoCycle) : Except String (List OptionLeg × EntryExit) :=
  match c.universeSymbols with
  | [] => .error "strategy has no universe"
  | underlying :: _ =>
    match c.currentVersionId with
    | none => .error "strategy has no current code version"
    | some versionId =>
      match c.latestDate underlying with
      | none => .error s!"no historical data ingested for {underlying}"
      | some lakeLatest =>
        match c.version versionId with
        | none => .error "current_version_id points at a missing row"
        | some version =>
          match version.optionLegs.getD [], version.optionExpiry with
          | [], _ | _, none => .error "no grounded option legs persisted for the current version"
          | leg :: legs, some expiry =>
            if expiry < c.today then
              .error s!"persisted option plan expired on {isoformat expiry}"
            else
              let outcome := c.backtest (min lakeLatest c.notAfter)
              let noSignal :=
                (outcome.error.filter (· ≠ "")).getD "no entries_exits signal produced"
              if outcome.passed = false then .error noSignal
              else
                match outcome.entriesExits.getLast? with
                | none => .error noSignal
                | some latest => .ok (leg :: legs, latest)

/-- The intent of a cycle and the legs that it concerns. -/
def legsToExecute (net : String → ℤ) (latest : EntryExit) (legs : List OptionLeg) :
    Option (Side × List OptionLeg) :=
  let isOpen (leg : OptionLeg) : Bool := net leg.symbol ≠ 0
  if latest.entry ∧ ¬ legs.all isOpen then some (.buy, legs.filter fun leg ↦ ¬ isOpen leg)
  else if latest.exit ∧ legs.any isOpen then some (.sell, legs.filter isOpen)
  else none

def OptionLeg.order (strategyId : StrategyId) (net : String → ℤ) (intent : Side)
    (leg : OptionLeg) : LegOrder :=
  match intent with
  | .buy => ⟨strategyId, leg.symbol, leg.optionType, leg.side, leg.quantity⟩
  | .sell => ⟨strategyId, leg.symbol, leg.optionType, leg.side.closing, |net leg.symbol|⟩

/-- The id and the row of a trade, or the text of the error. -/
abbrev LegExecution := ℕ → LegOrder → Except String (String × PaperTrade)

structure LegFills where
  filled : List (String × String)
  failed : List String
  rows : List PaperTrade

/-- The loop over the legs; each execution is given its turn. -/
def executeLegs (execute : LegExecution) : ℕ → List LegOrder → LegFills
  | _, [] => ⟨[], [], []⟩
  | turn, order :: orders =>
    let rest := executeLegs execute (turn + 1) orders
    if order.quantity ≤ 0 then rest
    else
      match execute turn order with
      | .error e => { rest with failed := s!"{order.symbol}: {e}" :: rest.failed }
      | .ok (tradeId, trade) =>
        { rest with
          filled := (order.symbol, tradeId) :: rest.filled
          rows := trade :: rest.rows }

def LegFills.result (fills : LegFills) (intent : Side) : FnoResult :=
  let failures := "; ".intercalate fills.failed
  let symbols := ", ".intercalate (fills.filled.map fun f ↦ s!"'{f.1}'")
  let tradeIds := fills.filled.map Prod.snd
  if fills.filled = [] then .skipped s!"all legs failed to execute: {failures}"
  else if fills.failed ≠ [] then
    ⟨.partialFill, some s!"filled [{symbols}]; failed: {failures}", tradeIds⟩
  else
    ⟨match intent with | .buy => .buy | .sell => .sell, none, tradeIds⟩

/-- `_process_fno_strategy` on the trades of the strategy, with the rows that it adds to them. -/
def FnoCycle.run (c : FnoCycle) (execute : LegExecution) (trades : List PaperTrade) :
    FnoResult × List PaperTrade :=
  let net := netQuantity trades
  match c.signal with
  | .error reason => (.skipped reason, [])
  | .ok (legs, latest) =>
    match legsToExecute net latest legs with
    | none => (⟨.noTransition, none, []⟩, [])
    | some (intent, toExecute) =>
      match c.noBroker with
      | some e => (.skipped s!"no broker configured: {e}", [])
      | none =>
        let fills := executeLegs execute 0 (toExecute.map (·.order c.strategyId net intent))
        (fills.result intent, fills.rows)

/-- The daily job trades the same legs. -/
theorem legOrders_eq (strategyId : StrategyId) (net : String → ℤ) {outcome : BacktestOutcome}
    {latest : EntryExit} (hpassed : outcome.passed = true)
    (hlatest : outcome.entriesExits.getLast? = some latest) (legs : List OptionLeg) :
    legOrders strategyId net outcome legs =
      ((legsToExecute net latest legs).elim [] fun t ↦
        t.2.map (·.order strategyId net t.1)).filter (0 < ·.quantity) := by
  simp only [legOrders, legsToExecute, hlatest, hpassed, Bool.true_eq_false, if_false]
  split
  · rfl
  · split <;> rfl

def Side.signed (side : Side) (quantity : ℤ) : ℤ :=
  match side with
  | .buy => quantity
  | .sell => -quantity

/-- The sum over the legs of a contract. -/
def sumOver (legs : List OptionLeg) (symbol : String) (f : OptionLeg → ℤ) : ℤ :=
  ((legs.filter (·.symbol = symbol)).map f).sum

/-- How many more legs of a contract buy it than sell it. -/
def sideBalance (legs : List OptionLeg) (symbol : String) : ℤ :=
  sumOver legs symbol fun leg ↦ leg.side.signed 1

theorem netQuantity_eq_sum (trades : List PaperTrade) (symbol : String) :
    netQuantity trades symbol = ((tradesOf symbol trades).map PaperTrade.signedQuantity).sum := by
  have h := replayLedger_reconciles trades
  rw [netQuantity]
  cases hget : (replayLedger trades).1.get? symbol with
  | none => rw [(h.keys symbol hget).1]; rfl
  | some pos => exact (h.positions symbol pos hget).net

/-- Every order is filled, at some price, in the quantity it asks for. -/
def FilledInFull (execute : LegExecution) : Prop :=
  ∀ turn order, ∃ tradeId price, execute turn order = .ok (tradeId,
    ⟨order.symbol, order.optionType, order.side, order.quantity, price⟩)

def LegOrder.booked (order : LegOrder) (symbol : String) : ℤ :=
  if order.symbol = symbol ∧ 0 < order.quantity then order.side.signed order.quantity else 0

section Legs

variable {execute : LegExecution} {net : String → ℤ} {latest : EntryExit} {legs : List OptionLeg}

theorem sum_executeLegs (hfull : FilledInFull execute) (turn : ℕ) (orders : List LegOrder)
    (symbol : String) :
    ((tradesOf symbol (executeLegs execute turn orders).rows).map PaperTrade.signedQuantity).sum =
      (orders.map (·.booked symbol)).sum := by
  induction orders generalizing turn with
  | nil => rfl
  | cons order orders ih =>
    rw [List.map_cons, List.sum_cons, ← ih (turn + 1), executeLegs]
    split
    · next hnone =>
      have hbooked : order.booked symbol = 0 := if_neg fun h ↦ (not_lt.mpr hnone) h.2
      rw [hbooked, zero_add]
    · next hsome =>
      obtain ⟨tradeId, price, hexecute⟩ := hfull turn order
      rw [hexecute]
      by_cases hsymbol : order.symbol = symbol
      · have hbooked : order.booked symbol = order.side.signed order.quantity :=
          if_pos ⟨hsymbol, not_le.mp hsome⟩
        rw [hbooked, tradesOf, List.filter_cons_of_pos (by simpa using hsymbol), List.map_cons,
          List.sum_cons]
        rfl
      · have hbooked : order.booked symbol = 0 := if_neg fun h ↦ hsymbol h.1
        rw [hbooked, zero_add, tradesOf, List.filter_cons_of_neg (by simpa using hsymbol)]
        rfl

theorem booked_order_sell (strategyId : StrategyId) (leg : OptionLeg) (symbol : String) :
    (leg.order strategyId net .sell).booked symbol =
      if leg.symbol = symbol then leg.side.signed 1 * -|net symbol| else 0 := by
  by_cases hsymbol : leg.symbol = symbol
  · subst hsymbol
    rw [if_pos rfl, LegOrder.booked]
    by_cases hopen : 0 < |net leg.symbol|
    · rw [if_pos ⟨rfl, hopen⟩]
      cases hside : leg.side with
      | buy => simp [OptionLeg.order, Side.signed, Side.closing, hside]
      | sell => simp [OptionLeg.order, Side.signed, Side.closing, hside]
    · have hzero : |net leg.symbol| = 0 := le_antisymm (not_lt.mp hopen) (abs_nonneg _)
      rw [if_neg fun h ↦ hopen h.2, hzero, neg_zero, mul_zero]
  · rw [if_neg hsymbol]
    exact if_neg fun h ↦ hsymbol h.1

theorem booked_order_buy (strategyId : StrategyId) (leg : OptionLeg) (symbol : String) :
    (leg.order strategyId net .buy).booked symbol =
      if leg.symbol = symbol then leg.side.signed (max leg.quantity 0) else 0 := by
  by_cases hsymbol : leg.symbol = symbol
  · rw [if_pos hsymbol, LegOrder.booked]
    by_cases hquantity : 0 < leg.quantity
    · rw [if_pos ⟨hsymbol, hquantity⟩, max_eq_left hquantity.le]
      rfl
    · rw [if_neg fun h ↦ hquantity h.2, max_eq_right (not_lt.mp hquantity)]
      cases leg.side <;> rfl
  · rw [if_neg hsymbol]
    exact if_neg fun h ↦ hsymbol h.1

theorem sumOver_eq_sum (legs : List OptionLeg) (symbol : String) (f : OptionLeg → ℤ) :
    sumOver legs symbol f = (legs.map fun leg ↦ if leg.symbol = symbol then f leg else 0).sum := by
  have hother : ∀ leg ∈ legs, decide (leg.symbol = symbol) = false →
      (if leg.symbol = symbol then f leg else 0) = 0 :=
    fun leg _ h ↦ if_neg (of_decide_eq_false h)
  rw [← sum_map_filter_eq hother, sumOver]
  refine congrArg List.sum (List.map_congr_left fun leg hleg ↦ ?_)
  exact (if_pos (of_decide_eq_true (List.mem_filter.mp hleg).2)).symm

theorem sumOver_add (legs : List OptionLeg) (symbol : String) (f g : OptionLeg → ℤ) :
    sumOver legs symbol (fun leg ↦ f leg + g leg) =
      sumOver legs symbol f + sumOver legs symbol g := List.sum_map_add

theorem sum_closing (strategyId : StrategyId) (symbol : String) :
    (((legs.filter fun leg ↦ net leg.symbol ≠ 0).map (·.order strategyId net .sell)).map
      (·.booked symbol)).sum = sideBalance legs symbol * -|net symbol| := by
  have hflat : ∀ leg ∈ legs, decide (net leg.symbol ≠ 0) = false →
      (leg.order strategyId net .sell).booked symbol = 0 := by
    intro leg _ h
    have hzero : net leg.symbol = 0 := not_not.mp (of_decide_eq_false h)
    rw [booked_order_sell]
    split
    · next hsymbol => rw [← hsymbol, hzero, abs_zero, neg_zero, mul_zero]
    · rfl
  have hbalance : sideBalance legs symbol * -|net symbol| =
      sumOver legs symbol fun leg ↦ leg.side.signed 1 * -|net symbol| :=
    (List.sum_map_mul_right ..).symm
  rw [hbalance, sumOver_eq_sum, List.map_map]
  refine (sum_map_filter_eq hflat).trans (congrArg List.sum (List.map_congr_left fun leg _ ↦ ?_))
  exact booked_order_sell strategyId leg symbol

theorem sum_opening (strategyId : StrategyId) (symbol : String) :
    ((legs.map (·.order strategyId net .buy)).map (·.booked symbol)).sum =
      sumOver legs symbol fun leg ↦ leg.side.signed (max leg.quantity 0) := by
  rw [sumOver_eq_sum, List.map_map]
  exact congrArg List.sum (List.map_congr_left fun leg _ ↦ booked_order_buy strategyId leg symbol)

end Legs

namespace FnoCycle

variable {c : FnoCycle} {legs : List OptionLeg} {latest : EntryExit} {execute : LegExecution}

theorem netQuantity_rows (hfull : FilledInFull execute) (trades : List PaperTrade)
    (orders : List LegOrder) (symbol : String) :
    netQuantity (trades ++ (executeLegs execute 0 orders).rows) symbol =
      netQuantity trades symbol + (orders.map (·.booked symbol)).sum := by
  rw [netQuantity_eq_sum, netQuantity_eq_sum, tradesOf, List.filter_append, List.map_append,
    List.sum_append, ← sum_executeLegs hfull 0]
  rfl

theorem run_eq (hsignal : c.signal = .ok (legs, latest)) (hbroker : c.noBroker = none)
    (trades : List PaperTrade) : (c.run execute trades).2 =
      (legsToExecute (netQuantity trades) latest legs).elim [] fun t ↦
        (executeLegs execute 0 (t.2.map (·.order c.strategyId (netQuantity trades) t.1))).rows := by
  unfold run
  rw [hsignal]
  dsimp only
  cases legsToExecute (netQuantity trades) latest legs with
  | none => rfl
  | some t => rw [hbroker]; rfl

theorem legsToExecute_exit_of_flat {net : String → ℤ} (h : ∀ leg ∈ legs, net leg.symbol = 0) :
    legsToExecute net ⟨false, true⟩ legs = none := by
  have hnone : ¬ legs.any fun leg ↦ net leg.symbol ≠ 0 := by simpa using h
  simp [legsToExecute] at hnone ⊢
  exact hnone

theorem legsToExecute_exit_of_open {net : String → ℤ} {leg : OptionLeg} (hleg : leg ∈ legs)
    (h : net leg.symbol ≠ 0) : legsToExecute net ⟨false, true⟩ legs =
      some (.sell, legs.filter fun leg ↦ net leg.symbol ≠ 0) := by
  have hany : legs.any fun leg ↦ decide (net leg.symbol ≠ 0) :=
    List.any_eq_true.mpr ⟨leg, hleg, decide_eq_true h⟩
  simp only [legsToExecute, Bool.false_eq_true, false_and, if_false, true_and, hany, if_true]

/-- What an exit cycle leaves of the position in a contract. -/
theorem netQuantity_exit (hsignal : c.signal = .ok (legs, ⟨false, true⟩))
    (hbroker : c.noBroker = none) (hfull : FilledInFull execute) (trades : List PaperTrade)
    {leg : OptionLeg} (hleg : leg ∈ legs) :
    netQuantity (trades ++ (c.run execute trades).2) leg.symbol =
      netQuantity trades leg.symbol +
        sideBalance legs leg.symbol * -|netQuantity trades leg.symbol| := by
  rw [run_eq hsignal hbroker]
  by_cases hopen : ∃ leg ∈ legs, netQuantity trades leg.symbol ≠ 0
  · obtain ⟨other, hother, hne⟩ := hopen
    rw [legsToExecute_exit_of_open hother hne, Option.elim_some, netQuantity_rows hfull,
      sum_closing]
  · have hflat : ∀ leg ∈ legs, netQuantity trades leg.symbol = 0 := by
      intro other hother
      by_contra hne
      exact hopen ⟨other, hother, hne⟩
    rw [legsToExecute_exit_of_flat hflat, Option.elim_none, List.append_nil, hflat leg hleg,
      abs_zero, neg_zero, mul_zero, add_zero]

theorem add_mul_neg_abs_eq_zero_iff (n b : ℤ) : n + b * -|n| = 0 ↔ (n ≠ 0 → b = n.sign) := by
  have hfactor : n + b * -|n| = (n.sign - b) * |n| := by
    rw [sub_mul, Int.sign_mul_abs, mul_neg, sub_eq_add_neg]
  rw [hfactor, mul_eq_zero, sub_eq_zero, abs_eq_zero, or_comm, eq_comm (a := n.sign)]
  exact or_iff_not_imp_left

/-- What an entry cycle buys and sells of a contract from flat. -/
theorem netQuantity_entry (hsignal : c.signal = .ok (legs, latest)) (hentry : latest.entry = true)
    (hbroker : c.noBroker = none) (hfull : FilledInFull execute) {trades : List PaperTrade}
    (hflat : ∀ leg ∈ legs, netQuantity trades leg.symbol = 0) {leg : OptionLeg} (hleg : leg ∈ legs) :
    netQuantity (trades ++ (c.run execute trades).2) leg.symbol =
      sumOver legs leg.symbol fun leg ↦ leg.side.signed (max leg.quantity 0) := by
  have hall : legs.filter (fun leg ↦ ¬ decide (netQuantity trades leg.symbol ≠ 0)) = legs :=
    List.filter_eq_self.mpr fun other hother ↦ by simp [hflat other hother]
  have hnot : ¬ legs.all fun leg ↦ decide (netQuantity trades leg.symbol ≠ 0) := by
    rw [List.all_eq_true]
    exact fun h ↦ of_decide_eq_true (h leg hleg) (hflat leg hleg)
  have hlegs : legsToExecute (netQuantity trades) latest legs = some (.buy, legs) := by
    simp only [legsToExecute]
    rw [if_pos ⟨hentry, hnot⟩, hall]
  rw [run_eq hsignal hbroker, hlegs, Option.elim_some, netQuantity_rows hfull, sum_opening,
    hflat leg hleg, zero_add]

/-- On full fills an exit cycle flattens the legs exactly when on every open contract the closing
legs exceed the opening ones by one in the direction of the position; an entry cycle from flat
gives the signed sums of the legs exactly when those with a negative quantity, which are passed
over, sum to nothing. -/
theorem flattens_iff (c : FnoCycle) (legs : List OptionLeg) (latest : EntryExit)
    (hsignal : c.signal = .ok (legs, latest)) (hbroker : c.noBroker = none)
    (execute : LegExecution) (hfull : FilledInFull execute) (trades : List PaperTrade) :
    let net := netQuantity trades
    let after := trades ++ (c.run execute trades).2
    (latest = ⟨false, true⟩ →
      ((∀ leg ∈ legs, netQuantity after leg.symbol = 0) ∧ (∀ again, (c.run again after).2 = []) ↔
        ∀ leg ∈ legs, net leg.symbol ≠ 0 →
          sideBalance legs leg.symbol = (net leg.symbol).sign)) ∧
    (latest.entry = true → (∀ leg ∈ legs, net leg.symbol = 0) →
      ((∀ leg ∈ legs, netQuantity after leg.symbol =
          sumOver legs leg.symbol fun leg ↦ leg.side.signed leg.quantity) ↔
        ∀ leg ∈ legs, sumOver legs leg.symbol
          (fun leg ↦ leg.side.signed (min leg.quantity 0)) = 0)) := by
  intro net after
  constructor
  · rintro rfl
    have hexit : ∀ leg ∈ legs, netQuantity after leg.symbol = 0 ↔
        (net leg.symbol ≠ 0 → sideBalance legs leg.symbol = (net leg.symbol).sign) := by
      intro leg hleg
      rw [netQuantity_exit hsignal hbroker hfull trades hleg]
      exact add_mul_neg_abs_eq_zero_iff _ _
    have hagain : (∀ leg ∈ legs, netQuantity after leg.symbol = 0) →
        ∀ again, (c.run again after).2 = [] := by
      intro hflat again
      rw [run_eq hsignal hbroker, legsToExecute_exit_of_flat hflat]
      rfl
    rw [and_iff_left_of_imp hagain]
    exact forall₂_congr hexit
  · intro hentry hflat
    refine forall₂_congr fun leg hleg ↦ ?_
    have hsplit : (sumOver legs leg.symbol fun leg ↦ leg.side.signed leg.quantity) =
        (sumOver legs leg.symbol fun leg ↦ leg.side.signed (max leg.quantity 0)) +
          sumOver legs leg.symbol fun leg ↦ leg.side.signed (min leg.quantity 0) := by
      rw [← sumOver_add]
      refine congrArg (sumOver legs leg.symbol) (funext fun leg ↦ ?_)
      cases leg.side <;> simp only [Side.signed] <;> omega
    rw [netQuantity_entry hsignal hentry hbroker hfull hflat hleg, hsplit, left_eq_add]

end FnoCycle

def niftyCall : OptionLeg := ⟨"NIFTY26AUG24000CE", .ce, .buy, 50⟩

def niftyPut : OptionLeg := ⟨"NIFTY26AUG24000PE", .pe, .sell, 50⟩

def niftyCycle (legs : List OptionLeg) (latest : EntryExit) : FnoCycle where
  strategyId := 1
  universeSymbols := ["NIFTY"]
  currentVersionId := some 0
  version := fun _ ↦ some ⟨some legs, some 20690⟩
  latestDate := fun _ ↦ some 20660
  notAfter := 20660
  today := 20661
  backtest := fun _ ↦ ⟨true, none, [latest], []⟩
  noBroker := none

def fillAt (price : ℚ) : LegExecution := fun turn order ↦
  .ok (toString turn, ⟨order.symbol, order.optionType, order.side, order.quantity, price⟩)

theorem filledInFull_fillAt (price : ℚ) : FilledInFull (fillAt price) :=
  fun _ _ ↦ ⟨_, _, rfl⟩

/-- One leg a contract, each closed once. -/
theorem flattens_two_contracts :
    let opened := ((niftyCycle [niftyCall, niftyPut] ⟨true, false⟩).run (fillAt 100) []).2
    let c := niftyCycle [niftyCall, niftyPut] ⟨false, true⟩
    (∀ leg ∈ [niftyCall, niftyPut],
      netQuantity (opened ++ (c.run (fillAt 100) opened).2) leg.symbol = 0) ∧
    ∀ again, (c.run again (opened ++ (c.run (fillAt 100) opened).2)).2 = [] := by
  intro opened c
  have hnet : ∀ leg ∈ [niftyCall, niftyPut], netQuantity opened leg.symbol ≠ 0 →
      sideBalance [niftyCall, niftyPut] leg.symbol = (netQuantity opened leg.symbol).sign := by
    decide +kernel
  exact ((c.flattens_iff [niftyCall, niftyPut] ⟨false, true⟩ rfl rfl (fillAt 100)
    (filledInFull_fillAt 100) opened).1 rfl).mpr hnet

/-- Two legs on one contract are each closed in the size of both, so that the position turns
round, and the next exit doubles it and more. -/
theorem doubled_leg_turns_round :
    let enter := niftyCycle [niftyCall, niftyCall] ⟨true, false⟩
    let leave := niftyCycle [niftyCall, niftyCall] ⟨false, true⟩
    let opened := (enter.run (fillAt 100) []).2
    let closed := opened ++ (leave.run (fillAt 100) opened).2
    leave.signal = .ok ([niftyCall, niftyCall], ⟨false, true⟩) ∧ FilledInFull (fillAt 100) ∧
      netQuantity opened niftyCall.symbol = 100 ∧ netQuantity closed niftyCall.symbol = -100 ∧
      (leave.run (fillAt 100) closed).2.length = 2 :=
  ⟨rfl, filledInFull_fillAt 100, by decide +kernel, by decide +kernel, by decide +kernel⟩

end TradingOS.PaperTrading
