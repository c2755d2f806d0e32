import TradingOS.PaperTrading.PaperBook

namespace TradingOS.PaperTrading

open Lib Lib.Runs

/-- An entry is decided on no position, an exit on the quantity it is to sell. -/
def PaperOrder.Sound (order : PaperOrder) : Prop :=
  0 < order.quantity ∧ order.basis = match order.side with | .buy => 0 | .sell => order.quantity

theorem DailyRead.decide_eq_ok {read : DailyRead} {outcome : BacktestOutcome} {shares : Option ℤ}
    {order : PaperOrder} (h : read.decide outcome shares = .ok order) :
    order = read.order .buy (shares.getD 0) ∧ 0 < shares.getD 0 ∧ read.netQuantity ≤ 0 ∨
      order = read.order .sell read.netQuantity ∧ 0 < read.netQuantity := by
  simp only [decide] at h
  split at h
  · cases h
  · split at h
    · cases h
    · split_ifs at h with hbuy _ hshares hsell
      · refine .inl ⟨(Except.ok.inj h).symm, by omega, ?_⟩
        simpa using hbuy.2
      · exact .inr ⟨(Except.ok.inj h).symm, by simpa using hsell.2⟩

theorem DailyRead.sound_of_decide {read : DailyRead} {outcome : BacktestOutcome}
    {shares : Option ℤ} {order : PaperOrder} (h : read.decide outcome shares = .ok order)
    (hread : 0 ≤ read.netQuantity) : order.Sound := by
  rcases read.decide_eq_ok h with ⟨rfl, hquantity, hflat⟩ | ⟨rfl, hlong⟩
  · exact ⟨hquantity, le_antisymm hflat hread⟩
  · exact ⟨hlong, rfl⟩

theorem closeOrder_sound (strategyId : StrategyId) (symbol : String) {netQuantity : ℤ}
    (h : 0 < netQuantity) : (closeOrder strategyId symbol netQuantity).Sound := by
  refine ⟨abs_pos.mpr h.ne', ?_⟩
  simp only [closeOrder, if_pos h]
  exact (abs_of_pos h).symm

theorem PositionState.Reacts.quantity_pos {pos pos' : PositionState} {price : ℚ}
    {result : Except TickError (Option TradeSignal)} (h : pos.Reacts price pos' result)
    {signal : TradeSignal} (hsignal : result = .ok (some signal)) : 0 < signal.quantity := by
  cases h with
  | stopsOut _ | reenters _ =>
    obtain rfl := Option.some.inj (Except.ok.inj hsignal)
    exact PositionState.quantity_pos pos
  | quiet _ _ hquiet => exact absurd hsignal (hquiet signal)

theorem PositionState.signalGenerator_quantity {pos : PositionState} {state : SymbolState}
    {signal : TradeSignal} (h : (pos.signalGenerator state).2 = .ok (some signal)) :
    0 < signal.quantity := by
  cases hprice : state.prices.getLast? with
  | none =>
    simp only [signalGenerator, hprice] at h
    cases h
  | some price => exact (pos.signalGenerator_reacts hprice).quantity_pos h

theorem WorkerPipeline.order_sound (pipeline : WorkerPipeline) {signal : TradeSignal}
    (h : 0 < signal.quantity) : (pipeline.order signal).Sound := ⟨h, rfl⟩

namespace PaperBook

variable {s t : PaperBook} {strategyId : StrategyId} {symbol : String}

theorem handleTick_orders (s : PaperBook) (symbol : String) (price : ℚ) (gate : RiskGate) :
    (s.handleTick symbol price gate).rows = s.rows ∧
      (s.handleTick symbol price gate).reads = s.reads ∧
      ((s.handleTick symbol price gate).orders = s.orders ∨
        ∃ order : PaperOrder, order.Sound ∧
          (s.handleTick symbol price gate).orders = order :: s.orders) := by
  simp only [handleTick]
  split
  · exact ⟨rfl, rfl, .inl rfl⟩
  · next pipeline _ =>
    split
    · exact ⟨rfl, rfl, .inl rfl⟩
    · exact ⟨rfl, rfl, .inl rfl⟩
    · next signal hsignal =>
      split
      · exact ⟨rfl, rfl, .inl rfl⟩
      · have hquantity := PositionState.signalGenerator_quantity hsignal
        exact ⟨rfl, rfl, .inr ⟨_, pipeline.order_sound hquantity, rfl⟩⟩

/-- The ledger holds some of what its last entry asked for. -/
def InRange (strategyId : StrategyId) (symbol : String) (s : PaperBook) : Prop :=
  0 ≤ s.net strategyId symbol ∧ s.net strategyId symbol ≤ s.entrySize strategyId symbol

/-- An entry is filled while nothing is held, and an exit while at least what it is filled for is
held. -/
def FilledInTurn (strategyId : StrategyId) (symbol : String) (s : PaperBook) :
    BookEvent → PaperBook → Prop
  | .execute order quote commit, _ => order.strategyId = strategyId → order.symbol = symbol →
    ∀ t, (executePaperTrade quote commit order.signal).1 = some t →
      match order.side with
      | .buy => s.net strategyId symbol = 0
      | .sell => 0 < s.net strategyId symbol ∧ t.filledQuantity ≤ s.net strategyId symbol
  | _, _ => True

/-- An order is filled on the net quantity that it has been decided on. -/
def FilledOnBasis (strategyId : StrategyId) (symbol : String) (s : PaperBook) :
    BookEvent → PaperBook → Prop
  | .execute order quote commit, _ => order.strategyId = strategyId → order.symbol = symbol →
    ∀ t, (executePaperTrade quote commit order.signal).1 = some t →
      s.net strategyId symbol = order.basis
  | _, _ => True

structure Inv (strategyId : StrategyId) (symbol : String) (s : PaperBook) : Prop where
  range : s.InRange strategyId symbol
  reads : ∀ r ∈ s.reads, r.strategyId = strategyId → r.symbol = symbol → 0 ≤ r.netQuantity
  orders : ∀ o ∈ s.orders, o.strategyId = strategyId → o.symbol = symbol → o.Sound

theorem inv_begin (strategyId : StrategyId) (symbol : String) : begin.Inv strategyId symbol :=
  ⟨⟨le_rfl, le_rfl⟩, nofun, nofun⟩

theorem Inv.filledInTurn (h : s.Inv strategyId symbol) {order : PaperOrder} (horder : order ∈ s.orders)
    {quote : Option Quote} {commit : Commit}
    (hbasis : s.FilledOnBasis strategyId symbol (.execute order quote commit) t) :
    s.FilledInTurn strategyId symbol (.execute order quote commit) t := by
  intro hid hsymbol trade htrade
  have hnet := hbasis hid hsymbol trade htrade
  obtain ⟨hquantity, hsound⟩ := h.orders order horder hid hsymbol
  obtain ⟨-, hfilled⟩ := @filledQuantity_executePaperTrade order.signal hquantity _ _ _ htrade
  cases hside : order.side with
  | buy =>
    rw [hside] at hsound
    exact hnet.trans hsound
  | sell =>
    rw [hside] at hsound
    rw [hnet, hsound]
    exact ⟨hquantity, hfilled⟩

/-- A fill in its turn keeps the position in the range of its entry. -/
theorem InRange.book (h : s.InRange strategyId symbol) {order : PaperOrder} {trade : PaperTrade}
    (hfill : trade.IsFillOf order.signal)
    (hturn : order.strategyId = strategyId → order.symbol = symbol →
      (0 ≤ trade.filledQuantity ∧ trade.filledQuantity ≤ order.quantity) ∧
        match order.side with
        | .buy => s.net strategyId symbol = 0
        | .sell => 0 < s.net strategyId symbol ∧ trade.filledQuantity ≤ s.net strategyId symbol) :
    ({ s with rows := s.rows ++ [⟨order.strategyId, order.quantity, trade⟩] } : PaperBook).InRange
      strategyId symbol := by
  obtain ⟨hlow, hhigh⟩ := h
  have hside : trade.side = order.side := hfill.2
  simp only [InRange, net_book, entrySize_book]
  by_cases hown : order.strategyId = strategyId ∧ trade.symbol = symbol
  · obtain ⟨⟨hnonneg, hle⟩, hmatch⟩ := hturn hown.1 (hfill.1.symm.trans hown.2)
    cases hs : order.side with
    | buy =>
      rw [hs] at hmatch hside
      simp only [hown, hside, PaperTrade.signedQuantity, and_self, if_true]
      rw [hmatch, zero_add]
      exact ⟨hnonneg, hle⟩
    | sell =>
      rw [hs] at hmatch hside
      simp only [hown, hside, PaperTrade.signedQuantity, and_self, if_true, reduceCtorEq, and_false,
        if_false]
      omega
  · have hentry : ¬ (order.strategyId = strategyId ∧ trade.symbol = symbol ∧ trade.side = .buy) :=
      fun he ↦ hown ⟨he.1, he.2.1⟩
    rw [if_neg hown, if_neg hentry, add_zero]
    exact ⟨hlow, hhigh⟩

/-- A step that books nothing. -/
theorem Inv.of_rows (h : s.Inv strategyId symbol) (hrows : t.rows = s.rows)
    (hreads : ∀ r ∈ t.reads, r ∈ s.reads ∨
      (r.strategyId = strategyId → r.symbol = symbol → 0 ≤ r.netQuantity))
    (horders : ∀ o ∈ t.orders, o ∈ s.orders ∨
      (o.strategyId = strategyId → o.symbol = symbol → o.Sound)) : t.Inv strategyId symbol where
  range := by
    have hrange := h.range
    simp only [InRange, net, ledger, entrySize] at hrange ⊢
    rwa [hrows]
  reads r hr := (hreads r hr).elim (h.reads r) id
  orders o ho := (horders o ho).elim (h.orders o) id

section Steps

variable (h : s.Inv strategyId symbol)

include h

theorem Inv.execute {order : PaperOrder} {quote : Option Quote} {commit : Commit}
    (hbasis : s.FilledOnBasis strategyId symbol (.execute order quote commit) t)
    (hstep : s.step (.execute order quote commit) = some t) : t.Inv strategyId symbol := by
  simp only [step] at hstep
  split_ifs at hstep with horder
  obtain rfl := Option.some.inj hstep
  have horders (o) (ho : o ∈ s.orders.erase order) : o ∈ s.orders := List.mem_of_mem_erase ho
  refine ⟨?_, h.reads, fun o ho ↦ h.orders o (horders o ho)⟩
  cases htrade : (executePaperTrade quote commit order.signal).1 with
  | none =>
    simp only [Option.toList_none, List.map_nil, List.append_nil]
    exact h.range
  | some trade =>
    have hturn := h.filledInTurn horder hbasis
    simp only [Option.toList_some, List.map_cons, List.map_nil]
    refine h.range.book (isFillOf_executePaperTrade htrade) fun hid hsymbol ↦ ?_
    obtain ⟨hquantity, -⟩ := h.orders order horder hid hsymbol
    exact ⟨@filledQuantity_executePaperTrade order.signal hquantity _ _ _ htrade,
      hturn hid hsymbol trade htrade⟩

theorem Inv.dailyRead {id : StrategyId} {strategy : Strategy}
    (hstep : s.step (.dailyRead id strategy) = some t) : t.Inv strategyId symbol := by
  simp only [step] at hstep
  split at hstep
  · cases hstep
  · obtain rfl := Option.some.inj hstep
    refine h.of_rows rfl (fun r hr ↦ ?_) (fun _ ↦ .inl)
    rcases List.mem_cons.mp hr with rfl | hr
    · refine .inr ?_
      rintro rfl rfl
      exact h.range.1
    · exact .inl hr

theorem Inv.dailyDecide {read : DailyRead} {outcome : BacktestOutcome} {shares : Option ℤ}
    (hstep : s.step (.dailyDecide read outcome shares) = some t) : t.Inv strategyId symbol := by
  simp only [step] at hstep
  split_ifs at hstep with hread
  have hreads (r) (hr : r ∈ s.reads.erase read) : r ∈ s.reads := List.mem_of_mem_erase hr
  split at hstep
  · obtain rfl := Option.some.inj hstep
    exact h.of_rows rfl (fun r hr ↦ .inl (hreads r hr)) (fun _ ↦ .inl)
  · next order hdecide =>
    obtain rfl := Option.some.inj hstep
    refine h.of_rows rfl (fun r hr ↦ .inl (hreads r hr)) (fun o ho ↦ ?_)
    rcases List.mem_cons.mp ho with rfl | ho
    · refine .inr fun hid hsymbol ↦ ?_
      have hof : o.strategyId = read.strategyId ∧ o.symbol = read.symbol := by
        rcases DailyRead.decide_eq_ok hdecide with ⟨rfl, -⟩ | ⟨rfl, -⟩
        · exact ⟨rfl, rfl⟩
        · exact ⟨rfl, rfl⟩
      exact DailyRead.sound_of_decide hdecide
        (h.reads read hread (hof.1.symm.trans hid) (hof.2.symm.trans hsymbol))
    · exact .inl ho

theorem Inv.closePosition {id : StrategyId} {sym : String}
    (hstep : s.step (.closePosition id sym) = some t) : t.Inv strategyId symbol := by
  simp only [step] at hstep
  split_ifs at hstep with hzero
  · exact Option.some.inj hstep ▸ h
  · obtain rfl := Option.some.inj hstep
    refine h.of_rows rfl (fun _ ↦ .inl) (fun o ho ↦ ?_)
    rcases List.mem_cons.mp ho with rfl | ho
    · refine .inr ?_
      rintro rfl rfl
      exact closeOrder_sound _ _ (lt_of_le_of_ne h.range.1 (Ne.symm hzero))
    · exact .inl ho

theorem Inv.tick {sym : String} {price : ℚ} {gate : RiskGate}
    (hstep : s.step (.tick sym price gate) = some t) : t.Inv strategyId symbol := by
  obtain rfl := Option.some.inj hstep
  obtain ⟨hrows, hreads, horders⟩ := s.handleTick_orders sym price gate
  refine h.of_rows hrows (fun r hr ↦ .inl (hreads ▸ hr)) (fun o ho ↦ ?_)
  rcases horders with hsame | ⟨order, hsound, hnew⟩
  · exact .inl (hsame ▸ ho)
  · rw [hnew] at ho
    rcases List.mem_cons.mp ho with rfl | ho
    · exact .inr fun _ _ ↦ hsound
    · exact .inl ho

theorem Inv.step (e : BookEvent) (hbasis : s.FilledOnBasis strategyId symbol e t)
    (hstep : s.step e = some t) : t.Inv strategyId symbol := by
  cases e with
  | dailyRead id strategy => exact h.dailyRead hstep
  | dailyDecide read outcome shares => exact h.dailyDecide hstep
  | closePosition id sym => exact h.closePosition hstep
  | syncPipeline id strategy =>
    simp only [PaperBook.step] at hstep
    split at hstep
    · exact Option.some.inj hstep ▸ h
    · split_ifs at hstep
      · exact Option.some.inj hstep ▸ h
      · obtain rfl := Option.some.inj hstep
        exact h.of_rows rfl (fun _ ↦ .inl) (fun _ ↦ .inl)
  | dropPipeline sym =>
    obtain rfl := Option.some.inj hstep
    exact h.of_rows rfl (fun _ ↦ .inl) (fun _ ↦ .inl)
  | tick sym price gate => exact h.tick hstep
  | execute order quote commit => exact h.execute hbasis hstep
  | abandon order =>
    simp only [PaperBook.step] at hstep
    split_ifs at hstep
    obtain rfl := Option.some.inj hstep
    exact h.of_rows rfl (fun _ ↦ .inl) (fun o ho ↦ .inl (List.mem_of_mem_erase ho))

end Steps

theorem Inv.filledInTurn_of_step (h : s.Inv strategyId symbol) {e : BookEvent}
    (hbasis : s.FilledOnBasis strategyId symbol e t) (hstep : s.step e = some t) :
    s.FilledInTurn strategyId symbol e t := by
  cases e with
  | execute order quote commit =>
    simp only [PaperBook.step] at hstep
    split_ifs at hstep with horder
    exact h.filledInTurn horder hbasis
  | _ => trivial

/-- For every strategy and symbol, in every interleaving of daily cycles, close requests, syncs and
ticks in which each order is filled on the net quantity it has been decided on: the ledger is never
short and never beyond the entry it is in, no entry is filled while something is held, and no exit
for more than is held. -/
theorem position_in_range (strategyId : StrategyId) (symbol : String) {events : List BookEvent}
    {s : PaperBook} (hrun : Run step begin events s)
    (hbasis : Along step (FilledOnBasis strategyId symbol) begin events) :
    s.InRange strategyId symbol ∧ Along step (FilledInTurn strategyId symbol) begin events := by
  have hbegin := inv_begin strategyId symbol
  refine ⟨?_, ?_⟩
  · exact (hrun.invariant_along (fun _ e _ h hp hst ↦ Inv.step h e hp hst) hbasis hbegin).range
  · exact along_of_invariant
      (fun _ e _ h hp hst ↦ ⟨Inv.step h e hp hst, h.filledInTurn_of_step hp hst⟩) hbegin hbasis

section Example

def infyStrategy : Strategy := ⟨"Equity", ["INFY"], 15⟩

def infyQuote : Option Quote := some ⟨100, [⟨99, 50⟩], [⟨100, 50⟩]⟩

def signalOf (entry exit : Bool) : BacktestOutcome := ⟨true, none, [⟨entry, exit⟩], [98, 100]⟩

/-- A daily cycle that buys. -/
def entryEvents : List BookEvent :=
  [.dailyRead 0 infyStrategy, .dailyDecide ⟨0, "INFY", 0⟩ (signalOf true false) (some 10),
    .execute ⟨0, "INFY", .buy, 10, 0⟩ infyQuote .done]

def infyExit : PaperOrder := ⟨0, "INFY", .sell, 10, 10⟩

def closedOnce : List BookEvent :=
  entryEvents ++ [.closePosition 0 "INFY", .execute infyExit infyQuote .done]

def closedOnceEnd : PaperBook := (exec step begin closedOnce).get (by decide +kernel)

theorem closedOnceEnd_inRange : closedOnceEnd.InRange 0 "INFY" := by
  have hrun : Run step begin closedOnce closedOnceEnd :=
    exec_eq_some.mp (Option.some_get (by decide +kernel)).symm
  refine (position_in_range 0 "INFY" hrun ?_).1
  refine ⟨trivial, trivial, fun _ _ _ _ ↦ ?_, trivial, fun _ _ _ _ ↦ ?_, trivial⟩
  · decide +kernel
  · decide +kernel

/-- The daily cycle and a close request read the ledger before either sells. -/
def closedTwice : List BookEvent :=
  entryEvents ++ [.dailyRead 0 infyStrategy, .closePosition 0 "INFY",
    .dailyDecide ⟨0, "INFY", 10⟩ (signalOf false true) none,
    .execute infyExit infyQuote .done, .execute infyExit infyQuote .done]

def closedTwiceEnd : PaperBook := (exec step begin closedTwice).get (by decide +kernel)

theorem position_sold_twice :
    Run step begin closedTwice closedTwiceEnd ∧ closedTwiceEnd.net 0 "INFY" = -10 ∧
      ¬ closedTwiceEnd.InRange 0 "INFY" := by
  have hnet : closedTwiceEnd.net 0 "INFY" = -10 := by decide +kernel
  refine ⟨exec_eq_some.mp (Option.some_get (by decide +kernel)).symm, hnet, fun h ↦ ?_⟩
  have hlow := h.1
  rw [hnet] at hlow
  omega

end Example

end PaperBook

end TradingOS.PaperTrading
