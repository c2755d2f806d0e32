import TradingOS.PaperTrading.PaperBook

namespace TradingOS.PaperTrading

open Lib Lib.Runs PaperBook

abbrev Pipelines := String → Option WorkerPipeline

/-- What a sync finds: the strategies in `PaperTrading` in the order of the query, and the trades
of each. -/
structure SyncInput where
  brokerConfigured : Bool
  accountSeeded : Bool
  strategies : List (StrategyId × Strategy)
  trades : StrategyId → List PaperTrade

def openPipeline (trades : List PaperTrade) (strategyId : StrategyId) (strategy : Strategy)
    (symbol : String) : Option WorkerPipeline :=
  (StopLossPipeline.start trades symbol strategy.maxDrawdownLimit).map fun p ↦
    ⟨strategyId, p.generator, ⟨[]⟩⟩

namespace Pipelines

/-- The first loop of `_sync_pipelines`, for one strategy. -/
def track (trades : StrategyId → List PaperTrade) (pipelines : Pipelines)
    (entry : StrategyId × Strategy) : Pipelines :=
  match tradedSymbol entry.2 with
  | none => pipelines
  | some symbol =>
    if (pipelines symbol).isSome then pipelines
    else
      Function.update pipelines symbol (openPipeline (trades entry.1) entry.1 entry.2 symbol)

def tick (pipelines : Pipelines) (symbol : String) (price : ℚ) : Pipelines :=
  match pipelines symbol with
  | none => pipelines
  | some pipeline =>
    let state := pipeline.state.update price
    let generator := (pipeline.generator.signalGenerator state).1
    Function.update pipelines symbol (some { pipeline with generator := generator, state := state })

end Pipelines

def SyncInput.activeSymbols (input : SyncInput) : List String :=
  input.strategies.filterMap fun entry ↦ tradedSymbol entry.2

def syncPipelines (input : SyncInput) (pipelines : Pipelines) : Except String Pipelines :=
  if ¬ input.brokerConfigured then .ok pipelines
  else if ¬ input.accountSeeded then
    .error "No seeded Paper account found -- run scripts/seed_paper_account.py first."
  else
    let tracked := input.strategies.foldl (Pipelines.track input.trades) pipelines
    .ok fun symbol ↦ if symbol ∈ input.activeSymbols then tracked symbol else none

/-- `brokenOff` is a sync that raises after it has gone through some of the strategies. -/
inductive WorkerEvent
  | sync (input : SyncInput)
  | brokenOff (input : SyncInput)
  | marketClosed
  | tick (symbol : String) (price : ℚ)

namespace Pipelines

def step (pipelines : Pipelines) : WorkerEvent → Option Pipelines
  | .sync input =>
    match syncPipelines input pipelines with
    | .error _ => some pipelines
    | .ok pipelines' => some pipelines'
  | .brokenOff input => some (input.strategies.foldl (track input.trades) pipelines)
  | .marketClosed => some fun _ ↦ none
  | .tick symbol price => some (pipelines.tick symbol price)

theorem step_syncPipeline (s : PaperBook) (strategyId : StrategyId) (strategy : Strategy) :
    s.step (.syncPipeline strategyId strategy) =
      some { s with pipelines := track s.ledger s.pipelines (strategyId, strategy) } := by
  simp only [PaperBook.step, track]
  cases tradedSymbol strategy with
  | none => rfl
  | some symbol =>
    dsimp only
    split <;> rfl

theorem pipelines_handleTick (s : PaperBook) (symbol : String) (price : ℚ) (gate : RiskGate) :
    (s.handleTick symbol price gate).pipelines = tick s.pipelines symbol price := by
  simp only [handleTick, tick]
  cases s.pipelines symbol with
  | none => rfl
  | some pipeline =>
    dsimp only
    split
    · rfl
    · rfl
    · split <;> rfl

end Pipelines

def tickChannelPrefix : String := "ticks:"

def removeprefix (start channel : String) : String :=
  if start.toList <+: channel.toList then String.ofList (channel.toList.drop start.length)
  else channel

/-- The pipeline that the listener hands a message to. -/
def Pipelines.handler (pipelines : Pipelines) (channel : String) : Option WorkerPipeline :=
  pipelines ( removeprefix tickChannelPrefix channel)

theorem removeprefix_append (start s : String) : removeprefix start (start ++ s) = s := by
  have hstart : start.toList <+: (start ++ s).toList := by
    rw [String.toList_append]
    exact List.prefix_append _ _
  rw [ removeprefix, if_pos hstart, String.toList_append, ← String.length_toList, List.drop_left,
    String.ofList_toList]

/-- A long position in shares. -/
def OpenLong (trades : List PaperTrade) (symbol : String) (quantity : ℤ) : Prop :=
  0 < quantity ∧ ∃ pos, (replayLedger trades).1.get? symbol = some pos ∧
    pos.instrumentType = .equity ∧ pos.netQuantity = quantity

/-- Its ticks go to a pipeline that sells for its strategy, in its quantity. -/
def Pipelines.Protects (pipelines : Pipelines) (strategyId : StrategyId) (symbol : String)
    (quantity : ℤ) : Prop :=
  ∃ pipeline, pipelines.handler (tickChannelPrefix ++ symbol) = some pipeline ∧
    pipeline.strategyId = strategyId ∧ pipeline.generator.symbol = symbol ∧
    pipeline.generator.quantity = quantity

namespace SyncInput

variable (input : SyncInput)

def ProtectedIn (pipelines : Pipelines) : Prop :=
  ∀ entry ∈ input.strategies, ∀ symbol quantity, OpenLong (input.trades entry.1) symbol quantity →
    pipelines.Protects entry.1 symbol quantity

/-- The first strategy that trades the symbol and is long in it. -/
def firstLong (symbol : String) : Option StrategyId :=
  input.strategies.findSome? fun entry ↦
    if tradedSymbol entry.2 = some symbol ∧ 0 < netQuantity (input.trades entry.1) symbol then
      some entry.1
    else none

/-- The symbol is free and the strategy the first that is long in it, or it is tracked already for
that strategy, in that quantity. -/
def Covers (pipelines : Pipelines) (strategyId : StrategyId) (symbol : String) (quantity : ℤ) :
    Prop :=
  match pipelines symbol with
  | none => input.brokerConfigured ∧ input.firstLong symbol = some strategyId
  | some pipeline =>
    (input.brokerConfigured → symbol ∈ input.activeSymbols) ∧ pipeline.strategyId = strategyId ∧
      pipeline.generator.quantity = quantity

end SyncInput

/-- A pipeline sits under its own symbol. -/
def Pipelines.Keyed (pipelines : Pipelines) : Prop :=
  ∀ symbol pipeline, pipelines symbol = some pipeline → pipeline.generator.symbol = symbol

theorem OpenLong.netQuantity_eq {trades : List PaperTrade} {symbol : String} {quantity : ℤ}
    (h : OpenLong trades symbol quantity) : netQuantity trades symbol = quantity := by
  obtain ⟨_, pos, hpos, -, hquantity⟩ := h
  rw [netQuantity, hpos]
  exact hquantity

section OpenPipeline

variable {trades : List PaperTrade} {strategyId : StrategyId} {strategy : Strategy}
  {symbol : String}

theorem openPipeline_isSome (trades : List PaperTrade) (strategyId : StrategyId)
    (strategy : Strategy) (symbol : String) :
    (openPipeline trades strategyId strategy symbol).isSome ↔ 0 < netQuantity trades symbol := by
  rw [openPipeline, Option.isSome_map, StopLossPipeline.start, netQuantity]
  cases (replayLedger trades).1.get? symbol with
  | none => simp
  | some pos =>
    dsimp only
    split
    · next h => simpa using h
    · next h => simpa using h

theorem openPipeline_eq_some {pipeline : WorkerPipeline}
    (h : openPipeline trades strategyId strategy symbol = some pipeline) :
    pipeline.strategyId = strategyId ∧ pipeline.generator.symbol = symbol ∧
      pipeline.generator.quantity = netQuantity trades symbol := by
  obtain ⟨p, hp, rfl⟩ := Option.map_eq_some_iff.mp h
  rw [netQuantity]
  rw [StopLossPipeline.start] at hp
  cases hpos : (replayLedger trades).1.get? symbol with
  | none =>
    rw [hpos] at hp
    cases hp
  | some pos =>
    rw [hpos] at hp
    dsimp only at hp
    split at hp
    · obtain rfl := Option.some.inj hp
      exact ⟨rfl, rfl, rfl⟩
    · cases hp

end OpenPipeline

namespace Pipelines

variable {pipelines : Pipelines} {input : SyncInput}

theorem track_apply (trades : StrategyId → List PaperTrade) (pipelines : Pipelines)
    (entry : StrategyId × Strategy) (symbol : String) :
    pipelines.track trades entry symbol =
      ((pipelines symbol).or
        (if tradedSymbol entry.2 = some symbol then
          openPipeline (trades entry.1) entry.1 entry.2 symbol
        else none)) := by
  rw [track]
  cases hsymbol : tradedSymbol entry.2 with
  | none => simp
  | some traded =>
    dsimp only
    split
    · next hsome =>
      by_cases htraded : traded = symbol
      · subst htraded
        rw [Option.or_of_isSome hsome]
      · simp [htraded]
    · next hnone =>
      by_cases htraded : traded = symbol
      · subst htraded
        rw [Function.update_self, if_pos rfl, Option.not_isSome_iff_eq_none.mp hnone, Option.none_or]
      · rw [Function.update_of_ne fun h ↦ htraded h.symm]
        simp [htraded]

theorem foldl_track_apply (trades : StrategyId → List PaperTrade) (pipelines : Pipelines)
    (strategies : List (StrategyId × Strategy)) (symbol : String) :
    strategies.foldl (track trades) pipelines symbol =
      (pipelines symbol).or (strategies.findSome? fun entry ↦
        if tradedSymbol entry.2 = some symbol then
          openPipeline (trades entry.1) entry.1 entry.2 symbol
        else none) := by
  induction strategies generalizing pipelines with
  | nil => simp
  | cons entry strategies ih =>
    rw [List.foldl_cons, ih, track_apply, Option.or_assoc, List.findSome?_cons]
    congr 1
    cases if tradedSymbol entry.2 = some symbol then
        openPipeline (trades entry.1) entry.1 entry.2 symbol
      else none with
    | none => rfl
    | some _ => rfl

/-- What the loop opens on a free symbol. -/
def opened (input : SyncInput) (symbol : String) : Option WorkerPipeline :=
  input.strategies.findSome? fun entry ↦
    if tradedSymbol entry.2 = some symbol then
      openPipeline (input.trades entry.1) entry.1 entry.2 symbol
    else none

theorem map_strategyId_opened (input : SyncInput) (symbol : String) :
    (opened input symbol).map WorkerPipeline.strategyId = input.firstLong symbol := by
  rw [opened, List.map_findSome?, SyncInput.firstLong]
  congr 1
  funext entry
  by_cases htraded : tradedSymbol entry.2 = some symbol
  · by_cases hlong : 0 < netQuantity (input.trades entry.1) symbol
    · obtain ⟨pipeline, hpipeline⟩ := Option.isSome_iff_exists.mp
        ((openPipeline_isSome _ entry.1 entry.2 _).mpr hlong)
      simp only [Function.comp, htraded, if_true, hpipeline, Option.map_some, hlong, and_true]
      rw [(openPipeline_eq_some hpipeline).1]
    · have hnone := Option.not_isSome_iff_eq_none.mp
        ((openPipeline_isSome _ entry.1 entry.2 _).not.mpr hlong)
      simp only [Function.comp, htraded, if_true, hnone, Option.map_none, hlong, and_false, if_false]
  · simp only [Function.comp, htraded, if_false, Option.map_none, false_and]

theorem opened_eq_some {symbol : String} {pipeline : WorkerPipeline}
    (h : opened input symbol = some pipeline) :
    symbol ∈ input.activeSymbols ∧ pipeline.generator.symbol = symbol ∧
      pipeline.generator.quantity = netQuantity (input.trades pipeline.strategyId) symbol := by
  obtain ⟨entry, hentry, hopen⟩ := List.exists_of_findSome?_eq_some h
  split at hopen
  · next htraded =>
    obtain ⟨hid, hsymbol, hquantity⟩ := openPipeline_eq_some hopen
    rw [hid]
    exact ⟨List.mem_filterMap.mpr ⟨entry, hentry, htraded⟩, hsymbol, hquantity⟩
  · cases hopen

/-- What a sync that returns leaves under a symbol. -/
theorem syncPipelines_apply {pipelines' : Pipelines}
    (h : syncPipelines input pipelines = .ok pipelines') (symbol : String) :
    pipelines' symbol =
      if input.brokerConfigured then
        if symbol ∈ input.activeSymbols then (pipelines symbol).or (opened input symbol) else none
      else pipelines symbol := by
  simp only [syncPipelines] at h
  split at h
  · next hbroker =>
    obtain rfl := Except.ok.inj h
    rw [if_neg hbroker]
  · next hbroker =>
    split at h
    · cases h
    · obtain rfl := Except.ok.inj h
      rw [if_pos (not_not.mp hbroker)]
      dsimp only
      rw [foldl_track_apply]
      rfl

theorem protects_iff (strategyId : StrategyId) (symbol : String) (quantity : ℤ) :
    pipelines.Protects strategyId symbol quantity ↔
      ∃ pipeline, pipelines symbol = some pipeline ∧ pipeline.strategyId = strategyId ∧
        pipeline.generator.symbol = symbol ∧ pipeline.generator.quantity = quantity := by
  rw [Protects, handler, removeprefix_append]

theorem protects_sync_iff (hkeyed : pipelines.Keyed) {pipelines' : Pipelines}
    (h : syncPipelines input pipelines = .ok pipelines') (strategyId : StrategyId) (symbol : String)
    (quantity : ℤ) (hlong : netQuantity (input.trades strategyId) symbol = quantity) :
    pipelines'.Protects strategyId symbol quantity ↔
      input.Covers pipelines strategyId symbol quantity := by
  rw [protects_iff, syncPipelines_apply h, SyncInput.Covers]
  cases hold : pipelines symbol with
  | some pipeline =>
    have hsymbol := hkeyed symbol pipeline hold
    rw [Option.some_or]
    by_cases hwatched : input.brokerConfigured → symbol ∈ input.activeSymbols
    · have hkept : (if input.brokerConfigured then
          if symbol ∈ input.activeSymbols then some pipeline else none
        else some pipeline) = some pipeline := by
        split
        · next hbroker => rw [if_pos (hwatched hbroker)]
        · rfl
      simp only [hkept, Option.some.injEq, exists_eq_left', hsymbol, true_and]
      exact (and_iff_right hwatched).symm
    · obtain ⟨hbroker, hinactive⟩ := Classical.not_imp.mp hwatched
      rw [if_pos hbroker, if_neg hinactive]
      exact iff_of_false (fun ⟨_, hnone, _⟩ ↦ by cases hnone) fun hcovers ↦ hwatched hcovers.1
  | none =>
    rw [Option.none_or, ← map_strategyId_opened]
    by_cases hbroker : input.brokerConfigured = true
    · rw [if_pos hbroker]
      simp only [hbroker, true_and, Option.map_eq_some_iff]
      constructor
      · rintro ⟨pipeline, hfound, hid, -, -⟩
        split at hfound
        · exact ⟨pipeline, hfound, hid⟩
        · cases hfound
      · rintro ⟨pipeline, hfound, rfl⟩
        obtain ⟨hactive, hsymbol, hquantity⟩ := opened_eq_some hfound
        exact ⟨pipeline, by rw [if_pos hactive, hfound], rfl, hsymbol, hquantity.trans hlong⟩
    · rw [if_neg hbroker]
      exact iff_of_false (fun ⟨_, hnone, _⟩ ↦ by cases hnone) fun hcovers ↦ hbroker hcovers.1

theorem protectedIn_sync_iff (hkeyed : pipelines.Keyed) {pipelines' : Pipelines}
    (h : syncPipelines input pipelines = .ok pipelines') :
    input.ProtectedIn pipelines' ↔ ∀ entry ∈ input.strategies, ∀ symbol quantity,
      OpenLong (input.trades entry.1) symbol quantity →
        input.Covers pipelines entry.1 symbol quantity := by
  refine forall₂_congr fun entry _ ↦ forall₂_congr fun symbol quantity ↦ ?_
  exact imp_congr_right fun hlong ↦
    protects_sync_iff hkeyed h entry.1 symbol quantity hlong.netQuantity_eq

section Keyed

theorem keyed_update (h : pipelines.Keyed) {symbol : String} {pipeline : Option WorkerPipeline}
    (hsymbol : ∀ p, pipeline = some p → p.generator.symbol = symbol) :
    Keyed (Function.update pipelines symbol pipeline) := by
  intro other p hp
  by_cases hother : other = symbol
  · subst hother
    rw [Function.update_self] at hp
    exact hsymbol p hp
  · rw [Function.update_of_ne hother] at hp
    exact h other p hp

theorem keyed_track (h : pipelines.Keyed) (trades : StrategyId → List PaperTrade)
    (entry : StrategyId × Strategy) : (pipelines.track trades entry).Keyed := by
  rw [track]
  split
  · exact h
  · split
    · exact h
    · exact keyed_update h fun p hp ↦ (openPipeline_eq_some hp).2.1

theorem keyed_foldl_track (h : pipelines.Keyed) (trades : StrategyId → List PaperTrade)
    (strategies : List (StrategyId × Strategy)) : (strategies.foldl (track trades) pipelines).Keyed := by
  induction strategies generalizing pipelines with
  | nil => exact h
  | cons entry strategies ih => exact ih (keyed_track h trades entry)

theorem symbol_signalGenerator (pos : PositionState) (state : SymbolState) :
    (pos.signalGenerator state).1.symbol = pos.symbol := by
  rw [PositionState.signalGenerator]
  split
  · rfl
  · split_ifs <;> rfl

theorem keyed_tick (h : pipelines.Keyed) (symbol : String) (price : ℚ) :
    (pipelines.tick symbol price).Keyed := by
  rw [tick]
  cases hpipeline : pipelines symbol with
  | none => exact h
  | some pipeline =>
    refine keyed_update h fun p hp ↦ ?_
    rw [← Option.some.inj hp]
    dsimp only
    rw [symbol_signalGenerator]
    exact h symbol pipeline hpipeline

theorem keyed_step {e : WorkerEvent} {pipelines' : Pipelines} (h : pipelines.Keyed)
    (hstep : pipelines.step e = some pipelines') : pipelines'.Keyed := by
  cases e with
  | sync input =>
    simp only [step] at hstep
    split at hstep
    · obtain rfl := Option.some.inj hstep
      exact h
    · next synced hsync =>
      obtain rfl := Option.some.inj hstep
      intro symbol pipeline hpipeline
      rw [syncPipelines_apply hsync] at hpipeline
      split_ifs at hpipeline
      · rcases Option.or_eq_some_iff.mp hpipeline with hold | ⟨-, hopened⟩
        · exact h symbol pipeline hold
        · exact (opened_eq_some hopened).2.1
      · exact h symbol pipeline hpipeline
  | brokenOff input =>
    obtain rfl := Option.some.inj hstep
    exact keyed_foldl_track h input.trades input.strategies
  | marketClosed =>
    obtain rfl := Option.some.inj hstep
    exact fun _ _ hnone ↦ by cases hnone
  | tick symbol price =>
    obtain rfl := Option.some.inj hstep
    exact keyed_tick h symbol price

end Keyed

/-- After a sync that returns, every long position is protected. -/
def Protecting (pipelines : Pipelines) : WorkerEvent → Pipelines → Prop
  | .sync input, pipelines' => syncPipelines input pipelines = .ok pipelines' →
      input.ProtectedIn pipelines'
  | _, _ => True

/-- Before a sync that returns, every long position is covered. -/
def Covering (pipelines : Pipelines) : WorkerEvent → Pipelines → Prop
  | .sync input, pipelines' => syncPipelines input pipelines = .ok pipelines' →
      ∀ entry ∈ input.strategies, ∀ symbol quantity, OpenLong (input.trades entry.1) symbol quantity →
        input.Covers pipelines entry.1 symbol quantity
  | _, _ => True

theorem step_protecting_iff {e : WorkerEvent} {pipelines' : Pipelines} (h : pipelines.Keyed) :
    pipelines.Protecting e pipelines' ↔ pipelines.Covering e pipelines' := by
  cases e with
  | sync input => exact imp_congr_right fun hsync ↦ protectedIn_sync_iff h hsync
  | brokenOff _ | marketClosed | tick _ _ => exact Iff.rfl

/-- A run of the worker protects every long position at each of its syncs exactly when each sync
finds all of them covered. -/
theorem protecting_iff_covering (events : List WorkerEvent) :
    Along step Protecting (fun _ ↦ none) events ↔ Along step Covering (fun _ ↦ none) events :=
  along_iff_of_invariant (fun _ _ _ h hstep ↦ keyed_step h hstep)
    (fun _ _ _ h _ ↦ step_protecting_iff h) fun _ _ hnone ↦ by cases hnone

end Pipelines

def infyStrategy : Strategy := ⟨"Equity", ["INFY"], 15⟩

def infyBuy (quantity : ℤ) (price : ℚ) : PaperTrade := ⟨"INFY", .equity, .buy, quantity, price⟩

def sameSymbol (trades : StrategyId → List PaperTrade) : SyncInput where
  brokerConfigured := true
  accountSeeded := true
  strategies := [(1, infyStrategy), (2, infyStrategy)]
  trades := trades

def twoHolders : SyncInput :=
  sameSymbol fun strategyId ↦ if strategyId = 1 then [infyBuy 10 100] else [infyBuy 30 110]

def oneHolder (quantity : ℤ) : SyncInput :=
  sameSymbol fun strategyId ↦ if strategyId = 1 then [infyBuy quantity 100] else []

/-- The second of two holders has no pipeline, and a holder that adds to its position between two
syncs keeps the one of its old size. -/
theorem open_longs_unprotected :
    ¬ Along Pipelines.step Pipelines.Protecting (fun _ ↦ none) [.sync twoHolders] ∧
      ¬ Along Pipelines.step Pipelines.Protecting (fun _ ↦ none)
        [.sync (oneHolder 10), .sync (oneHolder 25)] := by
  constructor
  · intro h
    have hprotected := ((along_cons rfl).mp h).1 rfl (2, infyStrategy) (by simp [twoHolders, sameSymbol])
      "INFY" 30 ⟨by decide, _, rfl, rfl, rfl⟩
    obtain ⟨pipeline, hpipeline, hid, -, -⟩ := (Pipelines.protects_iff ..).mp hprotected
    obtain rfl := Option.some.inj hpipeline
    exact absurd hid (by decide)
  · intro h
    have hprotected := ((along_cons rfl).mp ((along_cons rfl).mp h).2).1 rfl (1, infyStrategy)
      (by simp [oneHolder, sameSymbol]) "INFY" 25 ⟨by decide, _, rfl, rfl, rfl⟩
    obtain ⟨pipeline, hpipeline, -, -, hquantity⟩ := (Pipelines.protects_iff ..).mp hprotected
    obtain rfl := Option.some.inj hpipeline
    exact absurd hquantity (by decide)

end TradingOS.PaperTrading
