import TradingOS.Lib.Runs
import TradingOS.PaperTrading.PaperExecutionPipeline

namespace TradingOS.PaperTrading

open Lib Lib.Runs

structure PositionState where
  symbol : String
  quantity : ℤ
  entryPrice : ℚ
  maxDrawdownLimitPct : ℚ
  isOpen : Bool
  quantity_pos : 0 < quantity

namespace PositionState

variable (pos : PositionState)

def signal (side : Side) (currentPrice : ℚ) : TradeSignal :=
  ⟨pos.symbol, side, pos.quantity, currentPrice⟩

def lossPct (currentPrice : ℚ) : ℚ := (pos.entryPrice - currentPrice) / pos.entryPrice * 100

/-- The closure of `build_stop_loss_signal_generator`. It changes the position as it emits the
signal. -/
def signalGenerator (state : SymbolState) :
    PositionState × Except TickError (Option TradeSignal) :=
  match state.prices.getLast? with
  | none => (pos, .ok none)
  | some currentPrice =>
    if pos.isOpen then
      if pos.entryPrice = 0 then (pos, .error .zeroDivision)
      else if pos.maxDrawdownLimitPct ≤ pos.lossPct currentPrice then
        ({ pos with isOpen := false }, .ok (some (pos.signal .sell currentPrice)))
      else (pos, .ok none)
    else if pos.entryPrice ≤ currentPrice then
      ({ pos with isOpen := true, entryPrice := currentPrice },
        .ok (some (pos.signal .buy currentPrice)))
    else (pos, .ok none)

def StopsOut (currentPrice : ℚ) : Prop :=
  pos.isOpen ∧ pos.entryPrice ≠ 0 ∧ pos.maxDrawdownLimitPct ≤ pos.lossPct currentPrice

def Reenters (currentPrice : ℚ) : Prop :=
  pos.isOpen = false ∧ pos.entryPrice ≤ currentPrice

inductive Reacts (pos : PositionState) (price : ℚ) :
    PositionState → Except TickError (Option TradeSignal) → Prop
  | stopsOut (h : pos.StopsOut price) :
      Reacts pos price { pos with isOpen := false } (.ok (some (pos.signal .sell price)))
  | reenters (h : pos.Reenters price) :
      Reacts pos price { pos with isOpen := true, entryPrice := price }
        (.ok (some (pos.signal .buy price)))
  | quiet {result : Except TickError (Option TradeSignal)} (hout : ¬ pos.StopsOut price)
      (hin : ¬ pos.Reenters price) (hresult : ∀ signal, result ≠ .ok (some signal)) :
      Reacts pos price pos result

theorem signalGenerator_reacts {state : SymbolState} {price : ℚ}
    (h : state.prices.getLast? = some price) :
    pos.Reacts price (pos.signalGenerator state).1 (pos.signalGenerator state).2 := by
  simp only [signalGenerator]
  rw [h]
  dsimp only
  split
  · next hopen =>
    have hin : ¬ pos.Reenters price := fun hin ↦ by cases hopen.symm.trans hin.1
    split
    · next hzero => exact .quiet (fun hout ↦ hout.2.1 hzero) hin nofun
    · next hzero =>
      split
      · next hloss => exact .stopsOut ⟨hopen, hzero, hloss⟩
      · next hloss => exact .quiet (fun hout ↦ hloss hout.2.2) hin nofun
  · next hclosed =>
    have hout : ¬ pos.StopsOut price := fun hout ↦ hclosed hout.1
    split
    · next hprice => exact .reenters ⟨by simpa using hclosed, hprice⟩
    · next hprice => exact .quiet hout (fun hin ↦ hprice hin.2) nofun

end PositionState

def netQuantity (trades : List PaperTrade) (symbol : String) : ℤ :=
  ((replayLedger trades).1.get? symbol).elim 0 SymbolPosition.netQuantity

theorem netQuantity_append (trades : List PaperTrade) (t : PaperTrade) (symbol : String) :
    netQuantity (trades ++ [t]) symbol =
      netQuantity trades symbol + if t.symbol = symbol then t.signedQuantity else 0 := by
  simp only [netQuantity]
  rw [replayLedger_append, Ledger.get?_book]
  by_cases h : t.symbol = symbol
  · subst h
    rw [if_pos rfl, if_pos rfl, Option.elim_some, SymbolPosition.netQuantity_fill, Ledger.entry]
    cases (replayLedger trades).1.get? t.symbol <;> rfl
  · rw [if_neg (fun he ↦ h he.symm), if_neg h, add_zero]

theorem netQuantity_append_row (event : TickEvent) {signal : TradeSignal}
    (hquantity : 0 < signal.quantity) (trades : List PaperTrade) :
    netQuantity (trades ++ (event.row signal).toList) signal.symbol =
      netQuantity trades signal.symbol +
        match signal.side with
        | .buy => event.booked signal
        | .sell => -event.booked signal := by
  simp only [TickEvent.booked]
  cases hrow : event.row signal with
  | none =>
    rw [Option.toList_none, List.append_nil]
    cases signal.side <;> simp
  | some t =>
    obtain ⟨hsymbol, hside⟩ := event.isFillOf_row hquantity t hrow
    rw [Option.toList_some, netQuantity_append, if_pos hsymbol, PaperTrade.signedQuantity, hside]
    rfl

abbrev StopLossPipeline := PaperExecutionPipeline PositionState

namespace StopLossPipeline

/-- `_sync_pipelines` for one strategy: a long position on record gets its pipeline. -/
def start (trades : List PaperTrade) (symbol : String) (maxDrawdownLimit : ℚ) :
    Option StopLossPipeline :=
  match (replayLedger trades).1.get? symbol with
  | none => none
  | some pos =>
    if h : 0 < pos.netQuantity then
      some ⟨⟨symbol, pos.netQuantity, pos.averageCost, maxDrawdownLimit, true, h⟩, .empty, trades⟩
    else none

def step : StopLossPipeline → TickEvent → Option StopLossPipeline :=
  PaperExecutionPipeline.step PositionState.signalGenerator

variable (p : StopLossPipeline)

def held : ℤ := netQuantity p.trades p.generator.symbol

def Agrees : Prop := p.generator.isOpen ↔ p.held ≠ 0

/-- A stop-loss exit sells exactly what is held, and a re-entry buys something: the gate lets
the signal through, the broker quotes, the row is written, and the depth is there. -/
def SignalFilled (event : TickEvent) : Prop :=
  (p.generator.StopsOut event.price → ∃ quote,
    event.Reaches (p.generator.signal .sell event.price) quote ∧
      min p.generator.quantity (usableDepth quote.buyDepth) = p.held) ∧
  (p.generator.Reenters event.price → ∃ quote,
    event.Reaches (p.generator.signal .buy event.price) quote ∧ 0 < usableDepth quote.sellDepth)

variable {p}

theorem agrees_start {trades : List PaperTrade} {symbol : String} {maxDrawdownLimit : ℚ}
    (h : start trades symbol maxDrawdownLimit = some p) : p.Agrees := by
  simp only [start] at h
  split at h
  · cases h
  · next pos hget =>
    split at h
    · next hpos =>
      obtain rfl := Option.some.inj h
      have hheld : netQuantity trades symbol = pos.netQuantity := by
        rw [netQuantity, hget, Option.elim_some]
      exact iff_of_true rfl (hheld.trans_ne hpos.ne')
    · cases h

theorem agrees_stopsOut (event : TickEvent) (hheld : p.held ≠ 0) :
    netQuantity (p.trades ++ (event.row (p.generator.signal .sell event.price)).toList)
        p.generator.symbol = 0 ↔
      ∃ quote, event.Reaches (p.generator.signal .sell event.price) quote ∧
        min p.generator.quantity (usableDepth quote.buyDepth) = p.held := by
  have hquantity : 0 < (p.generator.signal .sell event.price).quantity := p.generator.quantity_pos
  have hnet := netQuantity_append_row event hquantity p.trades
  calc
    _ ↔ p.held + -event.booked (p.generator.signal .sell event.price) = 0 := Eq.congr_left hnet
    _ ↔ event.booked (p.generator.signal .sell event.price) = p.held := by
      rw [← sub_eq_add_neg, sub_eq_zero, eq_comm]
    _ ↔ _ := event.booked_eq_iff hquantity hheld

theorem agrees_reenters (event : TickEvent) (hheld : p.held = 0) :
    netQuantity (p.trades ++ (event.row (p.generator.signal .buy event.price)).toList)
        p.generator.symbol ≠ 0 ↔
      ∃ quote, event.Reaches (p.generator.signal .buy event.price) quote ∧
        0 < usableDepth quote.sellDepth := by
  have hquantity : 0 < (p.generator.signal .buy event.price).quantity := p.generator.quantity_pos
  have hnet := netQuantity_append_row event hquantity p.trades
  have hbooked : netQuantity (p.trades ++
      (event.row (p.generator.signal .buy event.price)).toList) p.generator.symbol =
        event.booked (p.generator.signal .buy event.price) :=
    hnet.trans ((congrArg (· + _) hheld).trans (zero_add _))
  rw [hbooked]
  constructor
  · intro hne
    obtain ⟨quote, hreaches, hmin⟩ := (event.booked_eq_iff hquantity hne).mp rfl
    refine ⟨quote, hreaches, lt_of_le_of_ne (usableDepth_nonneg _) fun hzero ↦ hne ?_⟩
    rw [← hmin]
    exact (congrArg (min _) hzero.symm).trans (min_eq_right hquantity.le)
  · rintro ⟨quote, hreaches, hdepth⟩
    have hpos := (lt_min hquantity hdepth).ne'
    exact ((event.booked_eq_iff hquantity hpos).mpr ⟨quote, hreaches, rfl⟩).trans_ne hpos

theorem agrees_step {p' : StopLossPipeline} {event : TickEvent} (hagrees : p.Agrees)
    (hstep : p.step event = some p') : p'.Agrees ↔ p.SignalFilled event := by
  obtain rfl := Option.some.inj hstep
  have hreacts := p.generator.signalGenerator_reacts
    (getLast?_update (p.stateFor event.symbol) event.price)
  generalize hreaction :
    p.generator.signalGenerator ((p.stateFor event.symbol).update event.price) = reaction at hreacts
  have hgenerator := PaperExecutionPipeline.generator_handleTick hreaction
  obtain ⟨generator, result⟩ := reaction
  simp only [Agrees, held]
  rw [hgenerator]
  cases hreacts with
  | stopsOut hout =>
    have hin : ¬ p.generator.Reenters event.price := fun hin ↦ by cases hout.1.symm.trans hin.1
    have hsold := agrees_stopsOut event (hagrees.mp hout.1)
    rw [PaperExecutionPipeline.trades_handleTick hreaction rfl]
    constructor
    · intro h
      refine ⟨fun _ ↦ hsold.mp (by_contra fun hne ↦ ?_), fun h ↦ absurd h hin⟩
      cases h.mpr hne
    · exact fun h ↦ iff_of_false nofun (not_not.mpr (hsold.mpr (h.1 hout)))
  | reenters hin =>
    have hout : ¬ p.generator.StopsOut event.price := fun hout ↦ by cases hout.1.symm.trans hin.1
    have hheld : p.held = 0 := by
      by_contra hne
      cases hin.1.symm.trans (hagrees.mpr hne)
    have hbought := agrees_reenters event hheld
    rw [PaperExecutionPipeline.trades_handleTick hreaction rfl]
    constructor
    · exact fun h ↦ ⟨fun h ↦ absurd h hout, fun _ ↦ hbought.mp (h.mp rfl)⟩
    · exact fun h ↦ iff_of_true rfl (hbought.mpr (h.2 hin))
  | quiet hout hin hresult =>
    rw [PaperExecutionPipeline.trades_handleTick_of_quiet hreaction hresult]
    exact iff_of_true hagrees ⟨fun h ↦ absurd h hout, fun h ↦ absurd h hin⟩

end StopLossPipeline

/-- After every tick the flag agrees with the ledger, exactly as long as every signal is filled:
an exit to the last share held, a re-entry at all. -/
theorem stop_loss_agrees_iff {trades : List PaperTrade} {symbol : String} {maxDrawdownLimit : ℚ}
    {p : StopLossPipeline} (hstart : StopLossPipeline.start trades symbol maxDrawdownLimit = some p)
    (events : List TickEvent) :
    Along StopLossPipeline.step (fun _ _ p' ↦ p'.Agrees) p events ↔
      Along StopLossPipeline.step (fun p event _ ↦ p.SignalFilled event) p events := by
  have hinit : p.Agrees := StopLossPipeline.agrees_start hstart
  refine along_state_iff (fun p event p' hagrees hstep ↦ ?_) hinit
  exact StopLossPipeline.agrees_step hagrees hstep

def infyTrades : List PaperTrade := [⟨"INFY", .equity, .buy, 10, 100⟩]

def infyTick (guard : Option LatencyGuard) : TickEvent :=
  ⟨"INFY", 84, ⟨false, guard, []⟩, some ⟨84, [⟨84, 6⟩, ⟨83, 9⟩], []⟩, .done⟩

def infyPipeline : StopLossPipeline :=
  (StopLossPipeline.start infyTrades "INFY" 15).get (by decide +kernel)

theorem stop_loss_agrees_iff_sold :
    Along StopLossPipeline.step (fun _ _ p' ↦ p'.Agrees) infyPipeline [infyTick none] := by
  refine (stop_loss_agrees_iff (Option.some_get _).symm _).mpr ⟨⟨fun _ ↦ ?_, fun h ↦ ?_⟩, trivial⟩
  · exact ⟨⟨84, [⟨84, 6⟩, ⟨83, 9⟩], []⟩, ⟨rfl, rfl, nofun⟩, by decide +kernel⟩
  · cases h.1

/-- The latency guard rejects the exit, and the ten shares are held without protection. -/
theorem rejected_exit_unprotected :
    ¬ Along StopLossPipeline.step (fun _ _ p' ↦ p'.Agrees) infyPipeline
      [infyTick (some ⟨true, "0.4", "0.1"⟩)] := by
  intro h
  have hopen := h.1.mpr (by decide +kernel)
  revert hopen
  decide +kernel

end TradingOS.PaperTrading
