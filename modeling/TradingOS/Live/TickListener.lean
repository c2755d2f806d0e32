import TradingOS.Lib.Json
import TradingOS.Lib.JsonLoads
import TradingOS.PaperTrading.IntradayRiskRules

namespace TradingOS.Live

open Lib Lib.Runs PaperTrading

structure Tick where
  symbol : String
  price : ℚ
  timestamp : ℤ
  deriving DecidableEq

inductive PayloadError
  | jsonDecodeError | attributeError | keyError | typeError | valueError | overflowError
  deriving DecidableEq

/-- What `json.loads`, `datetime.fromisoformat` and `float` read, where they do not raise. -/
structure TickReader where
  loads : String → Option (Json String)
  fromisoformat : String → Option ℤ
  float : String → Option ℚ

/-- `bool(...)` of a value. -/
def truthy : Json String → Bool
  | .leaf .null => false
  | .leaf (.bool b) => b
  | .leaf (.int n) => n ≠ 0
  | .leaf (.float x) => x.significand ≠ 0
  | .leaf (.str s) => s ≠ ""
  | .list items => ¬ items.isEmpty
  | .dict entries => ¬ entries.isEmpty

def floatValue (x : PyFloat) : ℚ :=
  let n : ℚ := x.significand * 10 ^ x.shift.toNat / 10 ^ (-x.shift).toNat
  if x.negative then -n else n

/-- `float` of an integer: the nearest double, unless the integer is too large for one. -/
def floatOfInt (n : ℤ) : Except PayloadError ℚ :=
  match JsonLoads.nearestDouble (n < 0) |n| with
  | .finite x => .ok x
  | _ => .error .overflowError

namespace TickReader

variable (reader : TickReader)

def timestampOf (now : ℤ) : Option (Json String) → Except PayloadError ℤ
  | none => .ok now
  | some value =>
    if ¬ truthy value then .ok now
    else
      match value with
      | .leaf (.str s) => (reader.fromisoformat s).elim (.error .valueError) .ok
      | _ => .error .typeError

def priceOf : Option (Json String) → Except PayloadError ℚ
  | none => .error .keyError
  | some (.leaf (.bool b)) => .ok (if b then 1 else 0)
  | some (.leaf (.int n)) => floatOfInt n
  | some (.leaf (.float x)) => .ok (floatValue x)
  | some (.leaf (.str s)) => (reader.float s).elim (.error .valueError) .ok
  | some _ => .error .typeError

def parseTickPayload (now : ℤ) (symbol raw : String) : Except PayloadError Tick :=
  match reader.loads raw with
  | none => .error .jsonDecodeError
  | some (.dict entries) => do
    let timestamp ← reader.timestampOf now (entries.lookup "timestamp")
    let price ← reader.priceOf (entries.lookup "price")
    return ⟨symbol, price, timestamp⟩
  | some _ => .error .attributeError

end TickReader

/-- The task of `run_multi_symbol_tick_listener`, which the worker starts once and cancels at its
end. -/
inductive ListenerTask
  | running | failed | cancelled
  deriving DecidableEq

/-- A message on a tick channel, and what its handling meets. -/
structure TickMessage where
  symbol : String
  raw : String
  now : ℤ
  gate : RiskGate
  quote : Option Quote
  commit : Commit

/-- The listener and the pipelines that the worker's sync keeps. -/
structure TickListener where
  task : ListenerTask
  pipelines : String → Option StopLossPipeline
  delivered : List Tick

inductive ListenerEvent
  | message (message : TickMessage)
  | sync (symbol : String) (trades : List PaperTrade) (maxDrawdownLimit : ℚ)
  | drop (symbol : String)
  | shutdown

def TickMessage.event (message : TickMessage) (tick : Tick) : TickEvent :=
  ⟨tick.symbol, tick.price, message.gate, message.quote, message.commit⟩

def handleTick (pipeline : StopLossPipeline) (event : TickEvent) :
    StopLossPipeline × Except TickError (Option PaperTrade) :=
  pipeline.handleTick PositionState.signalGenerator event

namespace TickListener

variable (reader : TickReader)

def start : TickListener := ⟨.running, fun _ ↦ none, []⟩

/-- Nothing in the loop catches what the parser or the pipeline raises. -/
def onMessage (s : TickListener) (message : TickMessage) : TickListener :=
  match s.pipelines message.symbol with
  | none => s
  | some pipeline =>
    match reader.parseTickPayload message.now message.symbol message.raw with
    | .error _ => { s with task := .failed }
    | .ok tick =>
      let (pipeline, result) := handleTick pipeline (message.event tick)
      { task := match result with | .error _ => .failed | .ok _ => .running
        pipelines := Function.update s.pipelines message.symbol (some pipeline)
        delivered := s.delivered ++ [tick] }

/-- A message that no one listens for is lost. -/
def step (s : TickListener) : ListenerEvent → Option TickListener
  | .message message => some (if s.task = .running then s.onMessage reader message else s)
  | .sync symbol trades maxDrawdownLimit =>
    if (s.pipelines symbol).isSome then some s
    else
      some
        { s with
          pipelines := Function.update s.pipelines symbol
            (StopLossPipeline.start trades symbol maxDrawdownLimit) }
  | .drop symbol => some { s with pipelines := Function.update s.pipelines symbol none }
  | .shutdown => some { s with task := .cancelled }

variable {reader} {s t : TickListener} {e : ListenerEvent}

/-- A well-formed tick of a watched symbol, before the shutdown. -/
def Awaits (reader : TickReader) (s : TickListener) (message : TickMessage) (tick : Tick) : Prop :=
  s.task ≠ .cancelled ∧ s.pipelines message.symbol ≠ none ∧
    reader.parseTickPayload message.now message.symbol message.raw = .ok tick

def Delivers (reader : TickReader) (s : TickListener) : ListenerEvent → TickListener → Prop
  | .message message, t => ∀ tick, s.Awaits reader message tick → t.delivered = s.delivered ++ [tick]
  | _, _ => True

def Quiet (reader : TickReader) (s : TickListener) : ListenerEvent → TickListener → Prop
  | .message message, _ => ∀ tick, ¬ s.Awaits reader message tick
  | _, _ => True

/-- The payload cannot be parsed, or the pipeline raises. -/
def Raises (reader : TickReader) (s : TickListener) : ListenerEvent → Prop
  | .message message => s.task = .running ∧ ∃ pipeline, s.pipelines message.symbol = some pipeline ∧
    match reader.parseTickPayload message.now message.symbol message.raw with
    | .error _ => True
    | .ok tick => ∃ error, (handleTick pipeline (message.event tick)).2 = .error error
  | _ => False

/-- No message that raises comes before a tick that is awaited. -/
def RaisesAtTheEnd (reader : TickReader) (s : TickListener) (events : List ListenerEvent) : Prop :=
  ∀ before e after s' t, events = before ++ e :: after → Run (step reader) s before s' →
    step reader s' e = some t → s'.Raises reader e → Along (step reader) (Quiet reader) t after

theorem step_delivers (hs : s.task = .running) (hstep : step reader s e = some t) :
    s.Delivers reader e t := by
  cases e with
  | message message =>
    rintro tick ⟨-, hwatched, hparse⟩
    obtain ⟨pipeline, hpipeline⟩ := Option.ne_none_iff_exists'.mp hwatched
    obtain rfl := Option.some.inj hstep
    simp only [if_pos hs, onMessage, hpipeline, hparse]
  | sync _ _ _ | drop _ | shutdown => trivial

theorem delivers_iff_quiet (hs : s.task ≠ .running) (hstep : step reader s e = some t) :
    s.Delivers reader e t ↔ s.Quiet reader e t := by
  cases e with
  | message message =>
    obtain rfl := Option.some.inj hstep
    rw [if_neg hs]
    refine forall_congr' fun tick ↦ imp_congr_right fun _ ↦ iff_of_false (fun hsame ↦ ?_) id
    simp at hsame
  | sync _ _ _ | drop _ | shutdown => exact Iff.rfl

theorem step_not_running (hs : s.task ≠ .running) (hstep : step reader s e = some t) :
    t.task ≠ .running := by
  cases e with
  | message message =>
    obtain rfl := Option.some.inj hstep
    rwa [if_neg hs]
  | sync symbol trades limit =>
    simp only [step] at hstep
    split at hstep
    all_goals
      obtain rfl := Option.some.inj hstep
      exact hs
  | drop symbol =>
    obtain rfl := Option.some.inj hstep
    exact hs
  | shutdown =>
    obtain rfl := Option.some.inj hstep
    exact nofun

theorem step_cancelled (hs : s.task = .cancelled) (hstep : step reader s e = some t) :
    t.task = .cancelled := by
  cases e with
  | message message =>
    obtain rfl := Option.some.inj hstep
    rwa [if_neg (by rw [hs]; nofun)]
  | sync symbol trades limit =>
    simp only [step] at hstep
    split at hstep
    all_goals
      obtain rfl := Option.some.inj hstep
      exact hs
  | drop symbol =>
    obtain rfl := Option.some.inj hstep
    exact hs
  | shutdown =>
    obtain rfl := Option.some.inj hstep
    rfl

/-- What raises ends the loop, and nothing else does before the shutdown. -/
theorem task_of_step (hs : s.task = .running) (hstep : step reader s e = some t) :
    s.Raises reader e ∧ t.task ≠ .running ∨
      ¬ s.Raises reader e ∧ (t.task = .running ∨ t.task = .cancelled) := by
  cases e with
  | message message =>
    obtain rfl := Option.some.inj hstep
    simp only [if_pos hs, onMessage, Raises]
    cases hpipeline : s.pipelines message.symbol with
    | none =>
      refine .inr ⟨?_, .inl hs⟩
      rintro ⟨-, _, hnone, -⟩
      cases hnone
    | some pipeline =>
      cases hparse : reader.parseTickPayload message.now message.symbol message.raw with
      | error _ => exact .inl ⟨⟨hs, pipeline, rfl, trivial⟩, nofun⟩
      | ok tick =>
        cases hresult : (handleTick pipeline (message.event tick)).2 with
        | error error =>
          refine .inl ⟨⟨hs, pipeline, rfl, error, hresult⟩, ?_⟩
          simp only [hresult]
          nofun
        | ok trade =>
          refine .inr ⟨?_, .inl (by simp only [hresult])⟩
          rintro ⟨-, _, hsame, error, herror⟩
          obtain rfl := Option.some.inj hsame
          cases hresult.symm.trans herror
  | sync symbol trades limit =>
    refine .inr ⟨id, .inl ?_⟩
    simp only [step] at hstep
    split at hstep
    all_goals
      obtain rfl := Option.some.inj hstep
      exact hs
  | drop symbol =>
    obtain rfl := Option.some.inj hstep
    exact .inr ⟨id, .inl hs⟩
  | shutdown =>
    obtain rfl := Option.some.inj hstep
    exact .inr ⟨id, .inr rfl⟩

theorem along_delivers_iff_quiet (hs : s.task ≠ .running) (events : List ListenerEvent) :
    Along (step reader) (Delivers reader) s events ↔ Along (step reader) (Quiet reader) s events :=
  along_iff_of_invariant (fun _ _ _ ↦ step_not_running) (fun _ _ _ ↦ delivers_iff_quiet) hs

theorem along_quiet_of_cancelled (hs : s.task = .cancelled) (events : List ListenerEvent) :
    Along (step reader) (Quiet reader) s events := by
  refine along_of_step (fun s e t hs hstep ↦ ⟨step_cancelled hs hstep, ?_⟩) hs
  cases e with
  | message message => exact fun tick hawaits ↦ hawaits.1 hs
  | sync _ _ _ | drop _ | shutdown => trivial

theorem raisesAtTheEnd_of_not_running (hs : s.task ≠ .running) (events : List ListenerEvent) :
    s.RaisesAtTheEnd reader events := by
  intro before e after s' t _ hrun _ hraises
  have hs' : s'.task ≠ .running := hrun.invariant (fun _ _ _ ↦ step_not_running) hs
  cases e with
  | message message => exact absurd hraises.1 hs'
  | sync _ _ _ | drop _ | shutdown => exact hraises.elim

theorem raisesAtTheEnd_cons (hstep : step reader s e = some t) (events : List ListenerEvent) :
    s.RaisesAtTheEnd reader (e :: events) ↔
      (s.Raises reader e → Along (step reader) (Quiet reader) t events) ∧
        t.RaisesAtTheEnd reader events := by
  constructor
  · intro h
    refine ⟨h [] e events s t rfl (.nil s) hstep, fun before e' after s' t' hevents hrun ↦ ?_⟩
    exact h (e :: before) e' after s' t' (by rw [hevents]; rfl) (.cons hstep hrun)
  · rintro ⟨hhead, htail⟩ before e' after s' t' hevents hrun hstep' hraises
    cases hrun with
    | nil =>
      obtain ⟨rfl, rfl⟩ := List.cons.inj hevents
      obtain rfl := Option.some.inj (hstep.symm.trans hstep')
      exact hhead hraises
    | cons hfirst hrest =>
      obtain ⟨rfl, rfl⟩ := List.cons.inj hevents
      obtain rfl := Option.some.inj (hstep.symm.trans hfirst)
      exact htail _ e' after s' t' rfl hrest hstep' hraises

theorem delivers_iff_of_running (hs : s.task = .running) (events : List ListenerEvent) :
    Along (step reader) (Delivers reader) s events ↔ s.RaisesAtTheEnd reader events := by
  induction events generalizing s with
  | nil =>
    refine iff_of_true trivial fun before e after s' t hevents ↦ ?_
    simp at hevents
  | cons e events ih =>
    cases hstep : step reader s e with
    | none =>
      refine iff_of_true (along_cons_none hstep) fun before e' after s' t hevents hrun hstep' ↦ ?_
      cases hrun with
      | nil =>
        obtain ⟨rfl, -⟩ := List.cons.inj hevents
        cases hstep.symm.trans hstep'
      | cons hfirst _ =>
        obtain ⟨rfl, -⟩ := List.cons.inj hevents
        cases hstep.symm.trans hfirst
    | some t =>
      rw [along_cons hstep, and_iff_right (step_delivers hs hstep), raisesAtTheEnd_cons hstep]
      rcases task_of_step hs hstep with ⟨hraises, hended⟩ | ⟨hnot, hrunning | hcancelled⟩
      · rw [along_delivers_iff_quiet hended, and_iff_left (raisesAtTheEnd_of_not_running hended _)]
        exact ⟨fun hquiet _ ↦ hquiet, fun hquiet ↦ hquiet hraises⟩
      · rw [ih hrunning]
        exact (and_iff_right fun hraises ↦ absurd hraises hnot).symm
      · have hended : t.task ≠ .running := by
          rw [hcancelled]
          nofun
        rw [along_delivers_iff_quiet hended]
        exact iff_of_true (along_quiet_of_cancelled hcancelled events)
          ⟨fun hraises ↦ absurd hraises hnot, raisesAtTheEnd_of_not_running hended events⟩

/-- Every tick of a watched symbol reaches its pipeline until the shutdown exactly if no payload
that cannot be parsed, and no error of a pipeline, comes before another such tick. -/
theorem ticks_delivered_iff (reader : TickReader) (events : List ListenerEvent) :
    Along (step reader) (Delivers reader) start events ↔ start.RaisesAtTheEnd reader events :=
  delivers_iff_of_running rfl events

/-- Reads two payloads and no more. -/
def twoPayloads : TickReader where
  loads raw :=
    if raw = "\x7b\x7d" then some (.dict [])
    else if raw = "\x7b\"price\": 90\x7d" then some (.dict [("price", .leaf (.int 90))])
    else none
  fromisoformat _ := none
  float _ := none

def messageOn (symbol raw : String) : TickMessage := ⟨symbol, raw, 0, ⟨false, none, []⟩, none, .done⟩

/-- A tick of RELIANCE without a price, and then one of TCS that no one hears. -/
theorem missing_price_silences :
    ¬ Along (step twoPayloads) (Delivers twoPayloads) start
      [.sync "RELIANCE" [⟨"RELIANCE", .equity, .buy, 10, 100⟩] 5,
        .sync "TCS" [⟨"TCS", .equity, .buy, 10, 100⟩] 5,
        .message (messageOn "RELIANCE" "\x7b\x7d"),
        .message (messageOn "TCS" "\x7b\"price\": 90\x7d")] := by
  intro h
  obtain ⟨-, h⟩ := (along_cons rfl).mp h
  obtain ⟨-, h⟩ := (along_cons rfl).mp h
  obtain ⟨-, h⟩ := (along_cons rfl).mp h
  obtain ⟨hdelivers, -⟩ := (along_cons rfl).mp h
  have hdelivered := hdelivers ⟨"TCS", 90, 0⟩
    ⟨by decide, Option.isSome_iff_ne_none.mp (by decide +kernel), by decide +kernel⟩
  revert hdelivered
  decide +kernel

end TickListener

end TradingOS.Live
