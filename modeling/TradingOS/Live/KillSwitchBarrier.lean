import TradingOS.Live.OrderPlacement

namespace TradingOS.Live

open Lib Lib.Runs Brokers

namespace LiveOrders

variable {s t : LiveOrders} {e : PlacementEvent}

/-- A trip has returned in some process, and has not been reset there. -/
def Barred (s : LiveOrders) : Prop := ∃ process, s.barrier process

/-- No broker is handed an order and no open row is added. -/
def Bars (s : LiveOrders) (_ : PlacementEvent) (t : LiveOrders) : Prop :=
  s.Barred → t.handed = s.handed ∧ ∀ row ∈ t.rows.drop s.rows.length, row.status.isTerminal

/-- Every call that has passed its check is done, retries and failover included. -/
def AllDone (s : LiveOrders) : Prop :=
  ∀ id call, s.calls.get? id = some call → call.stage.isDone

/-- No call is let through behind a barrier, and none is under way when one is raised. -/
def Clear (s : LiveOrders) (e : PlacementEvent) (_ : LiveOrders) : Prop :=
  (s.Lets e → ¬ s.Barred) ∧ (s.Raises e → s.AllDone)

/-- Behind a barrier no call is under way. -/
def Still (s : LiveOrders) : Prop := s.Barred → s.AllDone

theorem still_begin (maxRetries : ℕ) (brokers : BrokerKey → Broker) :
    (begin maxRetries brokers).Still := fun _ _ _ hget ↦ by cases hget

theorem AllDone.advance (h : s.AllDone) (id : ℕ) (ack : Option Acknowledgement) :
    (s.advance id (.ended ack)).AllDone := by
  intro k call hk
  rcases get?_advance hk with ⟨-, _, -, rfl⟩ | ⟨-, hget⟩
  · rfl
  · exact h k call hget

theorem Moves.still (h : s.Still) (hclear : s.Clear e t) (hmoves : Moves s e t) : t.Still := by
  cases hmoves with
  | stays _ => exact h
  | admits _ _ hlets _ => exact fun hbarred ↦ absurd hbarred (hclear.1 hlets)
  | advances _ hget hopen _ | acknowledges _ hget hopen _ =>
    intro hbarred
    cases hopen.symm.trans (h hbarred _ _ hget)
  | @writes id call ack outcome _ _ =>
    have hwritten : (if outcome.isCommitted then s.record call ack else s).Still := by
      split <;> exact h
    exact fun hbarred ↦ (hwritten hbarred).advance id ack
  | settles _ hbarrier _ _ =>
    rintro ⟨process, hprocess⟩
    rcases hbarrier process hprocess with hold | hraises
    · exact h ⟨process, hold⟩
    · exact hclear.2 hraises

theorem bars_of_rows (hhanded : t.handed = s.handed) (hrows : t.rows.length = s.rows.length) :
    s.Bars e t := by
  refine fun _ ↦ ⟨hhanded, fun row hrow ↦ ?_⟩
  rw [← hrows, List.drop_length] at hrow
  cases hrow

theorem Moves.bars (h : s.Still) (hmoves : Moves s e t) : s.Bars e t := by
  cases hmoves with
  | stays _ | admits _ _ _ _ => exact bars_of_rows rfl rfl
  | advances _ hget hopen _ | acknowledges _ hget hopen _ =>
    intro hbarred
    cases hopen.symm.trans (h hbarred _ _ hget)
  | @writes id call ack outcome hget hstage =>
    cases hcommitted : outcome.isCommitted with
    | false => exact bars_of_rows rfl rfl
    | true =>
      intro hbarred
      have hterminal : ack.status.isTerminal := by
        have hdone := h hbarred id call hget
        rwa [hstage] at hdone
      have hrows : ((s.record call ack).advance id (.ended ack)).rows.drop s.rows.length =
          [call.row ack] := List.drop_left
      rw [if_pos rfl, hrows, List.forall_mem_singleton]
      exact ⟨rfl, hterminal⟩
  | settles _ _ hrows _ =>
    refine bars_of_rows rfl ?_
    simpa only [List.length_map] using congrArg List.length hrows

/-- After a trip has returned and until its reset, nothing more is handed to a broker and no open
row is added, in every run in which no call that has passed its check is still under way when a trip
returns, and none passes it until the reset: an `execute_signal`, which looks at no switch, or a
request that another process serves. -/
theorem barrier_of_clear (maxRetries : ℕ) (brokers : BrokerKey → Broker)
    (events : List PlacementEvent) (h : Along step Clear (begin maxRetries brokers) events) :
    Along step Bars (begin maxRetries brokers) events := by
  refine along_of_invariant (fun s e t hs hclear hstep ↦ ?_) (still_begin maxRetries brokers) h
  exact ⟨(step_moves hstep).still hs hclear, (step_moves hstep).bars hs⟩

/-- An order that is filled, a trip, and a request that finds the switch tripped. -/
def filledThenTripped : List PlacementEvent :=
  [.placeOrder .app 0 "RELIANCE" false true, .send 0 0,
    .primaryEnds 0 .response ⟨"240102000000001", .filled, none⟩ 1, .trip .app "drawdown",
    .tripEnds 0 true, .write 0 .done, .placeOrder .app 1 "RELIANCE" false true]

theorem barrier_of_clear_filledThenTripped :
    Along step Bars (begin 3 fun _ ↦ .adapter) filledThenTripped := by
  refine barrier_of_clear 3 _ _ ?_
  refine (along_cons rfl).mpr ⟨⟨fun _ ⟨_, hbarrier⟩ ↦ Bool.false_ne_true hbarrier, nofun⟩, ?_⟩
  refine (along_cons rfl).mpr ⟨⟨nofun, nofun⟩, ?_⟩
  refine (along_cons rfl).mpr ⟨⟨nofun, nofun⟩, ?_⟩
  refine (along_cons rfl).mpr ⟨⟨nofun, nofun⟩, ?_⟩
  refine (along_cons rfl).mpr ⟨⟨nofun, fun _ id call hget ↦ ?_⟩, ?_⟩
  · have hcalls := (Table.get?_eq_some _).mp hget
    obtain ⟨-, rfl⟩ := Prod.mk.inj (List.mem_singleton.mp hcalls)
    rfl
  refine (along_cons rfl).mpr ⟨⟨nofun, nofun⟩, ?_⟩
  exact (along_cons rfl).mpr ⟨⟨nofun, nofun⟩, trivial⟩

/-- The request has passed its check, and its order goes out after the emergency stop. -/
theorem order_after_trip :
    ¬ Along step Bars (begin 3 fun _ ↦ .adapter)
      [.placeOrder .app 0 "RELIANCE" false true, .trip .app "drawdown", .tripEnds 0 true,
        .send 0 0] := by
  intro h
  obtain ⟨-, h⟩ := (along_cons rfl).mp h
  obtain ⟨-, h⟩ := (along_cons rfl).mp h
  obtain ⟨-, h⟩ := (along_cons rfl).mp h
  obtain ⟨hbars, -⟩ := (along_cons rfl).mp h
  obtain ⟨hhanded, -⟩ := hbars ⟨.app, rfl⟩
  cases hhanded

end LiveOrders

end TradingOS.Live
