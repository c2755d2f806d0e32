import TradingOS.Agents.GraphInvariants

namespace TradingOS.Agents

open Api Lib Lib.Runs

/-- The FAIL verdicts in a row since the CEO was last entered, its entries, and the code written so
far for the strategy at hand, the first included. -/
structure Tally where
  rejections : ℕ
  entries : ℕ
  codes : ℕ

namespace Tally

def init : Tally := ⟨0, 0, 0⟩

def note (c : Tally) : Update → Tally
  | .ceoAgent _ => { c with rejections := 0, entries := c.entries + 1 }
  | .strategyGenerator _ => { c with codes := 0 }
  | .pythonCodeGenerator _ => { c with codes := c.codes + 1 }
  | .evaluator verdict => { c with rejections := if verdict.passed then 0 else c.rejections + 1 }
  | _ => c

/-- From the second cycle on, the verdict that led to the CEO is still in the state and is counted
again by the strategy generator. -/
def carried (c : Tally) : ℕ := if 1 < c.entries then 1 else 0

end Tally

def Update.ingests : Update → Bool
  | .memoryIngest => true
  | _ => false

def Update.failsValidation : Update → Bool
  | .pythonValidator result => !result.passed
  | _ => false

namespace TradingOSGraphState

variable {s t : TradingOSGraphState} {c : Tally} {u : Update} {ls : List Update}
  {threadId : String} {n : Node} {k : ℕ}

section Escalation

/-- How the counter in the state stands to the FAIL verdicts, by the node that is entered next. -/
def Balances (s : TradingOSGraphState) (c : Tally) : Node → Prop
  | .ceoAgent => s.evaluationFailed = decide (0 < c.entries)
  | .marketAnalyst => 0 < c.entries ∧ s.strategyRejectionCount = 0 ∧ c.rejections = 0 ∧
      s.evaluationFailed = decide (1 < c.entries)
  | .strategyGenerator => 0 < c.entries ∧
      (s.strategyRejectionCount + if s.evaluationFailed then 1 else 0) =
        c.rejections + c.carried ∧ s.strategyRejectionCount < 5
  | .optionsStrategyAgent | .pythonCodeGenerator | .compliance | .pythonValidator | .backtesting
  | .evaluator => 0 < c.entries ∧ s.strategyRejectionCount = c.rejections + c.carried ∧
      s.strategyRejectionCount ≤ 5
  | .memoryIngest => 0 < c.entries ∧ s.evaluationFailed ∧
      s.strategyRejectionCount + 1 = c.rejections + c.carried ∧ s.strategyRejectionCount ≤ 5
  | .optimization | .riskManager | .deployment => True

def Counted (s : TradingOSGraphState) (c : Tally) : Prop := ∀ n, s.next = some n → Balances s c n

theorem counted_of_next (hnext : s.next = some n) (h : Balances s c n) : Counted s c := by
  intro m hm
  obtain rfl := Option.some.inj (hnext.symm.trans hm)
  exact h

theorem evaluationFailed_advance (h : u.node ≠ .evaluator) :
    (s.advance u).evaluationFailed = s.evaluationFailed := by
  cases u with
  | evaluator _ => exact absurd rfl h
  | _ => rfl

theorem counted_init (threadId : String) : Counted (init threadId) .init :=
  counted_of_next rfl rfl

theorem counted_step (hs : Counted s c) (h : s.step u = some t) : Counted t (c.note u) := by
  obtain ⟨⟨hnode, -⟩, rfl⟩ := step_eq_some.mp h
  have hb := hs _ hnode
  cases u with
  | ceoAgent directive =>
    have hfailed : s.evaluationFailed = decide (0 < c.entries) := hb
    refine counted_of_next rfl ⟨c.entries.succ_pos, rfl, rfl, ?_⟩
    rw [evaluationFailed_advance (by simp [Update.node]), hfailed]
    simp [Tally.note]
  | marketAnalyst context =>
    obtain ⟨hpos, hcount, hrej, hfailed⟩ := hb
    refine counted_of_next rfl ⟨hpos, ?_, ?_⟩
    · rw [evaluationFailed_advance (by simp [Update.node]), hfailed]
      by_cases h : 1 < c.entries <;> simp [advance, hcount, hrej, Tally.note, Tally.carried, h]
    · simp [advance, hcount]
  | strategyGenerator logic =>
    obtain ⟨hpos, hcount, hlt⟩ := hb
    refine counted_of_next rfl ⟨hpos, hcount, ?_⟩
    simp only [advance]
    split_ifs <;> omega
  | optionsStrategyAgent _ | pythonCodeGenerator _ | backtesting _ => exact counted_of_next rfl hb
  | compliance verdict =>
    intro n hn
    obtain ⟨-, rfl⟩ := routeAfterCompliance_eq hn
    exact hb
  | pythonValidator result =>
    intro n hn
    rcases routeAfterValidation_eq hn with ⟨-, rfl⟩ | ⟨-, rfl⟩
    · exact hb
    · exact hb
  | evaluator verdict =>
    obtain ⟨hpos, hcount, hle⟩ := hb
    rcases routeAfterEvaluation_eq verdict with ⟨-, hroute⟩ | ⟨hfailed, hroute⟩
    · exact counted_of_next (congrArg some hroute) trivial
    · refine counted_of_next (congrArg some hroute) ⟨hpos, ?_, ?_, hle⟩
      · simp [evaluationFailed, advance, hfailed]
      · simp only [advance, Tally.note, Tally.carried, hfailed, Bool.false_eq_true,
          if_false] at hcount ⊢
        omega
  | memoryIngest =>
    obtain ⟨hpos, hfailed, hcount, hle⟩ := hb
    intro n hn
    obtain rfl := Option.some.inj hn
    by_cases h : GraphState.maxRejectionsBeforeEscalation ≤ s.strategyRejectionCount
    · rw [routeAfterMemoryIngest, if_pos h]
      exact hfailed.trans (decide_eq_true hpos).symm
    · rw [routeAfterMemoryIngest, if_neg h]
      refine ⟨hpos, ?_, not_le.mp h⟩
      rw [evaluationFailed_advance (by simp [Update.node]), if_pos hfailed]
      exact hcount
  | optimization _ | riskManager _ => exact counted_of_next rfl trivial
  | deployment _ => exact fun n hn ↦ by cases hn

/-- The first cycle takes six FAIL verdicts in a row, every later one five. -/
theorem escalates_iff (hs : Counted s c) (h : s.step u = some t) :
    t.next = some .ceoAgent ↔
      u = .memoryIngest ∧ c.rejections = if 1 < c.entries then 5 else 6 := by
  obtain ⟨⟨hnode, -⟩, rfl⟩ := step_eq_some.mp h
  cases u with
  | memoryIngest =>
    obtain ⟨-, -, hcount, hle⟩ := hs _ hnode
    have hroute : (s.advance .memoryIngest).next = some .ceoAgent ↔ 5 ≤ s.strategyRejectionCount := by
      simp only [advance, routeAfterMemoryIngest, GraphState.maxRejectionsBeforeEscalation]
      split_ifs with h <;> simp [h]
    simp only [hroute, Tally.carried, true_and] at hcount ⊢
    split_ifs at hcount ⊢ <;> omega
  | compliance verdict =>
    simp only [advance, routeAfterCompliance]
    split <;> simp
  | pythonValidator result =>
    simp only [advance, routeAfterValidation]
    split_ifs <;> simp
  | evaluator verdict =>
    simp only [advance, routeAfterEvaluation]
    split_ifs <;> simp
  | _ => simp [advance]

/-- The FAIL verdicts of the first cycle, after `k` of them have been ingested. -/
def FirstCycle (k : ℕ) (s : TradingOSGraphState) (c : Tally) : Prop :=
  c.entries ≤ 1 ∧ ∀ n, s.next = some n →
    match n with
    | .ceoAgent => k = 0 ∧ c.entries = 0
    | .memoryIngest => c.rejections = k + 1
    | .optimization | .riskManager | .deployment => True
    | _ => c.rejections = k

theorem firstCycle_init (threadId : String) : FirstCycle 0 (init threadId) .init := by
  refine ⟨Nat.zero_le 1, fun n hn ↦ ?_⟩
  obtain rfl := Option.some.inj hn
  exact ⟨rfl, rfl⟩

theorem firstCycle_step (hc : Counted s c) (hs : FirstCycle k s c) (h : s.step u = some t)
    (hk : k ≤ 4) : FirstCycle (k + if Update.ingests u then 1 else 0) t (c.note u) := by
  have hescalates := escalates_iff hc h
  obtain ⟨⟨hnode, -⟩, rfl⟩ := step_eq_some.mp h
  obtain ⟨hentries, hcount⟩ := hs
  have hb := hcount _ hnode
  cases u with
  | ceoAgent _ =>
    obtain ⟨rfl, hzero⟩ := hb
    refine ⟨by simp [Tally.note, hzero], fun n hn ↦ ?_⟩
    obtain rfl := Option.some.inj hn
    rfl
  | evaluator verdict =>
    have hrej : c.rejections = k := hb
    refine ⟨hentries, fun n hn ↦ ?_⟩
    rcases routeAfterEvaluation_eq verdict with ⟨-, hroute⟩ | ⟨hfailed, hroute⟩
    · obtain rfl := Option.some.inj (hn.symm.trans (congrArg some hroute))
      trivial
    · obtain rfl := Option.some.inj (hn.symm.trans (congrArg some hroute))
      simp [Tally.note, hfailed, hrej, Update.ingests]
  | memoryIngest =>
    have hrej : c.rejections = k + 1 := hb
    refine ⟨hentries, fun n hn ↦ ?_⟩
    have hmem := mem_successors hn
    simp only [Update.node, successors, List.mem_cons, List.not_mem_nil, or_false] at hmem
    rcases hmem with rfl | rfl
    · -- The first cycle has not had its six FAIL verdicts yet.
      obtain ⟨-, hsix⟩ := hescalates.mp hn
      rw [if_neg (by omega)] at hsix
      omega
    · exact hrej
  | pythonValidator _ =>
    refine ⟨hentries, fun n hn ↦ ?_⟩
    have hmem := mem_successors hn
    simp only [Update.node, successors, List.mem_cons, List.not_mem_nil, or_false] at hmem
    rcases hmem with rfl | rfl <;> exact hb
  | deployment _ => exact ⟨hentries, fun n hn ↦ by cases hn⟩
  | _ =>
    refine ⟨hentries, fun n hn ↦ ?_⟩
    obtain rfl := List.mem_singleton.mp (mem_successors hn)
    exact hb

/-- The CEO is entered again after the ingestion of the configured number of FAIL verdicts in a
row, and never otherwise. -/
def EscalatesUniformly (x : TradingOSGraphState × Tally) (u : Update)
    (y : TradingOSGraphState × Tally) : Prop :=
  y.1.next = some .ceoAgent ↔
    u = .memoryIngest ∧ x.2.rejections = GraphState.maxRejectionsBeforeEscalation

/-- A run escalates as configured exactly if it ingests fewer FAIL verdicts than the configured
number: the first cycle needs one more. -/
theorem escalation_uniform_iff (h : Run step (init threadId) ls s) :
    Along (observe step Tally.note) EscalatesUniformly (init threadId, .init) ls ↔
      ls.countP Update.ingests < GraphState.maxRejectionsBeforeEscalation := by
  have hinv : Counted (init threadId) .init ∧ FirstCycle 0 (init threadId) .init :=
    ⟨counted_init threadId, firstCycle_init threadId⟩
  refine Iff.trans ((h.observed .init).along_iff_countP_le
    (I := fun k x ↦ Counted x.1 x.2 ∧ FirstCycle k x.1 x.2) (n := 4) ?_ ?_ hinv) Nat.lt_succ_iff.symm
  · rintro k ⟨s, c⟩ u ⟨t, c'⟩ hk ⟨hc, hf⟩ hstep -
    obtain ⟨hstep, rfl⟩ := observe_eq_some.mp hstep
    exact ⟨counted_step hc hstep, firstCycle_step hc hf hstep hk⟩
  · rintro k ⟨s, c⟩ u ⟨t, c'⟩ hk ⟨hc, hf⟩ hstep
    obtain ⟨hstep, rfl⟩ := observe_eq_some.mp hstep
    simp only [EscalatesUniformly, escalates_iff hc hstep,
      GraphState.maxRejectionsBeforeEscalation, if_neg (not_lt.mpr hf.1)]
    obtain ⟨⟨hnode, -⟩, -⟩ := step_eq_some.mp hstep
    cases u with
    | memoryIngest =>
      have hrej : c.rejections = k + 1 := hf.2 _ hnode
      simp only [Update.ingests, true_and]
      omega
    | _ => simp [Update.ingests]

def rejectedAttempt : List Update := attempt "v" false ++ [.memoryIngest]

/-- A cycle of `n` rejected strategies, from the CEO on. -/
def cycle (n : ℕ) : List Update :=
  [.ceoAgent "", .marketAnalyst ""] ++ (List.replicate n rejectedAttempt).flatten

theorem four_rejected_uniform :
    Along (observe step Tally.note) EscalatesUniformly (init "t1", .init) (cycle 4) := by
  have hrun : Run step (init "t1") (cycle 4) ((exec step (init "t1") (cycle 4)).get
      (by decide +kernel)) := exec_eq_some.mp (Option.some_get _).symm
  exact (escalation_uniform_iff hrun).mpr (by decide +kernel)

/-- Five FAIL verdicts do not lead the first cycle back to the CEO, as they do the second. -/
theorem first_cycle_longer :
    (∃ s, Run step (init "t1") (cycle 5) s ∧ s.next = some .strategyGenerator) ∧
      (∃ s, Run step (init "t1") (cycle 6) s ∧ s.next = some .ceoAgent) ∧
        ∃ s, Run step (init "t1") (cycle 6 ++ cycle 5) s ∧ s.next = some .ceoAgent := by
  refine ⟨⟨_, exec_eq_some.mp (Option.some_get (by decide +kernel)).symm, ?_⟩,
    ⟨_, exec_eq_some.mp (Option.some_get (by decide +kernel)).symm, ?_⟩,
    ⟨_, exec_eq_some.mp (Option.some_get (by decide +kernel)).symm, ?_⟩⟩
  · decide +kernel
  · decide +kernel
  · decide +kernel

end Escalation

section Repair

/-- After `k` failed validations in the run, whichever strategies they were of. -/
def Shared (k : ℕ) (s : TradingOSGraphState) (c : Tally) : Prop :=
  s.codeValidationRetryCount = k ∧ ∀ n, s.next = some n →
    match n with
    | .optionsStrategyAgent | .pythonCodeGenerator => c.codes ≤ k
    | .compliance | .pythonValidator => c.codes ≤ k + 1
    | _ => True

theorem shared_init (threadId : String) : Shared 0 (init threadId) .init := by
  refine ⟨rfl, fun n hn ↦ ?_⟩
  obtain rfl := Option.some.inj hn
  trivial

theorem shared_step (hs : Shared k s c) (h : s.step u = some t) :
    Shared (k + if u.failsValidation then 1 else 0) t (c.note u) := by
  obtain ⟨⟨hnode, -⟩, rfl⟩ := step_eq_some.mp h
  obtain ⟨hretry, hcodes⟩ := hs
  have hb := hcodes _ hnode
  cases u with
  | strategyGenerator _ =>
    refine ⟨hretry, fun n hn ↦ ?_⟩
    obtain rfl := List.mem_singleton.mp (mem_successors hn)
    exact Nat.zero_le _
  | pythonCodeGenerator _ =>
    refine ⟨hretry, fun n hn ↦ ?_⟩
    obtain rfl := List.mem_singleton.mp (mem_successors hn)
    exact Nat.succ_le_succ hb
  | pythonValidator result =>
    have hle : c.codes ≤ k + 1 := hb
    refine ⟨?_, fun n hn ↦ ?_⟩
    · cases hpassed : result.passed <;> simp [advance, Update.failsValidation, hretry, hpassed]
    · rcases routeAfterValidation_eq hn with ⟨-, rfl⟩ | ⟨hfailed, rfl⟩
      · trivial
      · simpa [Update.failsValidation, Tally.note, hfailed] using hle
  | evaluator _ | memoryIngest =>
    refine ⟨hretry, fun n hn ↦ ?_⟩
    have hmem := mem_successors hn
    simp only [Update.node, successors, List.mem_cons, List.not_mem_nil, or_false] at hmem
    rcases hmem with rfl | rfl <;> trivial
  | deployment _ => exact ⟨hretry, fun n hn ↦ by cases hn⟩
  | _ =>
    refine ⟨hretry, fun n hn ↦ ?_⟩
    obtain rfl := List.mem_singleton.mp (mem_successors hn)
    exact hb

/-- After a validation that fails the code is written again while fewer than the configured number
of regenerations went into the strategy at hand. -/
def RepairsInFull (x : TradingOSGraphState × Tally) (u : Update)
    (y : TradingOSGraphState × Tally) : Prop :=
  u.failsValidation →
    (y.1.next = some .pythonCodeGenerator ↔ x.2.codes ≤ GraphState.maxCodeValidationRetries)

/-- Every strategy of a run gets the configured regenerations exactly if fewer validations fail than
that in the run as a whole. -/
theorem repair_budget_iff (h : Run step (init threadId) ls s) :
    Along (observe step Tally.note) RepairsInFull (init threadId, .init) ls ↔
      ls.countP Update.failsValidation < GraphState.maxCodeValidationRetries := by
  refine Iff.trans ((h.observed .init).along_iff_countP_le (I := fun k x ↦ Shared k x.1 x.2)
    (n := 2) ?_ ?_ (shared_init threadId)) Nat.lt_succ_iff.symm
  · rintro k ⟨s, c⟩ u ⟨t, c'⟩ hk hs hstep -
    obtain ⟨hstep, rfl⟩ := observe_eq_some.mp hstep
    exact shared_step hs hstep
  · rintro k ⟨s, c⟩ u ⟨t, c'⟩ hk hs hstep
    obtain ⟨hstep, rfl⟩ := observe_eq_some.mp hstep
    obtain ⟨⟨hnode, -⟩, rfl⟩ := step_eq_some.mp hstep
    cases u with
    | pythonValidator result =>
      have hle : c.codes ≤ k + 1 := hs.2 _ hnode
      cases hpassed : result.passed with
      | true => simp [RepairsInFull, Update.failsValidation, hpassed]
      | false =>
        have hretry : s.codeValidationRetryCount = k := hs.1
        have hnext : (s.advance (.pythonValidator result)).next = some .pythonCodeGenerator ↔
            k < 2 := by
          simp only [advance, routeAfterValidation, GraphState.maxCodeValidationRetries, hpassed,
            hretry, Bool.false_eq_true, if_false]
          split_ifs with h <;> simp <;> omega
        simp only [RepairsInFull, Update.failsValidation, GraphState.maxCodeValidationRetries,
          hpassed, hnext, Bool.not_false, true_and, forall_const]
        omega
    | _ => simp [RepairsInFull, Update.failsValidation]

/-- The code is written, and its validation fails. -/
def failedCode : List Update :=
  [.pythonCodeGenerator "bad", .compliance ⟨.pass, [], false, false, false⟩,
    .pythonValidator ⟨false, none⟩]

/-- A strategy whose code fails twice before it passes, and is then rejected. -/
def repairedTwice : List Update :=
  [.ceoAgent "", .marketAnalyst "", .strategyGenerator infy,
    .optionsStrategyAgent ⟨none, none, none⟩] ++ failedCode ++ failedCode ++
    rejectedAttempt.drop 2

theorem repairedTwice_repairs :
    Along (observe step Tally.note) RepairsInFull (init "t1", .init) repairedTwice := by
  have hrun : Run step (init "t1") repairedTwice ((exec step (init "t1") repairedTwice).get
      (by decide +kernel)) := exec_eq_some.mp (Option.some_get _).symm
  exact (repair_budget_iff hrun).mpr (by decide +kernel)

/-- The first failure of the next strategy's code ends the run: nothing of it is written again. -/
theorem next_strategy_unrepaired : ∃ s, Run step (init "t1")
    (repairedTwice ++ [.strategyGenerator infy, .optionsStrategyAgent ⟨none, none, none⟩] ++
      failedCode) s ∧ s.next = none := by
  refine ⟨_, exec_eq_some.mp (Option.some_get (by decide +kernel)).symm, ?_⟩
  decide +kernel

end Repair

end TradingOSGraphState

end TradingOS.Agents
