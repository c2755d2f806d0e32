import Mathlib.Algebra.BigOperators.Group.List.Basic
import Mathlib.Data.Nat.Cast.Basic
import Mathlib.Algebra.Order.Floor.Ring
import Mathlib.Data.Rat.Floor
import TradingOS.Lib.Percentile
import TradingOS.Optimization.MonteCarlo

namespace TradingOS.Optimization

open Lib

/-- What numpy's generator gives of a seed: for the draws in turn, the position that each trade of
the resampled path is taken from. -/
abbrev Rng := (n seed draw : ℕ) → Fin n → Fin n

/-- `rng.choice(returns, size=len(returns), replace=True)`. -/
def resampled (rng : Rng) (tradeReturns : List ℚ) (seed draw : ℕ) : List ℚ :=
  List.ofFn fun k ↦ tradeReturns.get (rng tradeReturns.length seed draw k)

def runMonteCarloBatch (rng : Rng) (tradeReturns : List ℚ) (nSimulations seed : ℕ) :
    Option (List ℚ) :=
  (List.range nSimulations).mapM fun i ↦ maxDrawdownFromReturns (resampled rng tradeReturns seed i)

def drawdownPercentile : ℚ := 95

def splitIntoBatches (total nBatches : ℕ) : List ℕ :=
  (List.range nBatches).map fun i ↦ total / nBatches + if i < total % nBatches then 1 else 0

structure MonteCarloWorkflowInput where
  tradeReturns : List ℚ
  nSimulations : ℕ
  nBatches : ℕ

structure MonteCarloWorkflowResult where
  nSimulations : ℕ
  historicalMaxDrawdown : ℚ
  percentile95MaxDrawdown : ℚ
  simulatedMaxDrawdowns : List ℚ
  deriving DecidableEq

/-- `MonteCarloWorkflow.run`. -/
def runWorkflow (rng : Rng) (input : MonteCarloWorkflowInput) : Option MonteCarloWorkflowResult := do
  let batchSizes := (splitIntoBatches input.nSimulations input.nBatches).filter (0 < ·)
  let batchResults ← batchSizes.zipIdx.mapM fun (size, i) ↦
    runMonteCarloBatch rng input.tradeReturns size i
  let simulatedMaxDrawdowns := batchResults.flatten
  let historicalMaxDrawdown ← maxDrawdownFromReturns input.tradeReturns
  let percentile95 ← percentile drawdownPercentile simulatedMaxDrawdowns
  some ⟨simulatedMaxDrawdowns.length, historicalMaxDrawdown, percentile95, simulatedMaxDrawdowns⟩

/-- `run_monte_carlo_simulation`, which does all of it in one process. -/
def runMonteCarloSimulation (rng : Rng) (tradeReturns : List ℚ) (nSimulations seed : ℕ) :
    Option MonteCarloWorkflowResult :=
  if tradeReturns = [] then some ⟨nSimulations, 0, 0, []⟩
  else do
    let historicalMaxDrawdown ← maxDrawdownFromReturns tradeReturns
    let simulatedMaxDrawdowns ← runMonteCarloBatch rng tradeReturns nSimulations seed
    let percentile95 ← percentile drawdownPercentile simulatedMaxDrawdowns
    some ⟨nSimulations, historicalMaxDrawdown, percentile95, simulatedMaxDrawdowns⟩

section Batches

variable {total nBatches : ℕ}

theorem sum_splitIntoBatches (h : 0 < nBatches) : (splitIntoBatches total nBatches).sum = total := by
  have hextra : ((List.range nBatches).map fun i ↦ if i < total % nBatches then 1 else 0).sum =
      total % nBatches := by
    have hcount : ∀ n, ((List.range n).map fun i ↦ if i < total % nBatches then 1 else 0).sum =
        min n (total % nBatches) := by
      intro n
      induction n with
      | zero => simp
      | succ n ih =>
        rw [List.range_succ, List.map_append, List.sum_append, ih, List.map_singleton,
          List.sum_singleton]
        split <;> omega
    have hlt := Nat.mod_lt total h
    rw [hcount]
    omega
  rw [splitIntoBatches, List.sum_map_add, hextra, List.map_const', List.sum_replicate,
    List.length_range, nsmul_eq_mul, Nat.cast_id]
  exact Nat.div_add_mod total nBatches

theorem le_succ_of_mem_splitIntoBatches {a b : ℕ} (ha : a ∈ splitIntoBatches total nBatches)
    (hb : b ∈ splitIntoBatches total nBatches) : a ≤ b + 1 := by
  obtain ⟨i, -, rfl⟩ := List.mem_map.mp ha
  obtain ⟨j, -, rfl⟩ := List.mem_map.mp hb
  split <;> split <;> omega

theorem sum_filter_pos (l : List ℕ) : (l.filter (0 < ·)).sum = l.sum := by
  induction l with
  | nil => rfl
  | cons a l ih =>
    rcases Nat.eq_zero_or_pos a with rfl | ha
    · simp [ih]
    · simp [ha, ih]

end Batches

section Paths

variable {rng : Rng} {tradeReturns : List ℚ}

/-- The greatest fall along some path made of the trades. -/
def IsSimulated (tradeReturns : List ℚ) (d : ℚ) : Prop :=
  ∃ path : List ℚ, path.length = tradeReturns.length ∧ (∀ r ∈ path, r ∈ tradeReturns) ∧
    IsMaxDrawdown (equityAfter path) path.length d

theorem mem_of_mem_resampled {seed draw : ℕ} {r : ℚ}
    (h : r ∈ resampled rng tradeReturns seed draw) : r ∈ tradeReturns := by
  obtain ⟨k, rfl⟩ := List.mem_ofFn.mp h
  exact List.get_mem _ _

theorem simulated_of_resampled (rng : Rng) (h : ∀ r ∈ tradeReturns, -1 ≤ r) (seed draw : ℕ) :
    ∃ d, maxDrawdownFromReturns (resampled rng tradeReturns seed draw) = some d ∧
      IsSimulated tradeReturns d := by
  have hpath : ∀ r ∈ resampled rng tradeReturns seed draw, -1 ≤ r := fun r hr ↦
    h r (mem_of_mem_resampled hr)
  obtain ⟨d, hd, hmax⟩ := maxDrawdown_isMaxDrawdown hpath
  exact ⟨d, hd, _, List.length_ofFn, fun r hr ↦ mem_of_mem_resampled hr, hmax⟩

theorem IsSimulated.bounds (h : ∀ r ∈ tradeReturns, -1 ≤ r) {d : ℚ}
    (hd : IsSimulated tradeReturns d) : 0 ≤ d ∧ d ≤ 1 := by
  obtain ⟨path, -, hpath, hmax⟩ := hd
  exact ⟨hmax.nonneg zero_lt_one, hmax.le_one (equityAfter_nonneg fun r hr ↦ h r (hpath r hr))⟩

theorem exists_batch (rng : Rng) (h : ∀ r ∈ tradeReturns, -1 ≤ r) (nSimulations seed : ℕ) :
    ∃ l, runMonteCarloBatch rng tradeReturns nSimulations seed = some l ∧
      l.length = nSimulations ∧ ∀ d ∈ l, IsSimulated tradeReturns d := by
  choose d hd hsim using simulated_of_resampled rng h seed
  refine ⟨(List.range nSimulations).map d, mapM_eq_some fun i _ ↦ hd i, by simp, ?_⟩
  intro a ha
  obtain ⟨i, -, rfl⟩ := List.mem_map.mp ha
  exact hsim i

theorem exists_batches (rng : Rng) (h : ∀ r ∈ tradeReturns, -1 ≤ r) (sizes : List ℕ) :
    ∃ ls, sizes.zipIdx.mapM (fun (size, i) ↦ runMonteCarloBatch rng tradeReturns size i) = some ls ∧
      ls.flatten.length = sizes.sum ∧ ∀ d ∈ ls.flatten, IsSimulated tradeReturns d := by
  choose l hl hlen hsim using exists_batch rng h
  refine ⟨sizes.zipIdx.map fun r ↦ l r.1 r.2, mapM_eq_some fun r _ ↦ hl r.1 r.2, ?_, ?_⟩
  · have hfst : (sizes.zipIdx.map Prod.fst).sum = sizes.sum := by rw [List.zipIdx_map_fst]
    rw [List.length_flatten, List.map_map, ← hfst]
    congr 1
    exact List.map_congr_left fun r _ ↦ hlen r.1 r.2
  · intro d hd
    obtain ⟨batch, hbatch, hd⟩ := List.mem_flatten.mp hd
    obtain ⟨r, -, rfl⟩ := List.mem_map.mp hbatch
    exact hsim r.1 r.2 d hd

end Paths

/-- At most one path in twenty, rounded up, falls further than the percentile. -/
theorem countP_percentile95_le {l : List ℚ} {p : ℚ} (h : percentile drawdownPercentile l = some p) :
    20 * l.countP (p < ·) ≤ l.length + 18 := by
  have hcount := countP_percentile_lt_le (by norm_num [drawdownPercentile]) h
  generalize l.countP (p < ·) = c at hcount ⊢
  rcases Nat.eq_zero_or_pos l.length with hzero | hpos
  · rw [hzero] at hcount
    omega
  · generalize hk : l.length - 1 = k at hcount
    have hfloor : 19 * k / 20 ≤ ⌊(k : ℚ) * drawdownPercentile / 100⌋₊ := by
      have hle : (((19 * k / 20 : ℕ)) : ℚ) ≤ (k : ℚ) * drawdownPercentile / 100 := by
        have hdiv : (19 * k / 20) * 20 ≤ 19 * k := Nat.div_mul_le_self _ _
        have hq : (((19 * k / 20 : ℕ)) : ℚ) * 20 ≤ 19 * k := by exact_mod_cast hdiv
        rw [drawdownPercentile]
        linarith
      exact Nat.le_floor hle
    omega

/-- However the paths are drawn and split: all of them are simulated, in batches of nearly one size;
each is a reordering of the trades with repetitions; and the risk figure is a drawdown that at most
a twentieth of the paths exceed, whatever the order of the batches. -/
theorem runWorkflow_sound (rng : Rng) (input : MonteCarloWorkflowInput)
    (hreturns : ∀ r ∈ input.tradeReturns, -1 ≤ r) (hsimulations : 0 < input.nSimulations)
    (hbatches : 0 < input.nBatches) :
    ∃ result, runWorkflow rng input = some result ∧
      result.nSimulations = input.nSimulations ∧
      result.simulatedMaxDrawdowns.length = input.nSimulations ∧
      (∀ d ∈ result.simulatedMaxDrawdowns, IsSimulated input.tradeReturns d) ∧
      (∀ a ∈ splitIntoBatches input.nSimulations input.nBatches,
        ∀ b ∈ splitIntoBatches input.nSimulations input.nBatches, a ≤ b + 1) ∧
      0 ≤ result.percentile95MaxDrawdown ∧ result.percentile95MaxDrawdown ≤ 1 ∧
      20 * result.simulatedMaxDrawdowns.countP (result.percentile95MaxDrawdown < ·) ≤
        input.nSimulations + 18 ∧
      ∀ l, l.Perm result.simulatedMaxDrawdowns →
        percentile drawdownPercentile l = some result.percentile95MaxDrawdown := by
  obtain ⟨ls, hls, hlen, hsim⟩ := exists_batches rng hreturns
    ((splitIntoBatches input.nSimulations input.nBatches).filter (0 < ·))
  rw [sum_filter_pos, sum_splitIntoBatches hbatches] at hlen
  obtain ⟨d, hd, -⟩ := maxDrawdown_isMaxDrawdown hreturns
  have hne : ls.flatten ≠ [] := by
    intro he
    rw [he] at hlen
    exact absurd hlen (Nat.ne_of_lt hsimulations)
  obtain ⟨p, hp⟩ : ∃ p, percentile drawdownPercentile ls.flatten = some p :=
    Option.ne_none_iff_exists'.mp (mt percentile_eq_none.mp hne)
  have hbounds := percentile_mem_Icc (fun a ha ↦ (hsim a ha).bounds hreturns)
    (by norm_num [drawdownPercentile]) hp
  refine ⟨⟨ls.flatten.length, d, p, ls.flatten⟩, ?_, hlen, hlen, hsim, fun a ha b hb ↦
    le_succ_of_mem_splitIntoBatches ha hb, hbounds.1, hbounds.2, ?_, fun l hl ↦ ?_⟩
  · simp only [runWorkflow, hls, hd, Option.bind_eq_bind, Option.bind_some, hp]
  · rw [← hlen]
    exact countP_percentile95_le hp
  · rw [percentile_perm hl]
    exact hp

/-- With one batch the workflow computes what the simulation in one process does. -/
theorem runWorkflow_one_batch (rng : Rng) {tradeReturns : List ℚ} (hne : tradeReturns ≠ [])
    {nSimulations : ℕ} (hsimulations : 0 < nSimulations)
    (hreturns : ∀ r ∈ tradeReturns, -1 ≤ r) :
    runWorkflow rng ⟨tradeReturns, nSimulations, 1⟩ =
      runMonteCarloSimulation rng tradeReturns nSimulations 0 := by
  obtain ⟨l, hl, hlen, -⟩ := exists_batch rng hreturns nSimulations 0
  have hsplit : (splitIntoBatches nSimulations 1).filter (0 < ·) = [nSimulations] := by
    simp [splitIntoBatches, Nat.mod_one, hsimulations]
  obtain ⟨d, hd, -⟩ := maxDrawdown_isMaxDrawdown hreturns
  simp [runWorkflow, runMonteCarloSimulation, hsplit, hne, hl, hd, hlen]

theorem runWorkflow_sound_three_batches :
    ∃ result, runWorkflow (fun _ _ _ ↦ id) ⟨[1 / 10, -1 / 5], 7, 3⟩ = some result ∧
      result.nSimulations = 7 ∧
      result.simulatedMaxDrawdowns.length = 7 ∧
      (∀ d ∈ result.simulatedMaxDrawdowns, IsSimulated [1 / 10, -1 / 5] d) ∧
      (∀ a ∈ splitIntoBatches 7 3, ∀ b ∈ splitIntoBatches 7 3, a ≤ b + 1) ∧
      0 ≤ result.percentile95MaxDrawdown ∧ result.percentile95MaxDrawdown ≤ 1 ∧
      20 * result.simulatedMaxDrawdowns.countP (result.percentile95MaxDrawdown < ·) ≤ 7 + 18 ∧
      ∀ l, l.Perm result.simulatedMaxDrawdowns →
        percentile drawdownPercentile l = some result.percentile95MaxDrawdown :=
  runWorkflow_sound _ ⟨[1 / 10, -1 / 5], 7, 3⟩ (by decide +kernel) (by decide) (by decide)

end TradingOS.Optimization
