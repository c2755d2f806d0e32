import Mathlib.Algebra.Order.BigOperators.Group.List
import Mathlib.Data.Rat.Floor
import Mathlib.Data.String.Basic
import TradingOS.Lib.Percentile
import TradingOS.Lib.SortedRows
import TradingOS.Lib.SortedSums

namespace TradingOS.Agents.Analytics

open Lib

inductive AgentRunStatus
  | running | paused | completed | halted | failed
  deriving DecidableEq

/-- The columns of an `AgentRun` row that the analytics read; times in seconds. -/
structure RunRow where
  status : AgentRunStatus
  startedAt : ℚ
  endedAt : Option ℚ

structure AgentRunStats where
  totalRuns : ℕ
  completed : ℕ
  failed : ℕ
  running : ℕ
  successRate : Option ℚ
  avgDurationSeconds : Option ℚ
  p50DurationSeconds : Option ℚ
  p95DurationSeconds : Option ℚ
  deriving DecidableEq

def RunRow.duration (r : RunRow) : Option ℚ :=
  if r.status = .completed then r.endedAt.map (· - r.startedAt) else none

def summarizeRuns (entries : List RunRow) : AgentRunStats :=
  let completed := entries.countP (·.status = .completed)
  let failed := entries.countP (·.status = .failed)
  let finished := completed + failed
  let durations := entries.filterMap RunRow.duration
  { totalRuns := entries.length
    completed := completed
    failed := failed
    running := entries.countP (·.status = .running)
    successRate := if 0 < finished then some (completed / finished) else none
    avgDurationSeconds := if durations = [] then none else some (mean durations)
    p50DurationSeconds := percentile 50 durations
    p95DurationSeconds := percentile 95 durations }

/-- The columns that `GET /analytics/summary` selects, in no particular order. -/
abbrev LedgerRow := String × RunRow

def groupByAgent (rows : List LedgerRow) : Table String (List RunRow) :=
  rows.foldl (fun by_agent r ↦ (by_agent.setdefault r.1 []).modify r.1 (· ++ [r.2])) .empty

structure RetryEscalationStats where
  retryCount : ℕ
  escalatedCount : ℕ
  deriving DecidableEq

/-- A task of the organisation's ledger: its agent, its retries and whether it is escalated. -/
structure TaskRow where
  assignedAgent : String
  retryCount : ℕ
  escalated : Bool

def aggregateRetryEscalation (rows : List TaskRow) : Table String RetryEscalationStats :=
  (Table.group TaskRow.assignedAgent rows).summarize fun entries ↦
    ⟨(entries.map TaskRow.retryCount).sum, entries.countP (·.escalated)⟩

structure SummaryRow where
  agentName : String
  stats : AgentRunStats
  retryEscalation : RetryEscalationStats
  deriving DecidableEq

/-- `get_analytics_summary`. An agent without a run has no row, whatever its tasks. -/
def analyticsSummary (rows : List LedgerRow) (taskRows : List TaskRow) : List SummaryRow :=
  let retryEscalation := aggregateRetryEscalation taskRows
  (groupByAgent rows).sortedRows.map fun (agentName, entries) ↦
    { agentName := agentName
      stats := summarizeRuns entries
      retryEscalation := (retryEscalation.get? agentName).getD ⟨0, 0⟩ }

structure DailyRunBucket where
  totalRuns : ℕ
  completed : ℕ
  failed : ℕ
  deriving DecidableEq

def DailyRunBucket.add (bucket : DailyRunBucket) (status : AgentRunStatus) : DailyRunBucket where
  totalRuns := bucket.totalRuns + 1
  completed := bucket.completed + if status = .completed then 1 else 0
  failed := bucket.failed + if status = .failed then 1 else 0

/-- The loop of `bucket_by_day`, over statuses with their days. -/
def byDay (rows : List (ℤ × AgentRunStatus)) : Table ℤ DailyRunBucket :=
  rows.foldl (fun by_day r ↦ (by_day.setdefault r.1 ⟨0, 0, 0⟩).modify r.1 (·.add r.2)) .empty

def bucketByDay (rows : List (ℤ × AgentRunStatus)) : List (ℤ × DailyRunBucket) :=
  (byDay rows).sortedRows

section Stats

variable {entries entries' : List RunRow} {rows rows' : List LedgerRow}
  {taskRows taskRows' : List TaskRow}

theorem summarizeRuns_perm (h : entries.Perm entries') :
    summarizeRuns entries = summarizeRuns entries' := by
  have hdurations := h.filterMap RunRow.duration
  have hmean : mean (entries.filterMap RunRow.duration) =
      mean (entries'.filterMap RunRow.duration) := by
    rw [mean, mean, hdurations.sum_eq, hdurations.length_eq]
  have hnil : entries.filterMap RunRow.duration = [] ↔ entries'.filterMap RunRow.duration = [] :=
    ⟨fun he ↦ (he ▸ hdurations).nil_eq.symm, fun he ↦ (he ▸ hdurations).eq_nil⟩
  simp only [summarizeRuns, h.countP_eq, h.length_eq, hmean, hnil, percentile_perm hdurations]

theorem get?_groupByAgent (rows : List LedgerRow) (agentName : String) :
    (groupByAgent rows).get? agentName =
      if agentName ∈ rows.map Prod.fst then
        some ((rows.filter (·.1 = agentName)).map Prod.snd)
      else none := by
  have hget := Table.get?_foldl_modify Prod.fst ([] : List RunRow) (fun entries r ↦ entries ++ [r.2])
    rows agentName
  have hfold (l : List LedgerRow) (entries : List RunRow) :
      l.foldl (fun entries r ↦ entries ++ [r.2]) entries = entries ++ l.map Prod.snd := by
    induction l generalizing entries with
    | nil => simp
    | cons r l ih => simp [ih]
  rw [hfold, List.nil_append] at hget
  exact hget

theorem get?_aggregateRetryEscalation (taskRows : List TaskRow) (agentName : String) :
    (aggregateRetryEscalation taskRows).get? agentName =
      if agentName ∈ taskRows.map TaskRow.assignedAgent then
        let own := taskRows.filter (·.assignedAgent = agentName)
        some ⟨(own.map TaskRow.retryCount).sum, own.countP (·.escalated)⟩
      else none := by
  rw [aggregateRetryEscalation, Table.get?_summarize, Table.get?_group]
  exact apply_ite (Option.map _) _ _ _

/-- The rows come without an order: the summary does not depend on the one they have. -/
theorem analyticsSummary_perm (h : rows.Perm rows') (htasks : taskRows.Perm taskRows') :
    analyticsSummary rows taskRows = analyticsSummary rows' taskRows' := by
  have hretry : ∀ k, (aggregateRetryEscalation taskRows).get? k =
      (aggregateRetryEscalation taskRows').get? k := by
    intro k
    simp only [get?_aggregateRetryEscalation, (htasks.map TaskRow.assignedAgent).mem_iff,
      ((htasks.filter _).map _).sum_eq, (htasks.filter _).countP_eq]
  -- the entries of an agent may be permuted, its statistics are the same
  have hstats : ∀ k, ((groupByAgent rows).summarize summarizeRuns).get? k =
      ((groupByAgent rows').summarize summarizeRuns).get? k := by
    intro k
    rw [Table.get?_summarize, Table.get?_summarize, get?_groupByAgent, get?_groupByAgent]
    by_cases hk : k ∈ rows.map Prod.fst
    · rw [if_pos hk, if_pos ((h.map Prod.fst).mem_iff.mp hk), Option.map_some, Option.map_some,
        summarizeRuns_perm ((h.filter _).map _)]
    · rw [if_neg hk, if_neg (mt (h.map Prod.fst).mem_iff.mpr hk)]
  have hrows := Table.sortedRows_congr hstats
  rw [Table.sortedRows_summarize, Table.sortedRows_summarize] at hrows
  have hmap (T : Table String (List RunRow)) (retry : Table String RetryEscalationStats) :
      (T.sortedRows.map fun (agentName, entries) ↦
        (⟨agentName, summarizeRuns entries, (retry.get? agentName).getD ⟨0, 0⟩⟩ : SummaryRow)) =
      (T.sortedRows.map fun r ↦ (r.1, summarizeRuns r.2)).map fun r ↦
        ⟨r.1, r.2, (retry.get? r.1).getD ⟨0, 0⟩⟩ := by
    rw [List.map_map]
    rfl
  simp only [analyticsSummary, hmap, hrows, hretry]

theorem countP_status_le (entries : List RunRow) :
    entries.countP (·.status = .completed) + entries.countP (·.status = .failed) +
      entries.countP (·.status = .running) ≤ entries.length := by
  induction entries with
  | nil => simp
  | cons r entries ih =>
    simp only [List.countP_cons, List.length_cons]
    cases r.status <;> simp <;> omega

/-- What the figures of one agent say of each other. -/
structure AgentRunStats.Consistent (stats : AgentRunStats) : Prop where
  counts : stats.completed + stats.failed + stats.running ≤ stats.totalRuns
  rate : ∀ rate ∈ stats.successRate, 0 ≤ rate ∧ rate ≤ 1
  rated : stats.successRate = none ↔ stats.completed + stats.failed = 0
  percentiles : ∀ p50 ∈ stats.p50DurationSeconds, ∀ p95 ∈ stats.p95DurationSeconds, p50 ≤ p95
  timed : stats.p50DurationSeconds = none ↔ stats.p95DurationSeconds = none

theorem summarizeRuns_consistent (entries : List RunRow) : (summarizeRuns entries).Consistent where
  counts := countP_status_le entries
  rate rate hrate := by
    simp only [summarizeRuns] at hrate
    split at hrate
    · next hpos =>
      cases hrate
      generalize entries.countP (·.status = .completed) = c at hpos ⊢
      generalize entries.countP (·.status = .failed) = f at hpos ⊢
      have hfinished : (0 : ℚ) < (c + f : ℕ) := by exact_mod_cast hpos
      constructor
      · exact div_nonneg c.cast_nonneg hfinished.le
      · rw [div_le_one hfinished]
        exact_mod_cast Nat.le_add_right c f
    · cases hrate
  rated := by
    simp only [summarizeRuns]
    split
    · next hpos => exact iff_of_false (by simp) hpos.ne'
    · next hzero => exact iff_of_true rfl (Nat.eq_zero_of_not_pos hzero)
  percentiles p50 hp50 p95 hp95 := percentile_mono (by norm_num) (by norm_num) hp50 hp95
  timed := percentile_eq_none.trans percentile_eq_none.symm

/-- What an agent's tasks add to its row. -/
def retryEscalationOf (taskRows : List TaskRow) (agentName : String) : RetryEscalationStats :=
  let own := taskRows.filter (·.assignedAgent = agentName)
  ⟨(own.map TaskRow.retryCount).sum, own.countP (·.escalated)⟩

theorem get?_aggregateRetryEscalation_getD (taskRows : List TaskRow) (agentName : String) :
    ((aggregateRetryEscalation taskRows).get? agentName).getD ⟨0, 0⟩ =
      retryEscalationOf taskRows agentName := by
  rw [get?_aggregateRetryEscalation]
  split
  · rfl
  · next h =>
    have hnone : taskRows.filter (·.assignedAgent = agentName) = [] := by
      apply List.filter_eq_nil_iff.mpr
      intro r hr he
      exact h (of_decide_eq_true he ▸ List.mem_map_of_mem hr)
    simp [retryEscalationOf, hnone]

theorem analyticsSummary_row (rows : List LedgerRow) (taskRows : List TaskRow) {r : SummaryRow}
    (hr : r ∈ analyticsSummary rows taskRows) :
    r.stats = summarizeRuns ((rows.filter (·.1 = r.agentName)).map Prod.snd) ∧
      r.retryEscalation = retryEscalationOf taskRows r.agentName := by
  obtain ⟨⟨agentName, entries⟩, hmem, rfl⟩ := List.mem_map.mp hr
  rw [Table.mem_sortedRows, get?_groupByAgent] at hmem
  split at hmem
  · exact ⟨congrArg summarizeRuns (Option.some.inj hmem).symm,
      get?_aggregateRetryEscalation_getD taskRows agentName⟩
  · cases hmem

theorem countP_cast {α : Type*} (p : α → Bool) (l : List α) :
    ((l.countP p : ℕ) : ℤ) = (l.map fun a ↦ if p a then 1 else 0).sum := by
  induction l with
  | nil => rfl
  | cons a l ih =>
    rw [List.countP_cons, List.map_cons, List.sum_cons, ← ih]
    push_cast
    rw [add_comm]

/-- Over the agents, a count of the summary adds up to the count of the ledger. -/
theorem sum_analyticsSummary (rows : List LedgerRow) (taskRows : List TaskRow)
    (count : AgentRunStats → ℕ) (p : RunRow → Bool)
    (hcount : ∀ entries, count (summarizeRuns entries) = entries.countP p) :
    ((analyticsSummary rows taskRows).map fun r ↦ (count r.stats : ℤ)).sum =
      rows.countP fun r ↦ p r.2 := by
  have hsum : ((analyticsSummary rows taskRows).map fun r ↦ (count r.stats : ℤ)).sum =
      (groupByAgent rows).total fun _ entries ↦ (count (summarizeRuns entries) : ℤ) := by
    rw [← Table.sum_sortedRows, analyticsSummary, List.map_map]
    rfl
  rw [hsum, groupByAgent, countP_cast]
  apply Table.total_foldl_modify
  · rw [hcount]
    rfl
  · intro entries r
    rw [hcount, hcount, List.countP_append, List.countP_singleton]
    push_cast
    split <;> rfl

/-- The summary partitions the ledger: one row an agent, in order of their names, each over exactly
its own runs and tasks, with figures that agree and counts that add up. -/
theorem analyticsSummary_partitions (rows : List LedgerRow) (taskRows : List TaskRow) :
    ((analyticsSummary rows taskRows).map SummaryRow.agentName).Pairwise (· < ·) ∧
    (∀ agentName, agentName ∈ (analyticsSummary rows taskRows).map SummaryRow.agentName ↔
      agentName ∈ rows.map Prod.fst) ∧
    (∀ r ∈ analyticsSummary rows taskRows,
      r.stats = summarizeRuns ((rows.filter (·.1 = r.agentName)).map Prod.snd) ∧
        r.stats.Consistent ∧ r.retryEscalation = retryEscalationOf taskRows r.agentName) ∧
    ((analyticsSummary rows taskRows).map fun r ↦ (r.stats.totalRuns : ℤ)).sum = rows.length ∧
    ((analyticsSummary rows taskRows).map fun r ↦ (r.stats.completed : ℤ)).sum =
      rows.countP (·.2.status = .completed) ∧
    ((analyticsSummary rows taskRows).map fun r ↦ (r.stats.failed : ℤ)).sum =
      rows.countP (·.2.status = .failed) ∧
    ∀ rows' taskRows', rows.Perm rows' → taskRows.Perm taskRows' →
      analyticsSummary rows taskRows = analyticsSummary rows' taskRows' := by
  have hnames : (analyticsSummary rows taskRows).map SummaryRow.agentName =
      (groupByAgent rows).sortedRows.map Prod.fst := by
    rw [analyticsSummary, List.map_map]
    rfl
  refine ⟨?_, ?_, ?_, ?_, ?_, ?_, fun _ _ h htasks ↦ analyticsSummary_perm h htasks⟩
  · rw [hnames]
    exact List.pairwise_map.mpr (Table.sortedRows_pairwise _)
  · intro agentName
    have hkeys : agentName ∈ (groupByAgent rows).sortedRows.map Prod.fst ↔
        (groupByAgent rows).get? agentName ≠ none := by
      rw [((Table.sortedRows_perm _).map Prod.fst).mem_iff, ne_eq, Table.get?_eq_none, not_not]
      rfl
    rw [hnames, hkeys, get?_groupByAgent]
    split <;> simp_all
  · intro r hr
    obtain ⟨hstats, hretry⟩ := analyticsSummary_row rows taskRows hr
    exact ⟨hstats, hstats ▸ summarizeRuns_consistent _, hretry⟩
  · have hsum := sum_analyticsSummary rows taskRows AgentRunStats.totalRuns (fun _ ↦ true)
      fun entries ↦ by simp [summarizeRuns]
    rw [hsum]
    simp
  · exact sum_analyticsSummary rows taskRows AgentRunStats.completed _ fun _ ↦ rfl
  · exact sum_analyticsSummary rows taskRows AgentRunStats.failed _ fun _ ↦ rfl

end Stats

section Trend

def bucketOf (statuses : List AgentRunStatus) : DailyRunBucket :=
  ⟨statuses.length, statuses.countP (· = .completed), statuses.countP (· = .failed)⟩

theorem foldl_add (statuses : List AgentRunStatus) (bucket : DailyRunBucket) :
    statuses.foldl DailyRunBucket.add bucket =
      ⟨bucket.totalRuns + (bucketOf statuses).totalRuns,
        bucket.completed + (bucketOf statuses).completed,
        bucket.failed + (bucketOf statuses).failed⟩ := by
  induction statuses generalizing bucket with
  | nil => rfl
  | cons status statuses ih =>
    rw [List.foldl_cons, ih]
    simp only [DailyRunBucket.add, bucketOf, List.length_cons, List.countP_cons, decide_eq_true_eq,
      DailyRunBucket.mk.injEq]
    omega

theorem bucketOf_counts (statuses : List AgentRunStatus) :
    (bucketOf statuses).completed + (bucketOf statuses).failed ≤ (bucketOf statuses).totalRuns := by
  simp only [bucketOf]
  induction statuses with
  | nil => simp
  | cons status statuses ih =>
    simp only [List.countP_cons, List.length_cons]
    cases status <;> simp <;> omega

/-- The runs of one day. -/
def ofDay (rows : List (ℤ × AgentRunStatus)) (day : ℤ) : List AgentRunStatus :=
  (rows.filter (·.1 = day)).map Prod.snd

theorem get?_byDay (rows : List (ℤ × AgentRunStatus)) (day : ℤ) :
    (byDay rows).get? day =
      if day ∈ rows.map Prod.fst then some (bucketOf (ofDay rows day)) else none := by
  have hget := Table.get?_foldl_modify Prod.fst (⟨0, 0, 0⟩ : DailyRunBucket)
    (fun bucket (r : ℤ × AgentRunStatus) ↦ bucket.add r.2) rows day
  have hfold (l : List (ℤ × AgentRunStatus)) :
      l.foldl (fun bucket r ↦ bucket.add r.2) (⟨0, 0, 0⟩ : DailyRunBucket) =
        bucketOf (l.map Prod.snd) := by
    have hmap := foldl_add (l.map Prod.snd) ⟨0, 0, 0⟩
    rw [List.foldl_map] at hmap
    rw [hmap]
    simp only [Nat.zero_add]
  rw [hfold] at hget
  exact hget

theorem mem_bucketByDay {rows : List (ℤ × AgentRunStatus)} {day : ℤ} {bucket : DailyRunBucket} :
    (day, bucket) ∈ bucketByDay rows ↔
      day ∈ rows.map Prod.fst ∧ bucket = bucketOf (ofDay rows day) := by
  rw [bucketByDay, Table.mem_sortedRows, get?_byDay]
  split
  · next h => simp [h, eq_comm]
  · next h => simp [h]

theorem ofDay_ne_nil {rows : List (ℤ × AgentRunStatus)} {day : ℤ} (h : day ∈ rows.map Prod.fst) :
    ofDay rows day ≠ [] := by
  obtain ⟨r, hr, rfl⟩ := List.mem_map.mp h
  apply List.ne_nil_of_mem
  apply List.mem_map_of_mem (f := Prod.snd)
  exact List.mem_filter.mpr ⟨hr, by simp⟩

theorem sum_bucketByDay (rows : List (ℤ × AgentRunStatus)) (count : DailyRunBucket → ℕ)
    (p : AgentRunStatus → Bool) (hcount : ∀ statuses, count (bucketOf statuses) = statuses.countP p)
    (hadd : ∀ bucket status, count (bucket.add status) = count bucket + if p status then 1 else 0) :
    ((bucketByDay rows).map fun r ↦ (count r.2 : ℤ)).sum = rows.countP fun r ↦ p r.2 := by
  rw [bucketByDay, Table.sum_sortedRows fun _ (b : DailyRunBucket) ↦ (count b : ℤ), countP_cast]
  apply Table.total_foldl_modify Prod.fst (⟨0, 0, 0⟩ : DailyRunBucket)
    (fun b (r : ℤ × AgentRunStatus) ↦ b.add r.2) (fun b ↦ (count b : ℤ))
  · have hnone := hcount []
    simp only [bucketOf, List.length_nil, List.countP_nil] at hnone
    exact_mod_cast hnone
  · intro bucket r
    rw [hadd]
    push_cast
    split <;> rfl

/-- The trend has a bucket for each day that has a run, none for another, in the order of the days;
the buckets add up to the ledger and do not depend on the order of its rows. -/
theorem bucketByDay_partitions (rows : List (ℤ × AgentRunStatus)) :
    ((bucketByDay rows).map Prod.fst).Pairwise (· < ·) ∧
    (∀ day, day ∈ (bucketByDay rows).map Prod.fst ↔ day ∈ rows.map Prod.fst) ∧
    (∀ r ∈ bucketByDay rows, r.2 = bucketOf (ofDay rows r.1) ∧ 0 < r.2.totalRuns ∧
      r.2.completed + r.2.failed ≤ r.2.totalRuns) ∧
    ((bucketByDay rows).map fun r ↦ (r.2.totalRuns : ℤ)).sum = rows.length ∧
    ((bucketByDay rows).map fun r ↦ (r.2.completed : ℤ)).sum =
      rows.countP (·.2 = .completed) ∧
    ((bucketByDay rows).map fun r ↦ (r.2.failed : ℤ)).sum = rows.countP (·.2 = .failed) ∧
    ∀ rows', rows.Perm rows' → bucketByDay rows' = bucketByDay rows := by
  refine ⟨List.pairwise_map.mpr (Table.sortedRows_pairwise _), ?_, ?_, ?_, ?_, ?_, ?_⟩
  · intro day
    constructor
    · intro h
      obtain ⟨r, hr, rfl⟩ := List.mem_map.mp h
      exact (mem_bucketByDay.mp hr).1
    · intro h
      exact List.mem_map_of_mem (f := Prod.fst) (mem_bucketByDay.mpr ⟨h, rfl⟩)
  · intro r hr
    obtain ⟨hday, hbucket⟩ := mem_bucketByDay.mp hr
    refine ⟨hbucket, ?_, hbucket ▸ bucketOf_counts _⟩
    rw [hbucket, bucketOf, List.length_pos_iff]
    exact ofDay_ne_nil hday
  · have hsum := sum_bucketByDay rows DailyRunBucket.totalRuns (fun _ ↦ true)
      (fun statuses ↦ by simp [bucketOf]) fun _ _ ↦ rfl
    rw [hsum, List.countP_true]
  · exact sum_bucketByDay rows DailyRunBucket.completed (· = .completed) (fun _ ↦ rfl)
      fun bucket status ↦ by simp [DailyRunBucket.add]
  · exact sum_bucketByDay rows DailyRunBucket.failed (· = .failed) (fun _ ↦ rfl)
      fun bucket status ↦ by simp [DailyRunBucket.add]
  · intro rows' h
    apply Table.sortedRows_congr
    intro day
    have hsame : bucketOf (ofDay rows' day) = bucketOf (ofDay rows day) := by
      have hperm := (h.filter (·.1 = day)).map Prod.snd
      simp only [bucketOf, ofDay, hperm.length_eq, hperm.countP_eq]
    simp only [get?_byDay, (h.map Prod.fst).mem_iff, hsame]

end Trend

end TradingOS.Agents.Analytics
