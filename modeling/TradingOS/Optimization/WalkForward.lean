import TradingOS.Data.DateOffset
import TradingOS.Lib.Intervals
import Mathlib.Data.List.MinMax
import Mathlib.Logic.Function.Iterate

namespace TradingOS.Optimization

open Data Lib

structure WalkForwardWindow where
  trainStart : ℤ
  trainEnd : ℤ
  testStart : ℤ
  testEnd : ℤ
  deriving DecidableEq

/-- `.loc[start : stop]` on the dates of a series; the bar at `stop` is part of it. -/
def labelSlice (index : List ℤ) (start stop : ℤ) : List ℤ :=
  index.filter fun b ↦ start ≤ b ∧ b ≤ stop

namespace WalkForwardWindow

def trainSlice (w : WalkForwardWindow) (index : List ℤ) : List ℤ :=
  labelSlice index w.trainStart w.trainEnd

def testSlice (w : WalkForwardWindow) (index : List ℤ) : List ℤ :=
  labelSlice index w.testStart w.testEnd

end WalkForwardWindow

/-- The loop of `generate_walk_forward_windows`; `none` when it has not ended within the fuel. -/
def windowsFrom (trainPeriod testPeriod step : DateOffset) (dataEnd : ℤ) :
    ℕ → ℤ → Option (List WalkForwardWindow)
  | 0, _ => none
  | fuel + 1, trainStart =>
    let trainEnd := trainPeriod.add trainStart
    let testStart := trainEnd
    let testEnd := testPeriod.add testStart
    if dataEnd < testEnd then some []
    else (windowsFrom trainPeriod testPeriod step dataEnd fuel (step.add trainStart)).map
      (⟨trainStart, trainEnd, testStart, testEnd⟩ :: ·)

/-- On an empty index the loop compares with `NaT`, and never ends. -/
def generateWalkForwardWindows (index : List ℤ) (trainPeriod testPeriod : DateOffset)
    (stepPeriod : Option DateOffset) : Option (List WalkForwardWindow) :=
  match index.min?, index.max? with
  | some dataStart, some dataEnd =>
    windowsFrom trainPeriod testPeriod (stepPeriod.getD testPeriod) dataEnd
      ((dataEnd - dataStart).toNat + 1) dataStart
  | _, _ => none

def walkForwardTrainPeriod : DateOffset := ⟨4, 0⟩

def walkForwardTestPeriod : DateOffset := ⟨1, 0⟩

def walkForwardStepPeriod : DateOffset := ⟨1, 0⟩

/-- The windows of `run_walk_forward_from_real_backtest`, for the dates of its close curve. -/
def realBacktestWindows (index : List ℤ) (trainPeriod testPeriod stepPeriod : DateOffset) :
    Option (List WalkForwardWindow) :=
  if index = [] then some []
  else generateWalkForwardWindows index trainPeriod testPeriod (some stepPeriod)

/-- No window trains on a bar that is not before the bars it tests on, and each bar from the first
test start to the last test end is tested on once. -/
structure Partitions (index : List ℤ) (windows : List WalkForwardWindow) : Prop where
  ahead : ∀ w ∈ windows, ∀ a ∈ w.trainSlice index, ∀ b ∈ w.testSlice index, a < b
  once : ∀ first ∈ windows.head?, ∀ last ∈ windows.getLast?, ∀ b ∈ index,
    first.testStart ≤ b → b ≤ last.testEnd → windows.countP (b ∈ ·.testSlice index) = 1

section Boundaries

variable (index : List ℤ) (trainPeriod testPeriod : DateOffset)

/-- The first date, moved on by the test period `k` times. -/
def trainStartAt (dataStart : ℤ) (k : ℕ) : ℤ := testPeriod.add^[k] dataStart

/-- No bar is dated a whole number of test periods and one training period after the first. -/
def TestStartsClear : Prop :=
  ∀ dataStart ∈ index.min?, ∀ dataEnd ∈ index.max?, ∀ k,
    testPeriod.add (trainPeriod.add (trainStartAt testPeriod dataStart k)) ≤ dataEnd →
      trainPeriod.add (trainStartAt testPeriod dataStart k) ∉ index

/-- No bar is between the dates that the two periods lead to in one order and in the other. -/
def MonthEndsClear : Prop :=
  ∀ dataStart ∈ index.min?, ∀ dataEnd ∈ index.max?, ∀ k,
    testPeriod.add (trainPeriod.add (trainStartAt testPeriod dataStart (k + 1))) ≤ dataEnd →
      ∀ b ∈ index,
        ¬ (testPeriod.add (trainPeriod.add (trainStartAt testPeriod dataStart k)) < b ∧
          b < trainPeriod.add (testPeriod.add (trainStartAt testPeriod dataStart k))) ∧
        ¬ (trainPeriod.add (testPeriod.add (trainStartAt testPeriod dataStart k)) < b ∧
          b ≤ testPeriod.add (trainPeriod.add (trainStartAt testPeriod dataStart k)))

end Boundaries

theorem mem_labelSlice {index : List ℤ} {start stop b : ℤ} :
    b ∈ labelSlice index start stop ↔ b ∈ index ∧ start ≤ b ∧ b ≤ stop := by
  rw [labelSlice, List.mem_filter, decide_eq_true_eq]

section Windows

variable {index : List ℤ} {train test step : DateOffset} {dataStart dataEnd : ℤ} {fuel k : ℕ}
  {windows : List WalkForwardWindow}

def windowAt (train test : DateOffset) (trainStart : ℤ) : WalkForwardWindow :=
  ⟨trainStart, train.add trainStart, train.add trainStart, test.add (train.add trainStart)⟩

theorem windowAt_testEnd_mono {c d : ℤ} (h : c ≤ d) :
    (windowAt train test c).testEnd ≤ (windowAt train test d).testEnd :=
  test.add_mono (train.add_mono h)

theorem trainStartAt_succ (test : DateOffset) (dataStart : ℤ) (k : ℕ) :
    trainStartAt test dataStart (k + 1) = test.add (trainStartAt test dataStart k) :=
  Function.iterate_succ_apply' _ _ _

theorem trainStartAt_mono (htest : test.Positive) (dataStart : ℤ) {i j : ℕ} (h : i ≤ j) :
    trainStartAt test dataStart i ≤ trainStartAt test dataStart j := by
  have hmono : Monotone (trainStartAt test dataStart) := monotone_nat_of_le_succ fun k ↦ by
    rw [trainStartAt_succ]
    exact (DateOffset.lt_add htest _).le
  exact hmono h

theorem windowsFrom_succ : windowsFrom train test step dataEnd (fuel + 1) dataStart =
    if dataEnd < (windowAt train test dataStart).testEnd then some []
    else (windowsFrom train test step dataEnd fuel (step.add dataStart)).map
      (windowAt train test dataStart :: ·) := rfl

/-- The loop ends: every window begins at least a day after the one before. -/
theorem exists_windowsFrom (htrain : train.Positive) (htest : test.Positive)
    (hstep : step.Positive) (hfuel : (dataEnd - dataStart).toNat < fuel) :
    ∃ windows, windowsFrom train test step dataEnd fuel dataStart = some windows := by
  induction fuel generalizing dataStart with
  | zero => exact absurd hfuel (Nat.not_lt_zero _)
  | succ fuel ih =>
    rw [windowsFrom_succ]
    by_cases hend : dataEnd < (windowAt train test dataStart).testEnd
    · exact ⟨[], if_pos hend⟩
    · have hlater := DateOffset.lt_add hstep dataStart
      have hwithin : dataStart < (windowAt train test dataStart).testEnd :=
        (DateOffset.lt_add htrain _).trans (DateOffset.lt_add htest _)
      have hless : (dataEnd - step.add dataStart).toNat < fuel := by omega
      obtain ⟨rest, hrest⟩ := ih hless
      rw [if_neg hend, hrest]
      exact ⟨_, rfl⟩

/-- The windows are those, one test period after the other, that end within the data. -/
theorem getElem?_windowsFrom (htest : test.Positive)
    (hwindows : windowsFrom train test test dataEnd fuel dataStart = some windows) (k : ℕ) :
    windows[k]? =
      if (windowAt train test (trainStartAt test dataStart k)).testEnd ≤ dataEnd
      then some (windowAt train test (trainStartAt test dataStart k)) else none := by
  induction fuel generalizing dataStart windows k with
  | zero => cases hwindows
  | succ fuel ih =>
    rw [windowsFrom_succ] at hwindows
    by_cases hend : dataEnd < (windowAt train test dataStart).testEnd
    · rw [if_pos hend] at hwindows
      obtain rfl := Option.some.inj hwindows
      have hlater : dataStart ≤ trainStartAt test dataStart k :=
        trainStartAt_mono htest dataStart (Nat.zero_le k)
      have hmono : (windowAt train test dataStart).testEnd ≤
          (windowAt train test (trainStartAt test dataStart k)).testEnd :=
        windowAt_testEnd_mono hlater
      rw [if_neg (not_le.mpr (hend.trans_le hmono))]
      rfl
    · rw [if_neg hend] at hwindows
      obtain ⟨rest, hrest, rfl⟩ := Option.map_eq_some_iff.mp hwindows
      cases k with
      | zero => exact (if_pos (not_lt.mp hend)).symm
      | succ k => exact ih hrest k

/-- The windows of a loop that has ended. -/
structure Generated (train test : DateOffset) (dataStart dataEnd : ℤ)
    (windows : List WalkForwardWindow) : Prop where
  trains : train.Positive
  tests : test.Positive
  at_index : ∀ k, windows[k]? =
    if (windowAt train test (trainStartAt test dataStart k)).testEnd ≤ dataEnd
    then some (windowAt train test (trainStartAt test dataStart k)) else none

namespace Generated

theorem window_eq (h : Generated train test dataStart dataEnd windows) (hk : k < windows.length) :
    (windowAt train test (trainStartAt test dataStart k)).testEnd ≤ dataEnd ∧
      windows[k] = windowAt train test (trainStartAt test dataStart k) := by
  have hget := h.at_index k
  rw [List.getElem?_eq_getElem hk] at hget
  split at hget
  · exact ⟨by assumption, Option.some.inj hget⟩
  · cases hget

theorem lt_length (h : Generated train test dataStart dataEnd windows)
    (hk : (windowAt train test (trainStartAt test dataStart k)).testEnd ≤ dataEnd) :
    k < windows.length := by
  have hget := h.at_index k
  rw [if_pos hk] at hget
  exact (List.getElem?_eq_some_iff.mp hget).1

theorem forall_mem_iff (h : Generated train test dataStart dataEnd windows)
    {P : WalkForwardWindow → Prop} : (∀ w ∈ windows, P w) ↔
      ∀ k, (windowAt train test (trainStartAt test dataStart k)).testEnd ≤ dataEnd →
        P (windowAt train test (trainStartAt test dataStart k)) := by
  constructor
  · intro hall k hk
    have hlt := h.lt_length hk
    exact (h.window_eq hlt).2 ▸ hall _ (List.getElem_mem hlt)
  · intro hall w hw
    obtain ⟨k, hk, rfl⟩ := List.mem_iff_getElem.mp hw
    rw [(h.window_eq hk).2]
    exact hall k (h.window_eq hk).1

theorem isChain_iff (h : Generated train test dataStart dataEnd windows)
    {R : WalkForwardWindow → WalkForwardWindow → Prop} : windows.IsChain R ↔
      ∀ k, (windowAt train test (trainStartAt test dataStart (k + 1))).testEnd ≤ dataEnd →
        R (windowAt train test (trainStartAt test dataStart k))
          (windowAt train test (trainStartAt test dataStart (k + 1))) := by
  rw [List.isChain_iff_getElem]
  constructor
  · intro hall k hk
    have hlt := h.lt_length hk
    have hr := hall k hlt
    rwa [(h.window_eq hlt).2, (h.window_eq (Nat.lt_of_succ_lt hlt)).2] at hr
  · intro hall k hk
    rw [(h.window_eq hk).2, (h.window_eq (Nat.lt_of_succ_lt hk)).2]
    exact hall k (h.window_eq hk).1

theorem pairwise (h : Generated train test dataStart dataEnd windows) {f : WalkForwardWindow → ℤ}
    (hf : ∀ c d, c ≤ d → f (windowAt train test c) ≤ f (windowAt train test d)) :
    windows.Pairwise fun u v ↦ f u ≤ f v := by
  rw [List.pairwise_iff_getElem]
  intro i j hi hj hij
  rw [(h.window_eq hi).2, (h.window_eq hj).2]
  exact hf _ _ (trainStartAt_mono h.tests dataStart hij.le)

theorem advancing (h : Generated train test dataStart dataEnd windows) :
    Advancing WalkForwardWindow.testStart WalkForwardWindow.testEnd windows where
  starts := h.pairwise fun _ _ hle ↦ train.add_mono hle
  stops := h.pairwise fun _ _ hle ↦ windowAt_testEnd_mono hle
  bounds := h.forall_mem_iff.mpr fun _ _ ↦ (DateOffset.lt_add h.tests _).le

/-- The bar on a test start is the only one that two slices of a window share. -/
theorem ahead_iff (h : Generated train test dataStart dataEnd windows) :
    (∀ w ∈ windows, ∀ a ∈ w.trainSlice index, ∀ b ∈ w.testSlice index, a < b) ↔
      ∀ k, (windowAt train test (trainStartAt test dataStart k)).testEnd ≤ dataEnd →
        train.add (trainStartAt test dataStart k) ∉ index := by
  rw [h.forall_mem_iff]
  refine forall₂_congr fun k _ ↦ ?_
  have htrain := DateOffset.lt_add h.trains (trainStartAt test dataStart k)
  have htest := DateOffset.lt_add h.tests (train.add (trainStartAt test dataStart k))
  constructor
  · intro hahead hmem
    exact lt_irrefl _ (hahead _ (mem_labelSlice.mpr ⟨hmem, htrain.le, le_refl _⟩) _
      (mem_labelSlice.mpr ⟨hmem, le_refl _, htest.le⟩))
  · intro hclear a ha b hb
    obtain ⟨hmem, -, hstop⟩ := mem_labelSlice.mp ha
    obtain ⟨-, hstart, -⟩ := mem_labelSlice.mp hb
    refine (lt_of_le_of_ne hstop fun heq ↦ hclear ?_).trans_le hstart
    have hend : a = train.add (trainStartAt test dataStart k) := heq
    exact hend ▸ hmem

theorem once_iff (h : Generated train test dataStart dataEnd windows) :
    (∀ first ∈ windows.head?, ∀ last ∈ windows.getLast?, ∀ b ∈ index,
      first.testStart ≤ b → b ≤ last.testEnd → windows.countP (b ∈ ·.testSlice index) = 1) ↔
    ∀ b ∈ index, windows.IsChain (Parts WalkForwardWindow.testStart WalkForwardWindow.testEnd b) := by
  have hcount : ∀ b ∈ index, windows.countP (b ∈ ·.testSlice index) =
      windows.countP (Covers WalkForwardWindow.testStart WalkForwardWindow.testEnd b ·) := by
    intro b hb
    refine List.countP_congr fun w _ ↦ ?_
    rw [decide_eq_true_eq, decide_eq_true_eq]
    exact mem_labelSlice.trans (and_iff_right hb)
  constructor
  · intro honce b hb
    refine h.advancing.covered_once_iff.mp fun first hfirst last hlast hstart hstop ↦ ?_
    rw [← hcount b hb]
    exact honce first hfirst last hlast b hb hstart hstop
  · intro hchain first hfirst last hlast b hb hstart hstop
    rw [hcount b hb]
    exact h.advancing.covered_once_iff.mpr (hchain b hb) first hfirst last hlast hstart hstop

theorem testStartsClear_iff (h : Generated train test dataStart dataEnd windows)
    (hstart : index.min? = some dataStart) (hend : index.max? = some dataEnd) :
    TestStartsClear index train test ↔
      ∀ w ∈ windows, ∀ a ∈ w.trainSlice index, ∀ b ∈ w.testSlice index, a < b := by
  rw [h.ahead_iff, TestStartsClear, hstart, hend]
  simp only [Option.mem_def, Option.some.injEq, forall_eq']
  rfl

theorem monthEndsClear_iff (h : Generated train test dataStart dataEnd windows)
    (hstart : index.min? = some dataStart) (hend : index.max? = some dataEnd)
    (hclear : TestStartsClear index train test) : MonthEndsClear index train test ↔
      ∀ b ∈ index,
        windows.IsChain (Parts WalkForwardWindow.testStart WalkForwardWindow.testEnd b) := by
  rw [MonthEndsClear, hstart, hend]
  simp only [Option.mem_def, Option.some.injEq, forall_eq']
  constructor
  · intro hmonths b hb
    refine h.isChain_iff.mpr fun k hk ↦ ?_
    obtain ⟨hgap, hboth⟩ := hmonths k hk b hb
    rw [trainStartAt_succ]
    refine ⟨hgap, fun hshared ↦ hboth ⟨lt_of_le_of_ne hshared.1 ?_, hshared.2⟩⟩
    rintro rfl
    have hnot := hclear dataStart hstart dataEnd hend (k + 1) hk
    rw [trainStartAt_succ] at hnot
    exact hnot hb
  · intro hchain k hk b hb
    have hparts := h.isChain_iff.mp (hchain b hb) k hk
    rw [trainStartAt_succ] at hparts
    exact ⟨hparts.1, fun hboth ↦ hparts.2 ⟨hboth.1.le, hboth.2⟩⟩

end Generated

theorem exists_generated (htrain : train.Positive) (htest : test.Positive)
    (hstart : index.min? = some dataStart) (hend : index.max? = some dataEnd) :
    ∃ windows, realBacktestWindows index train test test = some windows ∧
      Generated train test dataStart dataEnd windows := by
  have hsome : index ≠ [] := by
    rintro rfl
    cases hstart
  obtain ⟨windows, hwindows⟩ := exists_windowsFrom htrain htest htest
    (Nat.lt_succ_self (dataEnd - dataStart).toNat)
  refine ⟨windows, ?_, htrain, htest, getElem?_windowsFrom htest hwindows⟩
  rw [realBacktestWindows, if_neg hsome, generateWalkForwardWindows, hstart, hend]
  exact hwindows

/-- With the step equal to the test period, the windows part the bars exactly if none is on a test
start and none is where the end of a short month makes a test window end before the next one
starts, or after. -/
theorem windows_partition_iff (index : List ℤ) (train test : DateOffset)
    (htrain : train.Positive) (htest : test.Positive) :
    ∃ windows, realBacktestWindows index train test test = some windows ∧
      (Partitions index windows ↔
        TestStartsClear index train test ∧ MonthEndsClear index train test) := by
  by_cases hsome : index = []
  · subst hsome
    refine ⟨[], rfl, iff_of_true ⟨?_, ?_⟩ ⟨?_, ?_⟩⟩
    · exact fun w hw ↦ absurd hw List.not_mem_nil
    · exact fun first hfirst ↦ by cases hfirst
    · exact fun dataStart hstart ↦ by cases hstart
    · exact fun dataStart hstart ↦ by cases hstart
  · obtain ⟨dataStart, hstart⟩ := Option.isSome_iff_exists.mp (List.isSome_min?_of_ne_nil hsome)
    obtain ⟨dataEnd, hend⟩ := Option.isSome_iff_exists.mp (List.isSome_max?_of_ne_nil hsome)
    obtain ⟨windows, hwindows, hgenerated⟩ := exists_generated htrain htest hstart hend
    have hstarts := hgenerated.testStartsClear_iff hstart hend
    have hends := hgenerated.monthEndsClear_iff hstart hend
    refine ⟨windows, hwindows, ?_, ?_⟩
    · rintro ⟨hahead, honce⟩
      have hclear := hstarts.mpr hahead
      exact ⟨hclear, (hends hclear).mpr (hgenerated.once_iff.mp honce)⟩
    · rintro ⟨hclear, hmonths⟩
      exact ⟨hstarts.mp hclear, hgenerated.once_iff.mpr ((hends hclear).mp hmonths)⟩

/-- From one of the first 28 days of a month on, no month is too short. -/
theorem monthEndsClear_of_day_le (htrain : train.days = 0) (htest : test.days = 0)
    (hday : ∀ dataStart ∈ index.min?, Date.day dataStart ≤ 28) :
    MonthEndsClear index train test := by
  intro dataStart hstart dataEnd _ k _ b _
  have hdays : ∀ k, Date.day (trainStartAt test dataStart k) ≤ 28 := by
    intro k
    induction k with
    | zero => exact hday dataStart hstart
    | succ k ih =>
      rw [trainStartAt_succ, DateOffset.day_add htest ih]
      exact ih
  rw [DateOffset.add_comm htest htrain (hdays k)]
  exact ⟨fun hgap ↦ lt_asymm hgap.1 hgap.2, fun hboth ↦ not_le.mpr hboth.1 hboth.2⟩

end Windows

theorem windows_partition_month_bars : ∃ windows,
    realBacktestWindows [19724, 19850, 19880] walkForwardTrainPeriod walkForwardTestPeriod
      walkForwardStepPeriod = some windows ∧ Partitions [19724, 19850, 19880] windows := by
  have htest : walkForwardTestPeriod.Positive := by decide
  obtain ⟨windows, hwindows, hiff⟩ := windows_partition_iff [19724, 19850, 19880]
    walkForwardTrainPeriod walkForwardTestPeriod (by decide) htest
  refine ⟨windows, hwindows, hiff.mpr ⟨?_, ?_⟩⟩
  · intro dataStart hstart dataEnd hend k hk
    obtain rfl : 19724 = dataStart := Option.some.inj hstart
    obtain rfl : 19880 = dataEnd := Option.some.inj hend
    cases k with
    | zero => decide
    | succ k =>
      have hlater := trainStartAt_mono htest 19724 (Nat.succ_le_succ k.zero_le)
      have hsecond : trainStartAt walkForwardTestPeriod 19724 1 = 19755 := by decide
      rw [hsecond] at hlater
      have hout : 19880 < walkForwardTestPeriod.add (walkForwardTrainPeriod.add 19755) := by decide
      have hmono := walkForwardTestPeriod.add_mono (walkForwardTrainPeriod.add_mono hlater)
      exact absurd (hout.trans_le hmono) (not_lt.mpr hk)
  · exact monthEndsClear_of_day_le rfl rfl (by decide)

/-- The bar of 1 May is the last that the first window trains on and the first it tests on. -/
theorem shared_boundary_bar : ∃ windows,
    realBacktestWindows [19723, 19844, 19877] walkForwardTrainPeriod walkForwardTestPeriod
      walkForwardStepPeriod = some windows ∧ ¬ Partitions [19723, 19844, 19877] windows := by
  refine ⟨[⟨19723, 19844, 19844, 19875⟩], by decide, fun h ↦ ?_⟩
  exact absurd (h.ahead _ List.mem_cons_self 19844 (by decide) 19844 (by decide)) (by decide)

end TradingOS.Optimization
