import TradingOS.Data.ParquetLake
import TradingOS.Lib.Causal
import TradingOS.Lib.SortedSums

namespace TradingOS.Data.Indicators

open Lib

/-- A row of a single-symbol frame. -/
abbrev Bar := Row ℤ Ohlcv

/-- A cell of a computed column. -/
inductive Cell
  | null
  | nan
  | val (q : ℚ)
  deriving DecidableEq

/-- The sample variance. -/
def variance (window : List ℚ) : ℚ :=
  (window.map fun x ↦ (x - mean window) ^ 2).sum / (window.length - 1)

/-- `ewm_mean` without adjustment, over a column with no nulls. -/
def ewmMean (alpha : ℚ) : List ℚ → List ℚ :=
  running (fun previous x ↦
    let mean := match previous with
      | none => x
      | some previous => alpha * x + (1 - alpha) * previous
    (some mean, mean)) none

def sma (window : ℕ) (column : List ℚ) : List (Option ℚ) := rolling window mean column

def ema (span : ℕ) (column : List ℚ) : List ℚ := ewmMean (2 / (span + 1)) column

/-- `100 - (100 / (1 + rs))` where `rs` is a quotient of floats: without losses it is infinite, or
not a number when there are no gains either. -/
def rsiOf (avgGain avgLoss : ℚ) : Cell :=
  if avgLoss = 0 then if avgGain = 0 then .nan else .val 100
  else .val (100 - 100 / (1 + avgGain / avgLoss))

def diff (column : List ℚ) : List (Option ℚ) :=
  List.zipWith (fun x previous ↦ previous.map (x - ·)) column (delayed column)

/-- The average of a column whose leading cells are null, which are left out of it. -/
def ewmKnown (alpha : ℚ) : List (Option ℚ) → List (Option ℚ) :=
  running (fun previous x ↦
    match previous, x with
    | _, none => (previous, none)
    | none, some x => (some x, some x)
    | some previous, some x =>
      let mean := alpha * x + (1 - alpha) * previous
      (some mean, some mean)) none

def rsi (window : ℕ) (column : List ℚ) : List Cell :=
  let delta := diff column
  let gain := delta.map (Option.map (max 0 ·))
  let loss := delta.map (Option.map fun d ↦ max 0 (-d))
  List.zipWith (fun avgGain avgLoss ↦
    match avgGain, avgLoss with
    | some avgGain, some avgLoss => rsiOf avgGain avgLoss
    | _, _ => .null) (ewmKnown (1 / window) gain) (ewmKnown (1 / window) loss)

/-- `max_horizontal` passes over the nulls of the first row. -/
def trueRange (bar : Bar) (prevClose : Option ℚ) : ℚ :=
  match prevClose with
  | none => |bar.values.high - bar.values.low|
  | some prevClose => max |bar.values.high - bar.values.low|
    (max |bar.values.high - prevClose| |bar.values.low - prevClose|)

def closes (df : List Bar) : List ℚ := df.map (·.values.close)

def atr (window : ℕ) (df : List Bar) : List ℚ :=
  ewmMean (1 / window) (List.zipWith trueRange df (delayed (closes df)))

structure Band where
  upper : ℚ
  middle : ℚ
  lower : ℚ
  deriving DecidableEq

/-- The three bands of one row, whose windows are the same. -/
def bandOf (sqrt : ℚ → ℚ) (numStd : ℚ) (window : List ℚ) : Band :=
  let middle := mean window
  let std := sqrt (variance window)
  ⟨middle + numStd * std, middle, middle - numStd * std⟩

def bollingerBands (sqrt : ℚ → ℚ) (window : ℕ) (numStd : ℚ) (column : List ℚ) :
    List (Option Band) := rolling window (bandOf sqrt numStd) column

structure Macd where
  line : ℚ
  signal : ℚ
  histogram : ℚ
  deriving DecidableEq

def macd (fast slow signal : ℕ) (column : List ℚ) : List Macd :=
  let macdLine := List.zipWith (· - ·) (ema fast column) (ema slow column)
  List.zipWith (fun line signal ↦ ⟨line, signal, line - signal⟩) macdLine (ema signal macdLine)

/-- A row of `with_indicators`. -/
structure IndicatorRow where
  bar : Bar
  sma20 : Option ℚ
  ema20 : ℚ
  rsi14 : Cell
  atr14 : ℚ
  bb : Option Band
  macd : Macd
  deriving DecidableEq

def withColumn {β γ : Type} (rows : List (β → γ)) (column : List β) : List γ :=
  List.zipWith (fun row cell ↦ row cell) rows column

/-- `with_indicators`; the square root is that of the machine. -/
def withIndicators (sqrt : ℚ → ℚ) (df : List Bar) : List IndicatorRow :=
  let close := closes df
  let rows := df.map IndicatorRow.mk
  let rows := withColumn rows (sma 20 close)
  let rows := withColumn rows (ema 20 close)
  let rows := withColumn rows (rsi 14 close)
  let rows := withColumn rows (atr 14 df)
  let rows := withColumn rows (bollingerBands sqrt 20 2 close)
  withColumn rows (macd 12 26 9 close)

def getOhlcvIndicators (sqrt : ℚ → ℚ) (engine : Engine ℤ Ohlcv) (s : Lake ℤ (ℤ × ℤ) Ohlcv)
    (symbol : String) (start stop : Option ℤ) : List IndicatorRow :=
  withIndicators sqrt (DataLake.readSymbol engine s symbol start stop)

section Causal

theorem causal_ewmMean (alpha : ℚ) : Causal (ewmMean alpha) := causal_running _ _

theorem causal_ema (span : ℕ) : Causal (ema span) := causal_ewmMean _

theorem causal_sma (window : ℕ) : Causal (sma window) := causal_rolling _ _

theorem causal_diff : Causal diff := Causal.refl.zipWith causal_delayed _

theorem causal_rsi (window : ℕ) : Causal (rsi window) := by
  have hside (clip : ℚ → ℚ) :
      Causal fun column ↦ ewmKnown (1 / window) ((diff column).map (Option.map clip)) :=
    (causal_running _ _).comp ((Causal.map _).comp causal_diff)
  exact (hside _).zipWith (hside _) _

theorem causal_atr (window : ℕ) : Causal (atr window) := by
  have hprevious : Causal fun df ↦ delayed (closes df) := causal_delayed.comp (Causal.map _)
  exact (causal_ewmMean _).comp (Causal.refl.zipWith hprevious trueRange)

theorem causal_bollingerBands (sqrt : ℚ → ℚ) (window : ℕ) (numStd : ℚ) :
    Causal (bollingerBands sqrt window numStd) := causal_rolling _ _

theorem causal_macd (fast slow signal : ℕ) : Causal (macd fast slow signal) := by
  have hline := (causal_ema fast).zipWith (causal_ema slow) (· - ·)
  exact hline.zipWith ((causal_ema signal).comp hline) _

theorem causal_withIndicators (sqrt : ℚ → ℚ) : Causal (withIndicators sqrt) := by
  have hclose {β : Type} {column : List ℚ → List β} (h : Causal column) :
      Causal fun df ↦ column (closes df) := h.comp (Causal.map _)
  have hsma := (Causal.map IndicatorRow.mk).zipWith (hclose (causal_sma 20)) fun row cell ↦ row cell
  have hema := hsma.zipWith (hclose (causal_ema 20)) fun row cell ↦ row cell
  have hrsi := hema.zipWith (hclose (causal_rsi 14)) fun row cell ↦ row cell
  have hatr := hrsi.zipWith (causal_atr 14) fun row cell ↦ row cell
  have hbb := hatr.zipWith (hclose (causal_bollingerBands sqrt 20 2)) fun row cell ↦ row cell
  exact hbb.zipWith (hclose (causal_macd 12 26 9)) fun row cell ↦ row cell

end Causal

section Rows

variable {sqrt : ℚ → ℚ} {df : List Bar} {r : IndicatorRow} {i : ℕ}

theorem getElem?_withIndicators : (withIndicators sqrt df)[i]? = some r ↔
    df[i]? = some r.bar ∧ (sma 20 (closes df))[i]? = some r.sma20 ∧
      (ema 20 (closes df))[i]? = some r.ema20 ∧ (rsi 14 (closes df))[i]? = some r.rsi14 ∧
      (atr 14 df)[i]? = some r.atr14 ∧ (bollingerBands sqrt 20 2 (closes df))[i]? = some r.bb ∧
      (macd 12 26 9 (closes df))[i]? = some r.macd := by
  simp only [withIndicators, withColumn, List.getElem?_zipWith_eq_some, List.getElem?_map,
    Option.map_eq_some_iff]
  constructor
  · rintro ⟨_, _, ⟨_, _, ⟨_, _, ⟨_, _, ⟨_, _, ⟨_, _, ⟨bar, hbar, rfl⟩, hsma, rfl⟩, hema, rfl⟩,
      hrsi, rfl⟩, hatr, rfl⟩, hbb, rfl⟩, hmacd, rfl⟩
    exact ⟨hbar, hsma, hema, hrsi, hatr, hbb, hmacd⟩
  · rintro ⟨hbar, hsma, hema, hrsi, hatr, hbb, hmacd⟩
    exact ⟨_, _, ⟨_, _, ⟨_, _, ⟨_, _, ⟨_, _, ⟨_, _, ⟨_, hbar, rfl⟩, hsma, rfl⟩, hema, rfl⟩,
      hrsi, rfl⟩, hatr, rfl⟩, hbb, rfl⟩, hmacd, rfl⟩

theorem map_bar_withIndicators (sqrt : ℚ → ℚ) (df : List Bar) :
    (withIndicators sqrt df).map IndicatorRow.bar = df := by
  apply List.ext_getElem?
  intro i
  rw [List.getElem?_map]
  cases hr : (withIndicators sqrt df)[i]? with
  | none =>
    rw [List.getElem?_eq_none_iff, (causal_withIndicators sqrt).length_eq] at hr
    exact (List.getElem?_eq_none hr).symm
  | some r => exact (getElem?_withIndicators.mp hr).1.symm

end Rows

section Bounds

variable {lo hi alpha : ℚ} {column : List ℚ}

theorem mean_mem_Icc {window : List ℚ} (hne : window ≠ [])
    (h : ∀ x ∈ window, lo ≤ x ∧ x ≤ hi) : lo ≤ mean window ∧ mean window ≤ hi := by
  have hlength : (0 : ℚ) < window.length := by exact_mod_cast List.length_pos_iff.mpr hne
  have hlow := List.card_nsmul_le_sum window lo fun x hx ↦ (h x hx).1
  have hhigh := List.sum_le_card_nsmul window hi fun x hx ↦ (h x hx).2
  rw [nsmul_eq_mul] at hlow hhigh
  constructor
  · rw [mean, le_div_iff₀ hlength]
    linarith
  · rw [mean, div_le_iff₀ hlength]
    linarith

/-- The steps of an average do not leave a set that holds what lies between its members. -/
def Keeps (alpha : ℚ) (C : ℚ → Prop) : Prop :=
  ∀ x y, C x → C y → C (alpha * x + (1 - alpha) * y)

theorem keeps_ge (halpha : 0 ≤ alpha) (halpha' : alpha ≤ 1) (lo : ℚ) : Keeps alpha (lo ≤ ·) := by
  intro x y hx hy
  have hx := mul_le_mul_of_nonneg_left hx halpha
  have hy := mul_le_mul_of_nonneg_left hy (sub_nonneg.mpr halpha')
  linarith

theorem keeps_Icc (halpha : 0 ≤ alpha) (halpha' : alpha ≤ 1) (lo hi : ℚ) :
    Keeps alpha fun x ↦ lo ≤ x ∧ x ≤ hi := by
  intro x y hx hy
  refine ⟨keeps_ge halpha halpha' lo x y hx.1 hy.1, ?_⟩
  have hx := mul_le_mul_of_nonneg_left hx.2 halpha
  have hy := mul_le_mul_of_nonneg_left hy.2 (sub_nonneg.mpr halpha')
  linarith

theorem Keeps.ewmMean {C : ℚ → Prop} (hC : Keeps alpha C) (h : ∀ x ∈ column, C x) :
    ∀ y ∈ ewmMean alpha column, C y := by
  refine forall_mem_running (fun previous : Option ℚ ↦ ∀ y ∈ previous, C y) C C ?_ (by simp) h
  intro previous x hprevious hx
  cases previous with
  | none => simp [hx]
  | some previous => simp [hC x previous hx (hprevious previous rfl)]

theorem Keeps.ewmKnown {C : ℚ → Prop} (hC : Keeps alpha C) {column : List (Option ℚ)}
    (h : ∀ x ∈ column, ∀ q ∈ x, C q) : ∀ y ∈ ewmKnown alpha column, ∀ q ∈ y, C q := by
  refine forall_mem_running (fun previous : Option ℚ ↦ ∀ q ∈ previous, C q)
    (fun x ↦ ∀ q ∈ x, C q) (fun y ↦ ∀ q ∈ y, C q) ?_ (by simp) h
  intro previous x hprevious hx
  cases x with
  | none => exact ⟨hprevious, by simp⟩
  | some x =>
    have hx := hx x rfl
    cases previous with
    | none => simp [hx]
    | some previous => simp [hC x previous hx (hprevious previous rfl)]

theorem one_div_mem_Icc {window : ℕ} (hwindow : 0 < window) :
    (0 : ℚ) ≤ 1 / window ∧ (1 : ℚ) / window ≤ 1 := by
  have hone : (1 : ℚ) ≤ window := by exact_mod_cast hwindow
  constructor
  · positivity
  · rw [div_le_one (by linarith)]
    exact hone

theorem rsiOf_mem_Icc {avgGain avgLoss q : ℚ} (hgain : 0 ≤ avgGain) (hloss : 0 ≤ avgLoss)
    (h : rsiOf avgGain avgLoss = .val q) : 0 ≤ q ∧ q ≤ 100 := by
  rw [rsiOf] at h
  split at h
  · split at h
    · cases h
    · cases h
      norm_num
  · next hne =>
    cases h
    have hratio : 0 ≤ avgGain / avgLoss := div_nonneg hgain hloss
    have hpos : 0 < 1 + avgGain / avgLoss := by linarith
    have hle : 100 / (1 + avgGain / avgLoss) ≤ 100 := by
      rw [div_le_iff₀ hpos]
      linarith
    have hnonneg : 0 ≤ 100 / (1 + avgGain / avgLoss) := div_nonneg (by norm_num) hpos.le
    constructor
    · linarith
    · linarith

theorem rsi_mem_Icc {window : ℕ} (hwindow : 0 < window) {q : ℚ}
    (h : Cell.val q ∈ rsi window column) : 0 ≤ q ∧ q ≤ 100 := by
  obtain ⟨halpha, halpha'⟩ := one_div_mem_Icc hwindow
  have hclipped (clip : ℚ → ℚ) (hclip : ∀ d, 0 ≤ clip d) :
      ∀ y ∈ ewmKnown (1 / window) ((diff column).map (Option.map clip)), ∀ q ∈ y, 0 ≤ q := by
    apply (keeps_ge halpha halpha' 0).ewmKnown
    intro x hx q hq
    obtain ⟨d, -, rfl⟩ := List.mem_map.mp hx
    obtain ⟨d, -, rfl⟩ := Option.map_eq_some_iff.mp hq
    exact hclip d
  obtain ⟨i, hi⟩ := List.mem_iff_getElem?.mp h
  simp only [rsi, List.getElem?_zipWith_eq_some] at hi
  obtain ⟨avgGain, avgLoss, hgain, hloss, hcell⟩ := hi
  have hgain := hclipped _ (fun d ↦ le_max_left 0 d) avgGain (List.mem_of_getElem? hgain)
  have hloss := hclipped _ (fun d ↦ le_max_left 0 (-d)) avgLoss (List.mem_of_getElem? hloss)
  cases avgGain with
  | none => cases hcell
  | some avgGain =>
    cases avgLoss with
    | none => cases hcell
    | some avgLoss => exact rsiOf_mem_Icc (hgain avgGain rfl) (hloss avgLoss rfl) hcell

theorem trueRange_nonneg (bar : Bar) (prevClose : Option ℚ) : 0 ≤ trueRange bar prevClose := by
  cases prevClose with
  | none => exact abs_nonneg _
  | some prevClose => exact le_max_of_le_left (abs_nonneg _)

theorem atr_nonneg {window : ℕ} (hwindow : 0 < window) {df : List Bar} :
    ∀ y ∈ atr window df, 0 ≤ y := by
  obtain ⟨halpha, halpha'⟩ := one_div_mem_Icc hwindow
  apply (keeps_ge halpha halpha' 0).ewmMean
  intro x hx
  obtain ⟨i, hi⟩ := List.mem_iff_getElem?.mp hx
  obtain ⟨bar, prevClose, -, -, rfl⟩ := List.getElem?_zipWith_eq_some.mp hi
  exact trueRange_nonneg bar prevClose

theorem ema_mem_Icc {span : ℕ} (hspan : 0 < span) (h : ∀ x ∈ column, lo ≤ x ∧ x ≤ hi) :
    ∀ y ∈ ema span column, lo ≤ y ∧ y ≤ hi := by
  have hone : (1 : ℚ) ≤ span := by exact_mod_cast hspan
  refine (keeps_Icc ?_ ?_ lo hi).ewmMean h
  · positivity
  · rw [div_le_one (by linarith)]
    linarith

theorem rolling_mem {β : Type} {window : ℕ} (hwindow : 0 < window) {g : List ℚ → β} {y : β}
    {i : ℕ} (h : (rolling window g column)[i]? = some (some y)) :
    ∃ values : List ℚ, values ≠ [] ∧ (∀ x ∈ values, x ∈ column) ∧ y = g values ∧ window ≤ i + 1 := by
  rw [getElem?_rolling] at h
  split at h
  · next hi =>
    split at h
    · cases h
    · next hw =>
      refine ⟨(column.take (i + 1)).drop (i + 1 - window), ?_, ?_, ?_, by omega⟩
      · rw [← List.length_pos_iff, List.length_drop, List.length_take]
        omega
      · intro x hx
        exact List.mem_of_mem_take (List.mem_of_mem_drop hx)
      · exact (Option.some.inj (Option.some.inj h)).symm
  · cases h

/-- What the figures of a row say, where the closes up to its day are between two prices. -/
structure IndicatorRow.Within (r : IndicatorRow) (lo hi : ℚ) : Prop where
  sma20 : ∀ m ∈ r.sma20, lo ≤ m ∧ m ≤ hi
  ema20 : lo ≤ r.ema20 ∧ r.ema20 ≤ hi
  rsi14 : ∀ q, r.rsi14 = .val q → 0 ≤ q ∧ q ≤ 100
  atr14 : 0 ≤ r.atr14
  bands : ∀ b ∈ r.bb, b.lower ≤ b.middle ∧ b.middle ≤ b.upper ∧ lo ≤ b.middle ∧ b.middle ≤ hi
  macdLine : |r.macd.line| ≤ hi - lo
  histogram : r.macd.histogram = r.macd.line - r.macd.signal

theorem within_of_closes {sqrt : ℚ → ℚ} (hsqrt : ∀ q, 0 ≤ sqrt q) {df : List Bar} {i : ℕ}
    {r : IndicatorRow} (hrow : (withIndicators sqrt df)[i]? = some r)
    (hcloses : ∀ x ∈ closes df, lo ≤ x ∧ x ≤ hi) : r.Within lo hi := by
  obtain ⟨-, hsma, hema, hrsi, hatr, hbb, hmacd⟩ := getElem?_withIndicators.mp hrow
  constructor
  · intro m hm
    rw [Option.mem_def.mp hm] at hsma
    obtain ⟨values, hne, hmem, rfl, -⟩ := rolling_mem (by norm_num) hsma
    exact mean_mem_Icc hne fun x hx ↦ hcloses x (hmem x hx)
  · exact ema_mem_Icc (by norm_num) hcloses r.ema20 (List.mem_of_getElem? hema)
  · intro q hq
    rw [hq] at hrsi
    exact rsi_mem_Icc (by norm_num) (List.mem_of_getElem? hrsi)
  · exact atr_nonneg (by norm_num) r.atr14 (List.mem_of_getElem? hatr)
  · intro b hb
    rw [Option.mem_def.mp hb] at hbb
    obtain ⟨values, hne, hmem, rfl, -⟩ := rolling_mem (by norm_num) hbb
    have hstd := hsqrt (variance values)
    have hmiddle := mean_mem_Icc hne fun x hx ↦ hcloses x (hmem x hx)
    simp only [bandOf]
    exact ⟨by linarith, by linarith, hmiddle⟩
  · simp only [macd, List.getElem?_zipWith_eq_some] at hmacd
    obtain ⟨line, signal, ⟨fast, slow, hfast, hslow, rfl⟩, -, hr⟩ := hmacd
    have hfast := ema_mem_Icc (by norm_num) hcloses fast (List.mem_of_getElem? hfast)
    have hslow := ema_mem_Icc (by norm_num) hcloses slow (List.mem_of_getElem? hslow)
    rw [← hr, abs_le]
    constructor
    · linarith
    · linarith
  · simp only [macd, List.getElem?_zipWith_eq_some] at hmacd
    obtain ⟨line, signal, -, -, hr⟩ := hmacd
    rw [← hr]

/-- The figures of a row keep their bounds by the closes up to its day alone, and a row has an
average of twenty closes exactly from the twentieth on. -/
theorem withIndicators_within {sqrt : ℚ → ℚ} (hsqrt : ∀ q, 0 ≤ sqrt q) {df : List Bar} {i : ℕ}
    {r : IndicatorRow} (hrow : (withIndicators sqrt df)[i]? = some r)
    (hcloses : ∀ x ∈ closes (df.take (i + 1)), lo ≤ x ∧ x ≤ hi) :
    r.Within lo hi ∧ (r.sma20 = none ↔ i + 1 < 20) ∧ (r.bb = none ↔ i + 1 < 20) := by
  have hrow' : (withIndicators sqrt (df.take (i + 1)))[i]? = some r := by
    rw [(causal_withIndicators sqrt).take_eq, List.getElem?_take_of_lt (Nat.lt_succ_self i), hrow]
  refine ⟨within_of_closes hsqrt hrow' hcloses, ?_⟩
  obtain ⟨-, hsma, -, -, -, hbb, -⟩ := getElem?_withIndicators.mp hrow
  have hnull {β : Type} {g : List ℚ → β} {y : Option β}
      (h : (rolling 20 g (closes df))[i]? = some y) : y = none ↔ i + 1 < 20 := by
    rw [getElem?_rolling] at h
    split at h
    · have hy := Option.some.inj h
      split at hy
      · next hlt => exact iff_of_true hy.symm hlt
      · next hge => exact iff_of_false (by simp [← hy]) hge
    · cases h
  exact ⟨hnull hsma, hnull hbb⟩

def twoBars : List Bar :=
  [⟨"INFY", 1, ⟨100, 101, 99, 100, 1000⟩⟩, ⟨"INFY", 2, ⟨100, 103, 101, 102, 1000⟩⟩]

theorem withIndicators_within_twoBars :
    let r : IndicatorRow := ⟨⟨"INFY", 2, ⟨100, 103, 101, 102, 1000⟩⟩, none, 2104 / 21, .val 100,
      29 / 14, none, ⟨56 / 351, 56 / 1755, 224 / 1755⟩⟩
    r.Within 100 102 ∧ (r.sma20 = none ↔ 1 + 1 < 20) ∧ (r.bb = none ↔ 1 + 1 < 20) := by
  intro r
  have hrow : (withIndicators (fun _ ↦ 0) twoBars)[1]? = some r := by decide +kernel
  exact withIndicators_within (fun _ ↦ le_refl 0) hrow (by decide +kernel)

end Bounds

section Endpoint

variable {engine : Engine ℤ Ohlcv} {s : Lake ℤ (ℤ × ℤ) Ohlcv} {symbol : String} {start : Option ℤ}

theorem readSymbol_stop (hdays : ((DataLake.readSymbol engine s symbol start none).map Row.time).Nodup)
    (stop : ℤ) : DataLake.readSymbol engine s symbol start (some stop) =
      (DataLake.readSymbol engine s symbol start none).filter (·.time ≤ stop) := by
  simp only [DataLake.readSymbol, Lake.readSymbol] at hdays ⊢
  generalize (s.files.rows.filter fun file ↦ engine.glob symbol file.1.1).flatMap Prod.snd = base
    at hdays ⊢
  have hlt : (engine.orderBy.sort (base.filter fun r ↦ withinDays (start, none) r.time)).Pairwise
      (·.time < ·.time) := by
    apply engine.orderBy.pairwise_lt_sort
    exact ((engine.orderBy.perm _).map Row.time).nodup_iff.mp hdays
  have hcut : (base.filter fun r ↦ withinDays (start, some stop) r.time).Perm
      ((engine.orderBy.sort (base.filter fun r ↦ withinDays (start, none) r.time)).filter
        (·.time ≤ stop)) := by
    refine List.Perm.trans ?_ ((engine.orderBy.perm _).filter _).symm
    rw [List.filter_filter]
    apply List.Perm.of_eq
    apply List.filter_congr
    intro r _
    simp [withinDays, Bool.and_comm]
  have hltStop := engine.orderBy.pairwise_lt_sort
    (((hcut.map Row.time).nodup_iff).mpr (hdays.sublist (List.filter_sublist.map Row.time)))
  refine List.Perm.eq_of_pairwise (fun r r' _ _ hr hr' ↦ ?_) hltStop (hlt.filter _)
    ((engine.orderBy.perm _).trans hcut)
  exact absurd hr' (lt_asymm hr)

/-- No figure of a day looks ahead: asked up to an earlier day, the endpoint answers the same rows up
to that day. -/
theorem getOhlcvIndicators_stop (sqrt : ℚ → ℚ)
    (hdays : ((DataLake.readSymbol engine s symbol start none).map Row.time).Nodup) (stop : ℤ) :
    getOhlcvIndicators sqrt engine s symbol start (some stop) =
      (getOhlcvIndicators sqrt engine s symbol start none).filter (·.bar.time ≤ stop) := by
  have hlt : (DataLake.readSymbol engine s symbol start none).Pairwise (·.time < ·.time) := by
    apply engine.orderBy.pairwise_lt_sort
    exact ((engine.orderBy.perm _).map Row.time).nodup_iff.mp hdays
  rw [getOhlcvIndicators, getOhlcvIndicators, readSymbol_stop hdays]
  generalize DataLake.readSymbol engine s symbol start none = df at hlt
  have hbars := map_bar_withIndicators sqrt df
  have hrows : (withIndicators sqrt df).Pairwise fun r r' ↦ r.bar.time < r'.bar.time := by
    rw [← hbars] at hlt
    exact (List.pairwise_map (f := IndicatorRow.bar)).mp hlt
  have hcount : (withIndicators sqrt df).countP (·.bar.time ≤ stop) =
      df.countP (·.time ≤ stop) := by
    conv_rhs => rw [← hbars]
    rw [List.countP_map]
    rfl
  rw [filter_le_eq_take hlt, filter_le_eq_take hrows, (causal_withIndicators sqrt).take_eq, hcount]

theorem getOhlcvIndicators_stop_twoBars :
    let engine : Engine ℤ Ohlcv := ⟨.insertion _, .insertion _, fun symbol name ↦ symbol == name⟩
    let s := ParquetLakeWriter.write engine .empty twoBars
    getOhlcvIndicators (fun _ ↦ 0) engine s "INFY" none (some 1) =
      (getOhlcvIndicators (fun _ ↦ 0) engine s "INFY" none none).filter (·.bar.time ≤ 1) :=
  getOhlcvIndicators_stop _ (by decide +kernel) 1

end Endpoint

end TradingOS.Data.Indicators
