import Mathlib.Tactic.IntervalCases
import TradingOS.Data.Bhavcopy
import TradingOS.Data.DateOffset
import TradingOS.Lib.Document
import TradingOS.Lib.Table
import TradingOS.Lib.Words

namespace TradingOS.Data

open Lib

namespace Date

/-- `date(year, month, day)` for a month from 1 to 12. -/
def ofParts (year month day : ℤ) : Option ℤ :=
  let d := monthStart (12 * year + month - 1) + day - 1
  if 1 ≤ day ∧ d < monthStart (12 * year + month) then some d else none

theorem ofParts_year_month_day (d : ℤ) : ofParts (year d) (month d) (day d) = some d := by
  have hindex : 12 * year d + month d = monthIndex d + 1 := by
    rw [monthIndex]
    omega
  simp only [ofParts, hindex, add_sub_cancel_right, monthStart_add_day]
  exact if_pos ⟨one_le_day d, lt_monthStart d⟩

theorem month_bounds (d : ℤ) : 1 ≤ month d ∧ month d ≤ 12 := by
  have hday := yearDay_bounds d
  unfold month
  simp only
  split <;> omega

theorem day_le (d : ℤ) : day d ≤ 31 := by
  have hday := yearDay_bounds d
  unfold day
  omega

end Date

/-- How Python reads texts: digits, a cell stripped and in upper case, and what `float` and `_num`
make of a cell. -/
structure Texts extends Digits where
  upper : String → String
  float : String → Option Number
  num : Option String → ℚ

/-- `_MONTHS`, in order. -/
def months : List String :=
  ["JAN", "FEB", "MAR", "APR", "MAY", "JUN", "JUL", "AUG", "SEP", "OCT", "NOV", "DEC"]

def monthText (d : ℤ) : String := months.getD ((Date.month d).toNat - 1) ""

def OptionType.text : OptionType → String
  | CE => "CE"
  | PE => "PE"

namespace FoContract

variable (T : Texts)

/-- `[A-Z][A-Z0-9&\-]*`. -/
def isUnderlying : List Char → Bool
  | [] => false
  | c :: cs => c.isUpper && cs.all fun c ↦ c.isUpper || c.isDigit || c = '&' || c = '-'

def optionTypeOf (w : List Char) : Option OptionType :=
  if w = ['C', 'E'] then some .CE else if w = ['P', 'E'] then some .PE else none

/-- `\d{2}`. -/
def twoDigits (w : List Char) : Option ℕ :=
  if w.length = 2 ∧ w.all T.isDigit then some (T.value w) else none

def monthOf (w : List Char) : Option ℕ :=
  if String.ofList w ∈ months then some (months.idxOf (String.ofList w) + 1) else none

def expiryOf (day month year : List Char) : Option ℤ := do
  let day ← twoDigits T day
  let month ← monthOf month
  let year ← twoDigits T year
  Date.ofParts (2000 + year) month day

/-- `parse_fo_symbol`: white space parts the pattern's pieces, and none of them has any. -/
def parseFoSymbol (symbol : String) : Option FoContract :=
  match words isSpace symbol.toList with
  | [underlying, strike, opt, day, month, year] => do
    if !isUnderlying underlying then none
    let strike ← T.decimal strike
    let opt ← optionTypeOf opt
    let expiry ← expiryOf T day month year
    return ⟨String.ofList underlying, expiry, some opt, some strike⟩
  | [underlying, future, day, month, year] => do
    if !isUnderlying underlying then none
    if future ≠ ['F', 'U', 'T'] then none
    let expiry ← expiryOf T day month year
    return ⟨String.ofList underlying, expiry, none, none⟩
  | _ => none

end FoContract

/-- An option, and its symbol for a numeral of its strike. -/
structure OptionContract where
  underlying : String
  expiry : ℤ
  optionType : OptionType
  strike : ℚ

namespace OptionContract

variable (c : OptionContract)

def toFoContract : FoContract := ⟨c.underlying, c.expiry, some c.optionType, some c.strike⟩

def symbolWords (strike : Numeral) : List (List Char) :=
  [c.underlying.toList, strike.text, c.optionType.text.toList,
    digitText (digitsOf 2 (Date.day c.expiry).toNat), (monthText c.expiry).toList,
    digitText (digitsOf 2 (Date.year c.expiry % 100).toNat)]

def symbol (strike : Numeral) : String :=
  String.ofList ([' '].intercalate (c.symbolWords strike))

/-- The contracts that the pattern and its two-digit year can name. -/
structure Nameable : Prop where
  underlying : FoContract.isUnderlying c.underlying.toList
  year : 2000 ≤ Date.year c.expiry ∧ Date.year c.expiry < 2100

end OptionContract

section Symbols

variable {T : Texts} {c : OptionContract} {w : List Char}

theorem isSpace_of_mem_digitText {ds : List (Fin 10)} {c : Char} (h : c ∈ digitText ds) :
    isSpace c = false := isSpace_of_isDigit (Lib.isDigit_of_mem_digitText h)

theorem isSpace_of_mem_underlying (h : FoContract.isUnderlying w) {c : Char} (hc : c ∈ w) :
    isSpace c = false := by
  cases w with
  | nil => cases hc
  | cons first rest =>
    obtain ⟨hfirst, hrest⟩ := Bool.and_eq_true_iff.mp h
    rcases List.mem_cons.mp hc with rfl | hc
    · exact isSpace_of_isUpper hfirst
    · have hclass := List.all_eq_true.mp hrest c hc
      simp only [Bool.or_eq_true, decide_eq_true_eq] at hclass
      rcases hclass with ((hupper | hdigit) | rfl) | rfl
      · exact isSpace_of_isUpper hupper
      · exact isSpace_of_isDigit hdigit
      · rfl
      · rfl

theorem monthOf_monthText (d : ℤ) :
    FoContract.monthOf (monthText d).toList = some (Date.month d).toNat := by
  obtain ⟨hlow, hhigh⟩ := Date.month_bounds d
  rw [monthText]
  generalize Date.month d = m at *
  interval_cases m <;> rfl

theorem twoDigits_digitText (n : ℕ) :
    FoContract.twoDigits T (digitText (digitsOf 2 n)) = some (n % 100) := by
  have hlength : (digitText (digitsOf 2 n)).length = 2 := by
    rw [digitText, List.length_map, length_digitsOf]
  have hall : (digitText (digitsOf 2 n)).all T.isDigit :=
    List.all_eq_true.mpr fun _ ↦ Digits.isDigit_of_mem_digitText
  rw [FoContract.twoDigits, if_pos ⟨hlength, hall⟩, Digits.value_digitText, digitsValue_digitsOf]
  rfl

theorem expiryOf_text {d : ℤ} (h : 2000 ≤ Date.year d ∧ Date.year d < 2100) :
    FoContract.expiryOf T (digitText (digitsOf 2 (Date.day d).toNat)) (monthText d).toList
      (digitText (digitsOf 2 (Date.year d % 100).toNat)) = some d := by
  have hday : (((Date.day d).toNat % 100 : ℕ) : ℤ) = Date.day d := by
    have hlow := Date.one_le_day d
    have hhigh := Date.day_le d
    omega
  have hmonth : ((Date.month d).toNat : ℤ) = Date.month d := by
    have hlow := Date.month_bounds d
    omega
  have hyear : 2000 + (((Date.year d % 100).toNat % 100 : ℕ) : ℤ) = Date.year d := by omega
  rw [FoContract.expiryOf, twoDigits_digitText, monthOf_monthText, twoDigits_digitText]
  simp only [Option.bind_eq_bind, Option.bind_some]
  rw [hday, hmonth, hyear, Date.ofParts_year_month_day]

theorem isSpace_of_mem_monthText {d : ℤ} {c : Char} (h : c ∈ (monthText d).toList) :
    isSpace c = false := by
  obtain ⟨hlow, hhigh⟩ := Date.month_bounds d
  rw [monthText] at h
  generalize Date.month d = m at *
  have hall : ∀ m < 12, ((months.getD m "").toList.all fun c ↦ !isSpace c) := by decide
  simpa using List.all_eq_true.mp (hall (m.toNat - 1) (by omega)) c h

theorem isSpace_of_mem_numeral {n : Numeral} {c : Char} (h : c ∈ n.text) : isSpace c = false := by
  rw [Numeral.text, PyFloat.fractionText] at h
  rcases List.mem_append.mp h with h | h
  · exact isSpace_of_mem_digitText h
  · split at h
    · cases h
    · rcases List.mem_cons.mp h with rfl | h
      · rfl
      · exact isSpace_of_mem_digitText h

theorem words_symbol (h : c.Nameable) (strike : Numeral) :
    words isSpace (c.symbol strike).toList = c.symbolWords strike := by
  rw [OptionContract.symbol, String.toList_ofList]
  have hdigits (n : ℕ) : digitText (digitsOf 2 n) ≠ [] ∧
      ∀ x ∈ digitText (digitsOf 2 n), isSpace x = false := by
    refine ⟨fun hnil ↦ ?_, fun _ ↦ isSpace_of_mem_digitText⟩
    simpa [digitText] using congrArg List.length hnil
  refine words_intercalate rfl ?_
  rw [OptionContract.symbolWords]
  simp only [List.forall_mem_cons, List.not_mem_nil, false_imp_iff, implies_true, and_true]
  refine ⟨⟨?_, fun _ ↦ isSpace_of_mem_underlying h.underlying⟩,
    ⟨?_, fun _ ↦ isSpace_of_mem_numeral⟩, ?_, hdigits _,
    ⟨?_, fun _ ↦ isSpace_of_mem_monthText⟩, hdigits _⟩
  · intro hnil
    have hunderlying := h.underlying
    rw [hnil] at hunderlying
    cases hunderlying
  · rw [Numeral.text]
    simp [digitText, strike.whole_ne_nil]
  · have hall : c.optionType.text.toList.all fun x ↦ !isSpace x := by
      cases c.optionType <;> rfl
    refine ⟨?_, fun x hx ↦ by simpa using List.all_eq_true.mp hall x hx⟩
    cases c.optionType <;> exact List.cons_ne_nil _ _
  · intro hnil
    have hmonth := monthOf_monthText c.expiry
    rw [hnil] at hmonth
    cases hmonth

/-- The symbol of a contract is read as that contract. -/
theorem parseFoSymbol_symbol (h : c.Nameable) {strike : Numeral} (hstrike : strike.value = c.strike) :
    FoContract.parseFoSymbol T (c.symbol strike) = some c.toFoContract := by
  have hopt : FoContract.optionTypeOf c.optionType.text.toList = some c.optionType := by
    cases c.optionType <;> rfl
  rw [FoContract.parseFoSymbol, words_symbol h, OptionContract.symbolWords]
  simp only [h.underlying, Digits.decimal_text, hopt, expiryOf_text h.year]
  simp [OptionContract.toFoContract, hstrike]

end Symbols

/-- The columns of a layout that are read. -/
structure FoColumns where
  symbol : String
  expiry : String
  optionType : String
  strike : String
  openPrice : String
  high : String
  low : String
  close : String
  volume : String
  openInterest : String
  settle : String

def udiffColumns : FoColumns :=
  ⟨"TckrSymb", "XpryDt", "OptnTp", "StrkPric", "OpnPric", "HghPric", "LwPric", "ClsPric",
    "TtlTradgVol", "OpnIntrst", "SttlmPric"⟩

def legacyColumns : FoColumns :=
  ⟨"SYMBOL", "EXPIRY_DT", "OPTION_TYP", "STRIKE_PR", "OPEN", "HIGH", "LOW", "CLOSE", "CONTRACTS",
    "OPEN_INT", "SETTLE_PR"⟩

def foColumns (legacy : Bool) : FoColumns := if legacy then legacyColumns else udiffColumns

/-- A file as `_read_csv` gives it: each row has the cells that are not null. -/
structure DayFrame where
  columns : List String
  rows : List (Table String String)

/-- `strftime("%d-%b-%Y")` in upper case, or `isoformat`. -/
def expiryText (d : ℤ) (legacy : Bool) : String :=
  let day := digitText (digitsOf 2 (Date.day d).toNat)
  let year := digitText (digitsOf 4 (Date.year d).toNat)
  String.ofList <|
    if legacy then
      day ++ '-' :: ((monthText d).toList ++ '-' :: year)
    else year ++ '-' :: (digitText (digitsOf 2 (Date.month d).toNat) ++ '-' :: day)

section Dates

variable {d e : ℤ}

theorem month_eq_of_monthText (h : monthText d = monthText e) : Date.month d = Date.month e := by
  have hmonth := monthOf_monthText d
  rw [h, monthOf_monthText] at hmonth
  have hd := Date.month_bounds d
  have he := Date.month_bounds e
  have hnat := Option.some.inj hmonth
  omega

theorem length_monthText (d : ℤ) : (monthText d).toList.length = 3 := by
  obtain ⟨hlow, hhigh⟩ := Date.month_bounds d
  rw [monthText]
  generalize Date.month d = m at *
  interval_cases m <;> rfl

theorem eq_of_digitText {width m n : ℕ} (hm : m < 10 ^ width) (hn : n < 10 ^ width)
    (h : digitText (digitsOf width m) = digitText (digitsOf width n)) : m = n :=
  digitsOf_injective hm hn (digitText_injective h)

/-- In the four-digit years a date can be told from its text. -/
theorem expiryText_injective {legacy : Bool} (hd : 0 ≤ Date.year d ∧ Date.year d < 10000)
    (he : 0 ≤ Date.year e ∧ Date.year e < 10000) (h : expiryText d legacy = expiryText e legacy) :
    d = e := by
  have hlength (width m n : ℕ) :
      (digitText (digitsOf width m)).length = (digitText (digitsOf width n)).length := by
    simp [digitText]
  have hyears (hyear : digitText (digitsOf 4 (Date.year d).toNat) =
      digitText (digitsOf 4 (Date.year e).toNat)) : Date.year d = Date.year e := by
    have hnat := eq_of_digitText (by omega) (by omega) hyear
    omega
  have hdays (hday : digitText (digitsOf 2 (Date.day d).toNat) =
      digitText (digitsOf 2 (Date.day e).toNat)) : Date.day d = Date.day e := by
    have hd' := Date.one_le_day d
    have he' := Date.one_le_day e
    have hd'' := Date.day_le d
    have he'' := Date.day_le e
    have hnat := eq_of_digitText (by omega) (by omega) hday
    omega
  have hparts : Date.year d = Date.year e ∧ Date.month d = Date.month e ∧
      Date.day d = Date.day e := by
    have hlist := String.ofList_injective h
    cases legacy with
    | true =>
      obtain ⟨hday, hrest⟩ := List.append_inj hlist (hlength 2 _ _)
      obtain ⟨hmonth, hyear⟩ := List.append_inj (List.cons.inj hrest).2
        ((length_monthText d).trans (length_monthText e).symm)
      exact ⟨hyears (List.cons.inj hyear).2, month_eq_of_monthText (String.toList_inj.mp hmonth),
        hdays hday⟩
    | false =>
      obtain ⟨hyear, hrest⟩ := List.append_inj hlist (hlength 4 _ _)
      obtain ⟨hmonth, hday⟩ := List.append_inj (List.cons.inj hrest).2 (hlength 2 _ _)
      have hd' := Date.month_bounds d
      have he' := Date.month_bounds e
      have hnat := eq_of_digitText (by omega) (by omega) hmonth
      exact ⟨hyears hyear, by omega, hdays (List.cons.inj hday).2⟩
  have hsame := Date.ofParts_year_month_day d
  rw [hparts.1, hparts.2.1, hparts.2.2, Date.ofParts_year_month_day] at hsame
  exact (Option.some.inj hsame).symm

end Dates

namespace NseFoBhavcopy

variable (T : Texts) (legacy : Bool) (contract : FoContract)

/-- The filter of the frame: a null cell equals nothing. -/
def inSeries (row : Table String String) : Bool :=
  (row.get? (foColumns legacy).symbol).map T.upper = some contract.underlying ∧
    (row.get? (foColumns legacy).expiry).map T.upper = some (expiryText contract.expiry legacy)

def optionCell (row : Table String String) : String :=
  T.upper ((row.get? (foColumns legacy).optionType).getD "")

/-- The strike of a row, where it can be read. -/
def strikeOf (row : Table String String) : Option Number :=
  T.float ((row.get? (foColumns legacy).strike).getD "")

/-- A strike matches one less than half a rupee away. -/
def near (strike : Option ℚ) : Option Number → Bool
  | some (.finite x) => |x - strike.getD 0| < 1 / 2
  | _ => false

def isOf (row : Table String String) : Bool :=
  match contract.optionType with
  | none => optionCell T legacy row ∈ ["", "XX"]
  | some opt => optionCell T legacy row = opt.text ∧ near contract.strike (strikeOf T legacy row)

def matchContract (frame : DayFrame) : Except Raised (List (Table String String)) :=
  if (foColumns legacy).symbol ∈ frame.columns ∧ (foColumns legacy).expiry ∈ frame.columns then
    .ok ((frame.rows.filter (inSeries T legacy contract)).filter (isOf T legacy contract))
  else .error (.provider .invalidData)

/-- The numbers of a row, as `_num` reads them. -/
def numbersOf (row : Table String String) : FoRow where
  openPrice := T.num (row.get? (foColumns legacy).openPrice)
  high := T.num (row.get? (foColumns legacy).high)
  low := T.num (row.get? (foColumns legacy).low)
  close := T.num (row.get? (foColumns legacy).close)
  settle := T.num (row.get? (foColumns legacy).settle)
  volume := T.num (row.get? (foColumns legacy).volume)
  openInterest := T.num (row.get? (foColumns legacy).openInterest)

/-- The row of a file that `_row_for_day` returns. -/
def selectRow (frame : DayFrame) : Except Raised (Option (Table String String)) :=
  (matchContract T legacy contract frame).map
    (List.find? fun row ↦ (numbersOf T legacy row).yieldsACandle)

/-- The readers that the provider has. -/
def foReader (readCsv : String → DayFrame) : FoReader where
  parseFoSymbol := FoContract.parseFoSymbol T
  matchContract text contract legacy :=
    (matchContract T legacy contract (readCsv text)).map (List.map (numbersOf T legacy))

/-- A row has the underlying, the expiry and the type of an option. -/
structure OfSeries (c : OptionContract) (row : Table String String) : Prop where
  underlying : (row.get? (foColumns legacy).symbol).map T.upper = some c.underlying
  expiry : (row.get? (foColumns legacy).expiry).map T.upper = some (expiryText c.expiry legacy)
  optionType : optionCell T legacy row = c.optionType.text

def HasStrike (row : Table String String) (x : ℚ) : Prop := strikeOf T legacy row = some (.finite x)

/-- The two columns that the frame is filtered by. -/
def HasColumns (frame : DayFrame) : Prop :=
  (foColumns legacy).symbol ∈ frame.columns ∧ (foColumns legacy).expiry ∈ frame.columns

/-- What the row selected for an option is: of its series, and of its strike too where no other
strike of the series is nearer than half a rupee; and there is one if a row of the option is
charted. -/
structure Selects (frame : DayFrame) (c : OptionContract)
    (result : Except Raised (Option (Table String String))) : Prop where
  missing : result = .error (.provider .invalidData) ↔ ¬ HasColumns legacy frame
  series : ∀ row, result = .ok (some row) → row ∈ frame.rows ∧ OfSeries T legacy c row ∧
    (numbersOf T legacy row).yieldsACandle
  strike : ∀ row, result = .ok (some row) → (∀ other ∈ frame.rows, OfSeries T legacy c other →
    ∀ x, HasStrike T legacy other x → |x - c.strike| < 1 / 2 → x = c.strike) →
    HasStrike T legacy row c.strike
  found : HasColumns legacy frame → (∃ row ∈ frame.rows, OfSeries T legacy c row ∧
    HasStrike T legacy row c.strike ∧ (numbersOf T legacy row).yieldsACandle) →
    ∃ row, result = .ok (some row)

section Selection

variable {T legacy contract} {c : OptionContract} {row : Table String String} {frame : DayFrame}

theorem near_iff {k : ℚ} {strike : Option Number} :
    near (some k) strike ↔ ∃ x, strike = some (.finite x) ∧ |x - k| < 1 / 2 := by
  cases strike with
  | none => simp [near]
  | some x => cases x <;> simp [near]

/-- The two filters leave the rows of the series whose strike is near. -/
theorem matches_iff : inSeries T legacy c.toFoContract row ∧ isOf T legacy c.toFoContract row ↔
    OfSeries T legacy c row ∧ ∃ x, HasStrike T legacy row x ∧ |x - c.strike| < 1 / 2 := by
  have hseries : inSeries T legacy c.toFoContract row ↔
      (row.get? (foColumns legacy).symbol).map T.upper = some c.underlying ∧
        (row.get? (foColumns legacy).expiry).map T.upper = some (expiryText c.expiry legacy) :=
    decide_eq_true_iff
  have hisOf : isOf T legacy c.toFoContract row ↔ optionCell T legacy row = c.optionType.text ∧
      near (some c.strike) (strikeOf T legacy row) := decide_eq_true_iff
  rw [hseries, hisOf, near_iff]
  constructor
  · rintro ⟨⟨hunderlying, hexpiry⟩, hopt, hnear⟩
    exact ⟨⟨hunderlying, hexpiry, hopt⟩, hnear⟩
  · rintro ⟨⟨hunderlying, hexpiry, hopt⟩, hnear⟩
    exact ⟨⟨hunderlying, hexpiry⟩, hopt, hnear⟩

theorem mem_candidates {candidates : List (Table String String)}
    (h : matchContract T legacy c.toFoContract frame = .ok candidates) :
    row ∈ candidates ↔ row ∈ frame.rows ∧ OfSeries T legacy c row ∧
      ∃ x, HasStrike T legacy row x ∧ |x - c.strike| < 1 / 2 := by
  rw [matchContract] at h
  split at h
  · obtain rfl := Except.ok.inj h
    rw [List.mem_filter, List.mem_filter, and_assoc, matches_iff]
  · cases h

theorem selects_selectRow (frame : DayFrame) (c : OptionContract) :
    Selects T legacy frame c (selectRow T legacy c.toFoContract frame) := by
  rw [selectRow]
  by_cases hcolumns : HasColumns legacy frame
  · obtain ⟨candidates, hmatch⟩ : ∃ candidates,
        matchContract T legacy c.toFoContract frame = .ok candidates := ⟨_, if_pos hcolumns⟩
    rw [hmatch]
    have hfind {row : Table String String} (h : Except.map (List.find? fun row ↦
        (numbersOf T legacy row).yieldsACandle) (.ok candidates : Except Raised _) =
          .ok (some row)) : (row ∈ frame.rows ∧ OfSeries T legacy c row ∧
        ∃ x, HasStrike T legacy row x ∧ |x - c.strike| < 1 / 2) ∧
        (numbersOf T legacy row).yieldsACandle := by
      have hsome := Except.ok.inj h
      exact ⟨(mem_candidates hmatch).mp (List.mem_of_find?_eq_some hsome),
        List.find?_some (p := fun row ↦ (numbersOf T legacy row).yieldsACandle) hsome⟩
    refine ⟨iff_of_false (fun h ↦ by cases h) (not_not.mpr hcolumns), fun row h ↦ ?_,
      fun row h hclear ↦ ?_, fun _ hexists ↦ ?_⟩
    · obtain ⟨⟨hrow, hseries, -⟩, hcandle⟩ := hfind h
      exact ⟨hrow, hseries, hcandle⟩
    · obtain ⟨⟨hrow, hseries, x, hx, hnear⟩, -⟩ := hfind h
      rwa [hclear row hrow hseries x hx hnear] at hx
    · obtain ⟨row, hrow, hseries, hstrike, hcandle⟩ := hexists
      have hmem : row ∈ candidates :=
        (mem_candidates hmatch).mpr ⟨hrow, hseries, c.strike, hstrike, by norm_num⟩
      have hsome : (candidates.find? fun row ↦ (numbersOf T legacy row).yieldsACandle).isSome :=
        List.find?_isSome.mpr ⟨row, hmem, hcandle⟩
      obtain ⟨found, hfound⟩ := Option.isSome_iff_exists.mp hsome
      exact ⟨found, congrArg Except.ok hfound⟩
  · have hmatch : matchContract T legacy c.toFoContract frame = .error (.provider .invalidData) :=
      if_neg hcolumns
    rw [hmatch]
    refine ⟨iff_of_true rfl hcolumns, fun row h ↦ ?_, fun row h ↦ ?_, fun h ↦ absurd h hcolumns⟩
    · cases h
    · cases h

/-- `_row_for_day` as the cache and the archive feed it. -/
theorem rowForDay_foReader (readCsv : String → DayFrame) (archive : Archive) (time : ℤ)
    (cache : Cache) (day : ℤ) :
    (rowForDay (foReader T readCsv) archive time contract cache day).2 =
      ((loadDay archive time cache day).2 >>= fun text ↦ match text with
        | none => .ok none
        | some text => (selectRow T (day < udiffStart) contract (readCsv text)).map
            (Option.map (numbersOf T (day < udiffStart)))) := by
  rw [rowForDay]
  cases (loadDay archive time cache day).2 with
  | error raised => rfl
  | ok text =>
    cases text with
    | none => rfl
    | some text =>
      change (matchContract T (day < udiffStart) contract (readCsv text)).map
        (List.map (numbersOf T (day < udiffStart))) >>= _ = Except.map _ (selectRow ..)
      rw [selectRow]
      cases matchContract T (day < udiffStart) contract (readCsv text) with
      | error raised => rfl
      | ok candidates => exact congrArg Except.ok List.find?_map

end Selection

/-- For every contract that a symbol can name: its symbol, with any numeral of its strike, is read
as the contract; no other date has the text its expiry is looked up by; and every day's file gives
a row of its series, of its strike where none is nearer than half a rupee, and gives one if a row
of the contract is charted. -/
theorem parses_and_selects (T : Texts) (c : OptionContract) (hc : c.Nameable) :
    (∀ strike : Numeral, strike.value = c.strike →
      FoContract.parseFoSymbol T (c.symbol strike) = some c.toFoContract) ∧
    ((∃ strike : Numeral, strike.value = c.strike) ↔ ∃ width m : ℕ, c.strike = m / 10 ^ width) ∧
    (∀ day d, 0 ≤ Date.year d ∧ Date.year d < 10000 →
      expiryText d (day < udiffStart) = expiryText c.expiry (day < udiffStart) → d = c.expiry) ∧
    ∀ day frame, Selects T (day < udiffStart) frame c
      (selectRow T (day < udiffStart) c.toFoContract frame) := by
  have hyear : 0 ≤ Date.year c.expiry ∧ Date.year c.expiry < 10000 := by
    have hyear := hc.year
    omega
  exact ⟨fun _ ↦ parseFoSymbol_symbol hc, Numeral.exists_value_eq_iff,
    fun _ _ hd ↦ expiryText_injective hd hyear, fun _ frame ↦ selects_selectRow frame c⟩

end NseFoBhavcopy

namespace NseFoBhavcopy.Abc

/-- Texts in upper case and without spaces. -/
def texts : Texts where
  digit c := if c.isDigit then some (c.toNat - 48) else none
  ascii _ _ := rfl
  upper := id
  float s := if s = "100" then some (.finite 100) else
    if s = "100.25" then some (.finite (401 / 4)) else none
  num cell := if cell = some "5" then 5 else 0

/-- An option that expires on 24 September 2026. -/
def contract : OptionContract := ⟨"ABC", 20720, .CE, 100⟩

def row (strike settle : String) : Table String String where
  rows := [("TckrSymb", "ABC"), ("XpryDt", "2026-09-24"), ("OptnTp", "CE"), ("StrkPric", strike),
    ("SttlmPric", settle)]
  nodup := by simp

def frame (rows : List (Table String String)) : DayFrame :=
  ⟨["TckrSymb", "XpryDt", "OptnTp", "StrkPric", "SttlmPric"], rows⟩

def hundred : Numeral := ⟨digitsOf 3 100, [], List.cons_ne_nil _ _⟩

theorem nameable : contract.Nameable := ⟨by decide +kernel, by decide +kernel⟩

theorem parses : contract.symbol hundred = "ABC 100 CE 24 SEP 26" ∧
    FoContract.parseFoSymbol texts "ABC 100 CE 24 SEP 26" = some contract.toFoContract := by
  have hsymbol : contract.symbol hundred = "ABC 100 CE 24 SEP 26" := by decide +kernel
  have hwhole : digitsValue hundred.whole = 100 := digitsValue_digitsOf 3 100
  have hparse := (parses_and_selects texts contract nameable).1 hundred
    (by rw [Numeral.value, hwhole]; norm_num [hundred, digitsValue, contract])
  rw [hsymbol] at hparse
  exact ⟨hsymbol, hparse⟩

/-- The neighbour a quarter of a rupee away is taken for the option; a row without a price is not
taken at all; and neither an underlying with a leading digit nor a year a century on is read back. -/
theorem neighbour_selected :
    (selectRow texts false contract.toFoContract (frame [row "100.25" "5", row "100" "5"]) =
        .ok (some (row "100.25" "5")) ∧ ¬ HasStrike texts false (row "100.25" "5") contract.strike) ∧
      selectRow texts false contract.toFoContract (frame [row "100" "0"]) = .ok none ∧
      FoContract.parseFoSymbol texts ({ contract with underlying := "360ONE" }.symbol hundred) = none ∧
      FoContract.parseFoSymbol texts ({ contract with expiry := 57244 }.symbol hundred) =
        some contract.toFoContract := by
  have hneighbour : inSeries texts false contract.toFoContract (row "100.25" "5") ∧
      isOf texts false contract.toFoContract (row "100.25" "5") ∧
      (numbersOf texts false (row "100.25" "5")).yieldsACandle := by decide +kernel
  have hblank : (numbersOf texts false (row "100" "0")).yieldsACandle = false := by decide +kernel
  refine ⟨⟨?_, ?_⟩, ?_, ?_, ?_⟩
  · rw [selectRow, matchContract, if_pos (by decide)]
    simp [frame, List.filter_cons, Except.map, hneighbour]
  · intro h
    have hstrike : strikeOf texts false (row "100.25" "5") = some (.finite (401 / 4)) := rfl
    have hvalue := hstrike.symm.trans h
    simp [contract] at hvalue
    norm_num at hvalue
  · rw [selectRow, matchContract, if_pos (by decide)]
    simp [frame, List.filter_cons, Except.map, hblank]
  · decide +kernel
  · decide +kernel

end NseFoBhavcopy.Abc

end TradingOS.Data
