import Mathlib.Algebra.Field.Rat
import Mathlib.Tactic.FieldSimp
import TradingOS.Lib.JsonText

namespace TradingOS.Lib

section Spaces

/-- `str.isspace` of a character. -/
def isSpace (c : Char) : Bool :=
  let n := c.toNat
  9 ≤ n && n ≤ 13 || 28 ≤ n && n ≤ 32 || n = 0x85 || n = 0xa0 || n = 0x1680 ||
    0x2000 ≤ n && n ≤ 0x200a || n = 0x2028 || n = 0x2029 || n = 0x202f || n = 0x205f || n = 0x3000

theorem isSpace_eq_false {c : Char} (h : 33 ≤ c.toNat ∧ c.toNat < 128) : isSpace c = false := by
  simp only [isSpace, Bool.or_eq_false_iff, Bool.and_eq_false_iff, decide_eq_false_iff_not]
  omega

theorem isSpace_of_isUpper {c : Char} (h : c.isUpper) : isSpace c = false := by
  have hbounds : 'A'.val ≤ c.val ∧ c.val ≤ 'Z'.val := of_decide_eq_true h
  have hbounds : 65 ≤ c.toNat ∧ c.toNat ≤ 90 := hbounds
  exact isSpace_eq_false (by omega)

theorem isSpace_of_isDigit {c : Char} (h : c.isDigit) : isSpace c = false := by
  have hbounds : 48 ≤ c.toNat ∧ c.toNat ≤ 57 := by
    simpa [Char.isDigit, UInt32.le_iff_toNat_le] using h
  exact isSpace_eq_false (by omega)

/-- `str.strip()`. -/
def strip (l : List Char) : List Char :=
  ((l.dropWhile isSpace).reverse.dropWhile isSpace).reverse

end Spaces

section Words

variable {α : Type} (sep : α → Bool)

/-- `split()`: the runs between separators. -/
def words (l : List α) : List (List α) := (l.splitOnP sep).filter fun w ↦ !w.isEmpty

variable {sep} {c : α} {w : List α}

theorem words_append_cons (hc : sep c) (l l' : List α) :
    words sep (l ++ c :: l') = words sep l ++ words sep l' := by
  rw [words, List.splitOnP_append_cons l l' hc, List.filter_append]
  rfl

theorem words_eq_singleton (hne : w ≠ []) (h : ∀ x ∈ w, sep x = false) : words sep w = [w] := by
  rw [words, List.splitOnP_eq_singleton (by simpa using h)]
  simp [hne]

/-- Words that are joined by a separator are split again. -/
theorem words_intercalate (hc : sep c) {ws : List (List α)}
    (h : ∀ w ∈ ws, w ≠ [] ∧ ∀ x ∈ w, sep x = false) : words sep ([c].intercalate ws) = ws := by
  induction ws with
  | nil => rfl
  | cons w ws ih =>
    obtain ⟨⟨hne, hw⟩, hws⟩ := List.forall_mem_cons.mp h
    cases ws with
    | nil => simpa using words_eq_singleton hne hw
    | cons w' ws =>
      rw [List.intercalate_cons_cons, List.append_assoc, List.singleton_append,
        words_append_cons hc, words_eq_singleton hne hw, ih hws]
      rfl

end Words

section Digits

def digitsValue (ds : List (Fin 10)) : ℕ := ds.foldl (fun n d ↦ 10 * n + d.val) 0

theorem neZero_ten : NeZero 10 := ⟨by decide⟩

/-- The last digits of a number, `width` of them. -/
def digitsOf : ℕ → ℕ → List (Fin 10)
  | 0, _ => []
  | width + 1, n => digitsOf width (n / 10) ++ [@Fin.ofNat 10 neZero_ten n]

@[simp] theorem length_digitsOf (width n : ℕ) : (digitsOf width n).length = width := by
  induction width generalizing n with
  | zero => rfl
  | succ width ih => rw [digitsOf, List.length_append, ih, List.length_singleton]

theorem digitsValue_digitsOf (width n : ℕ) : digitsValue (digitsOf width n) = n % 10 ^ width := by
  induction width generalizing n with
  | zero => simp [digitsOf, digitsValue, Nat.mod_one]
  | succ width ih =>
    have hlast : digitsValue (digitsOf width (n / 10) ++ [@Fin.ofNat 10 neZero_ten n]) =
        10 * digitsValue (digitsOf width (n / 10)) + n % 10 := by
      simp [digitsValue]
    rw [digitsOf, hlast, ih, pow_succ', Nat.mod_mul, Nat.add_comm]

theorem digitsOf_injective {width m n : ℕ} (hm : m < 10 ^ width) (hn : n < 10 ^ width)
    (h : digitsOf width m = digitsOf width n) : m = n := by
  have hvalue := congrArg digitsValue h
  rwa [digitsValue_digitsOf, digitsValue_digitsOf, Nat.mod_eq_of_lt hm, Nat.mod_eq_of_lt hn]
    at hvalue

/-- A decimal numeral, the digits before and after its point. -/
structure Numeral where
  whole : List (Fin 10)
  fraction : List (Fin 10)
  whole_ne_nil : whole ≠ []

namespace Numeral

def text (n : Numeral) : List Char := digitText n.whole ++ PyFloat.fractionText n.fraction

def value (n : Numeral) : ℚ :=
  digitsValue n.whole + digitsValue n.fraction / 10 ^ n.fraction.length

/-- The numbers that have a numeral. -/
theorem exists_value_eq_iff {k : ℚ} :
    (∃ n : Numeral, n.value = k) ↔ ∃ width m : ℕ, k = m / 10 ^ width := by
  constructor
  · rintro ⟨n, rfl⟩
    refine ⟨n.fraction.length,
      digitsValue n.whole * 10 ^ n.fraction.length + digitsValue n.fraction, ?_⟩
    rw [value]
    push_cast
    field_simp
  · rintro ⟨width, m, rfl⟩
    have hlt : m / 10 ^ width < 10 ^ (m / 10 ^ width + 1) :=
      (Nat.lt_succ_self _).trans (Nat.lt_pow_self (by norm_num))
    refine ⟨⟨digitsOf (m / 10 ^ width + 1) (m / 10 ^ width), digitsOf width m, ?_⟩, ?_⟩
    · intro hnil
      simpa using congrArg List.length hnil
    · rw [value, digitsValue_digitsOf, digitsValue_digitsOf, length_digitsOf,
        Nat.mod_eq_of_lt hlt]
      have hsplit : (m : ℚ) = 10 ^ width * (m / 10 ^ width : ℕ) + (m % 10 ^ width : ℕ) := by
        exact_mod_cast (Nat.div_add_mod m (10 ^ width)).symm
      rw [hsplit]
      field_simp

end Numeral

end Digits

/-- How the digits of all scripts are read: those in ASCII as everywhere. -/
structure Digits where
  digit : Char → Option ℕ
  ascii : ∀ c, c.toNat < 128 → digit c = if c.isDigit then some (c.toNat - 48) else none

namespace Digits

variable (D : Digits)

def isDigit (c : Char) : Bool := (D.digit c).isSome

def value (w : List Char) : ℕ := w.foldl (fun n c ↦ 10 * n + (D.digit c).getD 0) 0

/-- What `\d+(?:\.\d+)?` matches, read as a number. -/
def decimal (w : List Char) : Option ℚ :=
  let whole := w.takeWhile D.isDigit
  if whole.isEmpty then none
  else
    match w.dropWhile D.isDigit with
    | [] => some (D.value whole)
    | '.' :: fraction =>
      if fraction.isEmpty || !fraction.all D.isDigit then none
      else some (D.value whole + D.value fraction / 10 ^ fraction.length)
    | _ => none

variable {D}

@[simp] theorem digit_digitChar (d : Fin 10) : D.digit (Nat.digitChar d.val) = some d.val := by
  have hchar : ∀ d : Fin 10, (Nat.digitChar d.val).toNat < 128 ∧
      (Nat.digitChar d.val).isDigit ∧ (Nat.digitChar d.val).toNat - 48 = d.val := by decide
  obtain ⟨hascii, hdigit, hvalue⟩ := hchar d
  rw [D.ascii _ hascii, if_pos hdigit, hvalue]

theorem isDigit_of_mem_digitText {ds : List (Fin 10)} {c : Char} (h : c ∈ digitText ds) :
    D.isDigit c := by
  obtain ⟨d, -, rfl⟩ := List.mem_map.mp h
  simp [isDigit]

theorem value_digitText (ds : List (Fin 10)) : D.value (digitText ds) = digitsValue ds := by
  rw [value, digitText, List.foldl_map, digitsValue]
  simp only [digit_digitChar, Option.getD_some]

theorem isDigit_point : D.isDigit '.' = false := by
  rw [isDigit, D.ascii _ (by decide)]
  rfl

/-- A numeral is read as its value. -/
theorem decimal_text (n : Numeral) : D.decimal n.text = some n.value := by
  have hwhole : ∀ c ∈ digitText n.whole, D.isDigit c := fun _ ↦ isDigit_of_mem_digitText
  have hne : (digitText n.whole).isEmpty = false := by
    simp [digitText, n.whole_ne_nil]
  have hrest : (PyFloat.fractionText n.fraction).takeWhile D.isDigit = [] ∧
      (PyFloat.fractionText n.fraction).dropWhile D.isDigit =
        PyFloat.fractionText n.fraction := by
    rw [PyFloat.fractionText]
    split <;> simp [isDigit_point]
  rw [decimal, Numeral.text, List.takeWhile_append_of_pos hwhole, hrest.1, List.append_nil,
    List.dropWhile_append_of_pos hwhole, hrest.2]
  simp only [hne, Bool.false_eq_true, if_false]
  rw [PyFloat.fractionText]
  by_cases hfraction : n.fraction = []
  · simp [hfraction, Numeral.value, value_digitText, digitsValue]
  · have hall : (digitText n.fraction).all D.isDigit :=
      List.all_eq_true.mpr fun _ ↦ isDigit_of_mem_digitText
    have hlength : (digitText n.fraction).length = n.fraction.length := List.length_map _
    have hempty : (digitText n.fraction).isEmpty = false := by simp [digitText, hfraction]
    simp [hfraction, hall, hempty, hlength, Numeral.value, value_digitText]

end Digits

end TradingOS.Lib
