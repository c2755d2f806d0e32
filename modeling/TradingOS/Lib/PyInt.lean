import Mathlib.Data.List.DropRight
import TradingOS.Lib.PyText
import TradingOS.Lib.Words

namespace TradingOS.Lib.PyInt

/-- The zeros of the decimal digits of Unicode 15; the other nine digits come after each. -/
def zeros : List ℕ :=
  [0x30, 0x660, 0x6f0, 0x7c0, 0x966, 0x9e6, 0xa66, 0xae6, 0xb66, 0xbe6, 0xc66, 0xce6, 0xd66, 0xde6,
    0xe50, 0xed0, 0xf20, 0x1040, 0x1090, 0x17e0, 0x1810, 0x1946, 0x19d0, 0x1a80, 0x1a90, 0x1b50,
    0x1bb0, 0x1c40, 0x1c50, 0xa620, 0xa8d0, 0xa900, 0xa9d0, 0xa9f0, 0xaa50, 0xabf0, 0xff10, 0x104a0,
    0x10d30, 0x11066, 0x110f0, 0x11136, 0x111d0, 0x112f0, 0x11450, 0x114d0, 0x11650, 0x116c0,
    0x11730, 0x118e0, 0x11950, 0x11c50, 0x11d50, 0x11da0, 0x11f50, 0x16a60, 0x16ac0, 0x16b50,
    0x1d7ce, 0x1d7d8, 0x1d7e2, 0x1d7ec, 0x1d7f6, 0x1e140, 0x1e2f0, 0x1e4f0, 0x1e950, 0x1fbf0]

/-- The ASCII that a character is read as: no number has a question mark. -/
def toAscii : CodePoint → Char
  | .surrogate _ => '?'
  | .char c =>
    if c.toNat < 127 then c
    else if isSpace c then ' '
    else
      match zeros.find? fun z ↦ z ≤ c.toNat && c.toNat < z + 10 with
      | some z => Nat.digitChar (c.toNat - z)
      | none => '?'

def isAsciiSpace (c : Char) : Bool := c ∈ [' ', '\t', '\n', '\x0b', '\x0c', '\r']

/-- Digits, with an underscore between some of them. -/
def naturalOf (text : List Char) : Option ℕ :=
  let runs := text.splitOn '_'
  if runs.all (fun run ↦ run ≠ [] && run.all Char.isDigit) && runs.flatten.length ≤ intMaxStrDigits then
    some (Nat.ofDigitChars 10 runs.flatten 0)
  else none

def signedOf (text : List Char) : Option ℤ :=
  match text with
  | '-' :: digits => (naturalOf digits).map fun n : ℕ ↦ (-n : ℤ)
  | '+' :: digits => (naturalOf digits).map Int.ofNat
  | digits => (naturalOf digits).map Int.ofNat

/-- `int` of a text; `none` is a `ValueError`. -/
def intOfText (text : List CodePoint) : Option ℤ :=
  signedOf (((text.map toAscii).dropWhile isAsciiSpace).rdropWhile isAsciiSpace)

theorem toAscii_of_lt {c : Char} (h : c.toNat < 127) : toAscii (.char c) = c := if_pos h

theorem isAsciiSpace_of_isNumeric {c : Char} (h : isNumeric c) : isAsciiSpace c = false := by
  have hall : [' ', '\t', '\n', '\x0b', '\x0c', '\r'].all (fun c ↦ c.toNat < 33) = true := rfl
  refine decide_eq_false fun hmem ↦ ?_
  have hlow := (toNat_of_isNumeric h).1
  have hlt : c.toNat < 33 := of_decide_eq_true (List.all_eq_true.mp hall c hmem)
  omega

theorem naturalOf_toDigits {n : ℕ} (h : (Nat.toDigits 10 n).length ≤ intMaxStrDigits) :
    naturalOf (Nat.toDigits 10 n) = some n := by
  have hruns : (Nat.toDigits 10 n).splitOn '_' = [Nat.toDigits 10 n] :=
    List.splitOn_eq_singleton (PyFloat.not_mem_toDigits rfl n)
  have hdigits : (Nat.toDigits 10 n).all Char.isDigit :=
    List.all_eq_true.mpr fun c hc ↦ isDigit_of_mem_toDigits hc
  simp [naturalOf, hruns, hdigits, h, Nat.ofDigitChars_ten_toDigits]

theorem signedOf_intText {n : ℤ} (h : (Nat.toDigits 10 n.natAbs).length ≤ intMaxStrDigits) :
    signedOf (intText n) = some n := by
  rcases lt_or_ge n 0 with hneg | hpos
  · have htext : intText n = '-' :: Nat.toDigits 10 n.natAbs := by
      rw [intText, decide_eq_true hneg]
      rfl
    rw [htext, signedOf, naturalOf_toDigits h, Option.map_some, Int.ofNat_natAbs_of_nonpos hneg.le,
      neg_neg]
  · have htext : intText n = Nat.toDigits 10 n.natAbs := by
      rw [intText, decide_eq_false (not_lt.mpr hpos)]
      rfl
    have hne {c : Char} (hc : c.isDigit = false) (rest : List Char) :
        Nat.toDigits 10 n.natAbs ≠ c :: rest := by
      intro heq
      refine PyFloat.not_mem_toDigits hc n.natAbs ?_
      rw [heq]
      exact List.mem_cons_self
    rw [htext, signedOf, naturalOf_toDigits h, Option.map_some]
    · exact congrArg some (Int.natAbs_of_nonneg hpos)
    · exact hne rfl
    · exact hne rfl

/-- What `str` writes is read back. -/
theorem intOfText_intText {n : ℤ} (h : (Nat.toDigits 10 n.natAbs).length ≤ intMaxStrDigits) :
    intOfText (codePoints (intText n)) = some n := by
  have hascii : (codePoints (intText n)).map toAscii = intText n := by
    have hself : ∀ c ∈ intText n, toAscii (.char c) = c := fun c hc ↦
      toAscii_of_lt (toNat_of_isNumeric (isNumeric_of_mem_intText hc)).2
    rw [codePoints, List.map_map]
    exact (List.map_congr_left hself).trans (List.map_id _)
  have hspace : ∀ c ∈ intText n, ¬ isAsciiSpace c := fun c hc ↦ by
    rw [isAsciiSpace_of_isNumeric (isNumeric_of_mem_intText hc)]
    exact Bool.false_ne_true
  have hleft : (intText n).dropWhile isAsciiSpace = intText n :=
    List.dropWhile_eq_self_iff.mpr fun hlength ↦ hspace _ (List.getElem_mem hlength)
  have hright : (intText n).rdropWhile isAsciiSpace = intText n :=
    List.rdropWhile_eq_self_iff.mpr fun hne ↦ hspace _ (List.getLast_mem hne)
  rw [intOfText, hascii, hleft, hright, signedOf_intText h]

end TradingOS.Lib.PyInt
