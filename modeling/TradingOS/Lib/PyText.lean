import Mathlib.Data.Nat.Notation
import Mathlib.Data.List.Basic

namespace TradingOS.Lib

/-- `sys.get_int_max_str_digits()`. -/
def intMaxStrDigits : ℕ := 4300

/-- An element of a Python `str`, which may be half of a surrogate pair. -/
inductive CodePoint
  | char (c : Char)
  | surrogate (n : Fin 0x800)
  deriving DecidableEq

namespace CodePoint

def ofNat (n : ℕ) : CodePoint :=
  if h : 0xd800 ≤ n ∧ n < 0xe000 then .surrogate ⟨n - 0xd800, by omega⟩ else .char (.ofNat n)

def char? : CodePoint → Option Char
  | char c => some c
  | surrogate _ => none

theorem ofNat_toNat (c : Char) : ofNat c.toNat = .char c := by
  have hvalid : c.toNat < 0xd800 ∨ 0xdfff < c.toNat ∧ c.toNat < 0x110000 := c.valid
  rw [ofNat, dif_neg (by omega), Char.ofNat_toNat]

end CodePoint

def codePoints (text : List Char) : List CodePoint := text.map .char

def isHighSurrogate (unit : ℕ) : Bool := 0xd800 ≤ unit && unit < 0xdc00

def isLowSurrogate (unit : ℕ) : Bool := 0xdc00 ≤ unit && unit < 0xe000

def joinSurrogates (high low : ℕ) : ℕ := 0x10000 + (high - 0xd800) * 0x400 + (low - 0xdc00)

section Decoding

def isTail (b : UInt8) : Bool := 0x80 ≤ b && b < 0xc0

/-- The decoder for UTF-8 with `surrogatepass`; `none` is a `UnicodeDecodeError`. -/
def decodeUtf8 : List UInt8 → Option (List CodePoint)
  | [] => some []
  | a :: rest =>
    if a < 0x80 then (decodeUtf8 rest).map (.ofNat a.toNat :: ·)
    else
      match rest with
      | [] => none
      | b :: rest =>
        if 0xc2 ≤ a ∧ a < 0xe0 ∧ isTail b then
          (decodeUtf8 rest).map (.ofNat (a.toNat % 32 * 64 + b.toNat % 64) :: ·)
        else
          match rest with
          | [] => none
          | c :: rest =>
            if 0xe0 ≤ a ∧ a < 0xf0 ∧ isTail b ∧ isTail c ∧ (a = 0xe0 → 0xa0 ≤ b) then
              (decodeUtf8 rest).map
                (.ofNat ((a.toNat % 16 * 64 + b.toNat % 64) * 64 + c.toNat % 64) :: ·)
            else
              match rest with
              | [] => none
              | d :: rest =>
                if 0xf0 ≤ a ∧ a < 0xf5 ∧ isTail b ∧ isTail c ∧ isTail d ∧
                    (a = 0xf0 → 0x90 ≤ b) ∧ (a = 0xf4 → b < 0x90) then
                  (decodeUtf8 rest).map
                    (.ofNat (((a.toNat % 8 * 64 + b.toNat % 64) * 64 + c.toNat % 64) * 64 +
                      d.toNat % 64) :: ·)
                else none

/-- The number of some bytes, from the first or from the last. -/
def number (bigEndian : Bool) (bytes : List UInt8) : ℕ :=
  (if bigEndian then bytes else bytes.reverse).foldl (fun n b ↦ 256 * n + b.toNat) 0

def units16 (bigEndian : Bool) : List UInt8 → Option (List ℕ)
  | a :: b :: rest => (units16 bigEndian rest).map (number bigEndian [a, b] :: ·)
  | [] => some []
  | _ => none

def units32 (bigEndian : Bool) : List UInt8 → Option (List ℕ)
  | a :: b :: c :: d :: rest => (units32 bigEndian rest).map (number bigEndian [a, b, c, d] :: ·)
  | [] => some []
  | _ => none

def joinUnits : List ℕ → List CodePoint
  | high :: low :: rest =>
    if isHighSurrogate high && isLowSurrogate low then
      .ofNat (joinSurrogates high low) :: joinUnits rest
    else .ofNat high :: joinUnits (low :: rest)
  | [unit] => [.ofNat unit]
  | [] => []

inductive Encoding
  | utf8
  | utf16 (bigEndian : Bool)
  | utf32 (bigEndian : Bool)
  deriving DecidableEq

def Encoding.decode (bytes : List UInt8) : Encoding → Option (List CodePoint)
  | utf8 => decodeUtf8 bytes
  | utf16 bigEndian => (units16 bigEndian bytes).map joinUnits
  | utf32 bigEndian =>
    (units32 bigEndian bytes).bind fun numbers ↦
      if numbers.all (· < 0x110000) then some (numbers.map .ofNat) else none

def byteOrderMarks : List (List UInt8 × Encoding) :=
  [([0, 0, 0xfe, 0xff], .utf32 true), ([0xff, 0xfe, 0, 0], .utf32 false), ([0xfe, 0xff], .utf16 true),
    ([0xff, 0xfe], .utf16 false), ([0xef, 0xbb, 0xbf], .utf8)]

/-- What the zeros among the first bytes of a JSON text tell. -/
def encodingOfZeros : List UInt8 → Encoding
  | b₀ :: b₁ :: b₂ :: b₃ :: _ =>
    if b₀ = 0 then if b₁ = 0 then .utf32 true else .utf16 true
    else if b₁ = 0 then if b₂ = 0 ∧ b₃ = 0 then .utf32 false else .utf16 false
    else .utf8
  | [b₀, b₁] => if b₀ = 0 then .utf16 true else if b₁ = 0 then .utf16 false else .utf8
  | _ => .utf8

/-- `json.loads` detects the encoding of the bytes that it is given, and decodes them. -/
def decodeJsonBytes (bytes : List UInt8) : Option (List CodePoint) :=
  match byteOrderMarks.find? (·.1.isPrefixOf bytes) with
  | some (mark, encoding) => encoding.decode (bytes.drop mark.length)
  | none => (encodingOfZeros bytes).decode bytes

end Decoding

def encodeUtf8 (text : List Char) : List UInt8 := text.flatMap String.utf8EncodeChar

section Ascii

variable {text : List Char}

theorem encodeUtf8_of_ascii (h : ∀ c ∈ text, c.toNat < 128) :
    encodeUtf8 text = text.map fun c ↦ .ofNat c.toNat := by
  have hbyte : ∀ c ∈ text, String.utf8EncodeChar c = [.ofNat c.toNat] := fun c hc ↦ by
    have hle : c.val.toNat ≤ 127 := Nat.le_of_lt_succ (h c hc)
    simp only [String.utf8EncodeChar, if_pos hle]
    rfl
  rw [encodeUtf8, List.flatMap_congr hbyte]
  exact List.flatMap_pure_eq_map _ _

theorem decodeUtf8_ascii (h : ∀ c ∈ text, c.toNat < 128) :
    decodeUtf8 (text.map fun c ↦ .ofNat c.toNat) = some (codePoints text) := by
  induction text with
  | nil => rfl
  | cons c text ih =>
    obtain ⟨hc, htext⟩ := List.forall_mem_cons.mp h
    have htoNat : (UInt8.ofNat c.toNat).toNat = c.toNat := by
      rw [UInt8.toNat_ofNat']
      omega
    have hlt : UInt8.ofNat c.toNat < 0x80 := by
      rw [UInt8.lt_iff_toNat_lt, htoNat]
      exact hc
    rw [List.map_cons, decodeUtf8.eq_def]
    simp only [if_pos hlt, ih htext, htoNat, CodePoint.ofNat_toNat]
    rfl

theorem decode_of_bytes {bytes : List UInt8} (h : ∀ b ∈ bytes, 0 < b ∧ b < 0x80) :
    decodeJsonBytes bytes = decodeUtf8 bytes := by
  have hmarks : byteOrderMarks.find? (·.1.isPrefixOf bytes) = none := by
    cases bytes with
    | nil => rfl
    | cons b bytes =>
      obtain ⟨hpos, hlt⟩ := h b List.mem_cons_self
      have hne : ∀ k : UInt8, k = 0 ∨ 0x80 ≤ k → (k == b) = false := by
        rintro k (rfl | hk)
        · exact beq_false_of_ne (UInt8.ne_of_lt hpos)
        · exact beq_false_of_ne (UInt8.ne_of_lt (UInt8.lt_of_lt_of_le hlt hk)).symm
      simp [byteOrderMarks, List.isPrefixOf, hne]
  have hzero : ∀ b ∈ bytes, b ≠ 0 := fun b hb ↦ (UInt8.ne_of_lt (h b hb).1).symm
  have hutf8 : encodingOfZeros bytes = .utf8 := by
    rw [encodingOfZeros.eq_def]
    split
    · rw [if_neg (hzero _ (by simp)), if_neg (hzero _ (by simp))]
    · rw [if_neg (hzero _ (by simp)), if_neg (hzero _ (by simp))]
    · rfl
  rw [decodeJsonBytes, hmarks, hutf8]
  rfl

/-- ASCII without a NUL comes out as it was. -/
theorem decodeJsonBytes_encodeUtf8 (h : ∀ c ∈ text, 0 < c.toNat ∧ c.toNat < 128) :
    decodeJsonBytes (encodeUtf8 text) = some (codePoints text) := by
  have hascii : ∀ c ∈ text, c.toNat < 128 := fun c hc ↦ (h c hc).2
  rw [encodeUtf8_of_ascii hascii, decode_of_bytes, decodeUtf8_ascii hascii]
  intro b hb
  obtain ⟨c, hc, rfl⟩ := List.mem_map.mp hb
  obtain ⟨hpos, hlt⟩ := h c hc
  rw [UInt8.lt_iff_toNat_lt, UInt8.lt_iff_toNat_lt, UInt8.toNat_ofNat', Nat.mod_eq_of_lt (by omega)]
  exact ⟨hpos, hlt⟩

end Ascii

end TradingOS.Lib
