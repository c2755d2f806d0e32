import Mathlib.Data.List.DropRight
import Mathlib.Data.Nat.Notation

namespace TradingOS.Lib.Base64

/-- The characters of six bits in the URL-safe alphabet. -/
def alphabet : List Char :=
  "ABCDEFGHIJKLMNOPQRSTUVWXYZabcdefghijklmnopqrstuvwxyz0123456789-_".toList

def charOf (v : ℕ) : Char := alphabet.getD v '='

/-- The decoder translates the URL-safe characters, and takes those of the other alphabet as well. -/
def sextet (c : Char) : Option ℕ :=
  let n := c.toNat
  if c.isUpper then some (n - 65)
  else if c.isLower then some (n - 71)
  else if c.isDigit then some (n + 4)
  else if c = '+' ∨ c = '-' then some 62
  else if c = '/' ∨ c = '_' then some 63
  else none

/-- The characters of some bytes, without the padding. -/
def characters : List UInt8 → List Char
  | a :: b :: c :: rest =>
    charOf (a.toNat / 4) :: charOf (a.toNat % 4 * 16 + b.toNat / 16) ::
      charOf (b.toNat % 16 * 4 + c.toNat / 64) :: charOf (c.toNat % 64) :: characters rest
  | [a, b] =>
    [charOf (a.toNat / 4), charOf (a.toNat % 4 * 16 + b.toNat / 16), charOf (b.toNat % 16 * 4)]
  | [a] => [charOf (a.toNat / 4), charOf (a.toNat % 4 * 16)]
  | [] => []

/-- What makes a length a multiple of four. -/
def padding (length : ℕ) : List Char := .replicate ((4 - length % 4) % 4) '='

def urlsafeB64encode (data : List UInt8) : List Char :=
  characters data ++ padding (characters data).length

/-- `a2b_base64`: the place in a group of four, the bits that are left over, and the padding so far.
What is no character of the alphabet is skipped, and a full padding ends the text. -/
def decodeFrom (place left pads : ℕ) : List Char → Option (List UInt8)
  | [] => if place = 0 then some [] else none
  | c :: rest =>
    if c = '=' then
      if place < 2 then decodeFrom place left pads rest
      else if 4 ≤ place + pads + 1 then some []
      else decodeFrom place left (pads + 1) rest
    else
      match sextet c with
      | none => decodeFrom place left pads rest
      | some v =>
        match place with
        | 0 => decodeFrom 1 v 0 rest
        | 1 => (decodeFrom 2 (v % 16) 0 rest).map (.ofNat (left * 4 + v / 16) :: ·)
        | 2 => (decodeFrom 3 (v % 4) 0 rest).map (.ofNat (left * 16 + v / 4) :: ·)
        | _ => (decodeFrom 0 0 0 rest).map (.ofNat (left * 64 + v) :: ·)

/-- `urlsafe_b64decode` of a text; `none` is a `ValueError`. -/
def urlsafeB64decode (text : List Char) : Option (List UInt8) :=
  if text.all (·.toNat < 128) then decodeFrom 0 0 0 text else none

theorem charOf_spec {v : ℕ} (h : v < 64) : sextet (charOf v) = some v ∧ (charOf v).toNat < 128 ∧
    charOf v ≠ '=' ∧ charOf v ≠ '.' := by
  have hall : ∀ v : Fin 64, sextet (charOf v) = some v.val ∧ (charOf v).toNat < 128 ∧
      charOf v ≠ '=' ∧ charOf v ≠ '.' := by decide +kernel
  exact hall ⟨v, h⟩

section Characters

variable {p : Char → Prop}

/-- What holds of the characters of all sixfold bits holds of those of any bytes. -/
theorem forall_mem_characters (hp : ∀ v < 64, p (charOf v)) (data : List UInt8) :
    ∀ c ∈ characters data, p c := by
  induction data using characters.induct with
  | case1 a b c rest ih =>
    have ha := a.toNat_lt
    have hb := b.toNat_lt
    have hc := c.toNat_lt
    simp only [characters, List.forall_mem_cons]
    exact ⟨hp _ (by omega), hp _ (by omega), hp _ (by omega), hp _ (by omega), ih⟩
  | case2 a b =>
    have ha := a.toNat_lt
    have hb := b.toNat_lt
    simp only [characters, List.forall_mem_cons]
    exact ⟨hp _ (by omega), hp _ (by omega), hp _ (by omega), by simp⟩
  | case3 a =>
    have ha := a.toNat_lt
    simp only [characters, List.forall_mem_cons]
    exact ⟨hp _ (by omega), hp _ (by omega), by simp⟩
  | case4 => simp [characters]

end Characters

section Places

variable {v : ℕ}

theorem decodeFrom_charOf (h : v < 64) (place left pads : ℕ) (rest : List Char) :
    decodeFrom place left pads (charOf v :: rest) =
      match place with
      | 0 => decodeFrom 1 v 0 rest
      | 1 => (decodeFrom 2 (v % 16) 0 rest).map (.ofNat (left * 4 + v / 16) :: ·)
      | 2 => (decodeFrom 3 (v % 4) 0 rest).map (.ofNat (left * 16 + v / 4) :: ·)
      | _ => (decodeFrom 0 0 0 rest).map (.ofNat (left * 64 + v) :: ·) := by
  obtain ⟨hsextet, -, hpad, -⟩ := charOf_spec h
  rw [decodeFrom, if_neg hpad, hsextet]

theorem decodeFrom_zero (h : v < 64) (left pads : ℕ) (rest : List Char) :
    decodeFrom 0 left pads (charOf v :: rest) = decodeFrom 1 v 0 rest :=
  decodeFrom_charOf h 0 left pads rest

theorem decodeFrom_one (h : v < 64) {left pads : ℕ} {rest : List Char} {b : UInt8}
    (hb : left * 4 + v / 16 = b.toNat) : decodeFrom 1 left pads (charOf v :: rest) =
      (decodeFrom 2 (v % 16) 0 rest).map (b :: ·) := by
  rw [← UInt8.ofNat_toNat (x := b), ← hb]
  exact decodeFrom_charOf h 1 left pads rest

theorem decodeFrom_two (h : v < 64) {left pads : ℕ} {rest : List Char} {b : UInt8}
    (hb : left * 16 + v / 4 = b.toNat) : decodeFrom 2 left pads (charOf v :: rest) =
      (decodeFrom 3 (v % 4) 0 rest).map (b :: ·) := by
  rw [← UInt8.ofNat_toNat (x := b), ← hb]
  exact decodeFrom_charOf h 2 left pads rest

theorem decodeFrom_three (h : v < 64) {left pads : ℕ} {rest : List Char} {b : UInt8}
    (hb : left * 64 + v = b.toNat) : decodeFrom 3 left pads (charOf v :: rest) =
      (decodeFrom 0 0 0 rest).map (b :: ·) := by
  rw [← UInt8.ofNat_toNat (x := b), ← hb]
  exact decodeFrom_charOf h 3 left pads rest

end Places

/-- The characters of some bytes are decoded to these bytes. -/
theorem decodeFrom_characters (data : List UInt8) :
    decodeFrom 0 0 0 (characters data ++ padding (characters data).length) = some data := by
  induction data using characters.induct with
  | case1 a b c rest ih =>
    have ha := a.toNat_lt
    have hb := b.toNat_lt
    have hc := c.toNat_lt
    have hpad : padding (characters (a :: b :: c :: rest)).length =
        padding (characters rest).length := by
      simp only [characters, List.length_cons, padding]
      congr 2
      omega
    rw [hpad]
    simp only [characters, List.cons_append]
    rw [decodeFrom_zero (by omega), decodeFrom_one (b := a) (by omega) (by omega),
      decodeFrom_two (b := b) (by omega) (by omega), decodeFrom_three (b := c) (by omega) (by omega), ih]
    rfl
  | case2 a b =>
    have ha := a.toNat_lt
    have hb := b.toNat_lt
    simp only [characters, List.cons_append]
    rw [decodeFrom_zero (by omega), decodeFrom_one (b := a) (by omega) (by omega),
      decodeFrom_two (b := b) (by omega) (by omega)]
    rfl
  | case3 a =>
    have ha := a.toNat_lt
    simp only [characters, List.cons_append]
    rw [decodeFrom_zero (by omega), decodeFrom_one (b := a) (by omega) (by omega)]
    rfl
  | case4 => rfl

theorem urlsafeB64decode_encode (data : List UInt8) :
    urlsafeB64decode (urlsafeB64encode data) = some data := by
  have hascii : (urlsafeB64encode data).all (·.toNat < 128) := by
    refine List.all_eq_true.mpr fun c hc ↦ decide_eq_true ?_
    rcases List.mem_append.mp hc with hc | hc
    · exact forall_mem_characters (p := fun c ↦ c.toNat < 128)
        (fun v hv ↦ (charOf_spec hv).2.1) data c hc
    · rw [List.eq_of_mem_replicate hc]
      decide
  rw [urlsafeB64decode, if_pos hascii, urlsafeB64encode, decodeFrom_characters]

/-- The padding can be stripped again. -/
theorem rdropWhile_urlsafeB64encode (data : List UInt8) :
    (urlsafeB64encode data).rdropWhile (· = '=') = characters data := by
  have hpad : ∀ c ∈ padding (characters data).length, decide (c = '=') := fun c hc ↦
    decide_eq_true (List.eq_of_mem_replicate hc)
  have hlast : ∀ c ∈ characters data, ¬ decide (c = '=') := by
    refine forall_mem_characters (fun v hv ↦ ?_) data
    simpa using (charOf_spec hv).2.2.1
  rw [urlsafeB64encode, List.rdropWhile, List.reverse_append,
    List.dropWhile_append_of_pos fun c hc ↦ hpad c (List.mem_reverse.mp hc)]
  exact List.rdropWhile_eq_self_iff.mpr fun hne ↦ hlast _ (List.getLast_mem hne)

end TradingOS.Lib.Base64
