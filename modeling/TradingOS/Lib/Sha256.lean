import Mathlib.Algebra.Group.Nat.Defs
import Mathlib.Data.List.Basic

namespace TradingOS.Lib.Sha256

def word (x : ℕ) : ℕ := x % 2 ^ 32

def rotateRight (n x : ℕ) : ℕ := word (x >>> n ||| x <<< (32 - n))

def choose (x y z : ℕ) : ℕ := (x &&& y) ^^^ (((2 ^ 32 - 1) ^^^ x) &&& z)

def majority (x y z : ℕ) : ℕ := (x &&& y) ^^^ (x &&& z) ^^^ (y &&& z)

def bigSigma0 (x : ℕ) : ℕ := rotateRight 2 x ^^^ rotateRight 13 x ^^^ rotateRight 22 x

def bigSigma1 (x : ℕ) : ℕ := rotateRight 6 x ^^^ rotateRight 11 x ^^^ rotateRight 25 x

def smallSigma0 (x : ℕ) : ℕ := rotateRight 7 x ^^^ rotateRight 18 x ^^^ x >>> 3

def smallSigma1 (x : ℕ) : ℕ := rotateRight 17 x ^^^ rotateRight 19 x ^^^ x >>> 10

def roundConstants : List ℕ :=
  [0x428a2f98, 0x71374491, 0xb5c0fbcf, 0xe9b5dba5, 0x3956c25b, 0x59f111f1, 0x923f82a4, 0xab1c5ed5,
    0xd807aa98, 0x12835b01, 0x243185be, 0x550c7dc3, 0x72be5d74, 0x80deb1fe, 0x9bdc06a7, 0xc19bf174,
    0xe49b69c1, 0xefbe4786, 0x0fc19dc6, 0x240ca1cc, 0x2de92c6f, 0x4a7484aa, 0x5cb0a9dc, 0x76f988da,
    0x983e5152, 0xa831c66d, 0xb00327c8, 0xbf597fc7, 0xc6e00bf3, 0xd5a79147, 0x06ca6351, 0x14292967,
    0x27b70a85, 0x2e1b2138, 0x4d2c6dfc, 0x53380d13, 0x650a7354, 0x766a0abb, 0x81c2c92e, 0x92722c85,
    0xa2bfe8a1, 0xa81a664b, 0xc24b8b70, 0xc76c51a3, 0xd192e819, 0xd6990624, 0xf40e3585, 0x106aa070,
    0x19a4c116, 0x1e376c08, 0x2748774c, 0x34b0bcb5, 0x391c0cb3, 0x4ed8aa4a, 0x5b9cca4f, 0x682e6ff3,
    0x748f82ee, 0x78a5636f, 0x84c87814, 0x8cc70208, 0x90befffa, 0xa4506ceb, 0xbef9a3f7, 0xc67178f2]

structure State where
  (a b c d e f g h : ℕ)
  deriving DecidableEq

def State.init : State :=
  ⟨0x6a09e667, 0xbb67ae85, 0x3c6ef372, 0xa54ff53a, 0x510e527f, 0x9b05688c, 0x1f83d9ab, 0x5be0cd19⟩

def State.toList (s : State) : List ℕ := [s.a, s.b, s.c, s.d, s.e, s.f, s.g, s.h]

def State.add (s t : State) : State :=
  ⟨word (s.a + t.a), word (s.b + t.b), word (s.c + t.c), word (s.d + t.d), word (s.e + t.e),
    word (s.f + t.f), word (s.g + t.g), word (s.h + t.h)⟩

def round (s : State) (keyed : ℕ) : State :=
  let t₁ := s.h + bigSigma1 s.e + choose s.e s.f s.g + keyed
  let t₂ := bigSigma0 s.a + majority s.a s.b s.c
  ⟨word (t₁ + t₂), s.a, s.b, s.c, word (s.d + t₁), s.e, s.f, s.g⟩

/-- The word of the message schedule after the last sixteen. -/
def schedule (window : List ℕ) : ℕ :=
  word (window.getD 0 0 + smallSigma0 (window.getD 1 0) + window.getD 9 0 +
    smallSigma1 (window.getD 14 0))

def rounds : List ℕ → List ℕ → State → State
  | [], _, s => s
  | k :: ks, window, s =>
    rounds ks (window.tail ++ [schedule window]) (round s (k + window.headD 0))

def compress (s : State) (block : List ℕ) : State := s.add (rounds roundConstants block s)

def pad (bytes : List ℕ) : List ℕ :=
  let n := bytes.length
  bytes ++ 0x80 :: List.replicate ((119 - n % 64) % 64) 0 ++
    (List.range 8).map fun i ↦ (8 * n) >>> (8 * (7 - i)) % 256

def words : List ℕ → List ℕ
  | a :: b :: c :: d :: rest => (a * 2 ^ 24 + b * 2 ^ 16 + c * 2 ^ 8 + d) :: words rest
  | _ => []

def blocks : ℕ → List ℕ → List (List ℕ)
  | 0, _ => []
  | n + 1, ws => ws.take 16 :: blocks n (ws.drop 16)

def digest (bytes : List ℕ) : State :=
  let ws := words (pad bytes)
  (blocks (ws.length / 16) ws).foldl compress State.init

def hexDigits (w : ℕ) : List Char :=
  (List.range 8).map fun i ↦ Nat.digitChar (w >>> (4 * (7 - i)) % 16)

/-- `hashlib.sha256(text.encode("utf-8")).hexdigest()`. -/
def hexdigest (text : String) : String :=
  let bytes := text.toList.flatMap fun c ↦ (String.utf8EncodeChar c).map UInt8.toNat
  .ofList ((digest bytes).toList.flatMap hexDigits)

def asciiDigest (cs : List Char) : List Char :=
  (digest (cs.map Char.toNat)).toList.flatMap hexDigits

theorem utf8EncodeChar_of_lt {c : Char} (h : c.toNat < 128) :
    (String.utf8EncodeChar c).map UInt8.toNat = [c.toNat] := by
  have hle : c.val.toNat ≤ 127 := Nat.le_of_lt_succ h
  have hmod : c.val.toNat % 256 = c.toNat := Nat.mod_eq_of_lt (Nat.lt_trans h (by decide))
  simp only [String.utf8EncodeChar, if_pos hle, List.map_cons, List.map_nil, UInt8.toNat_ofNat', hmod]

/-- One byte a character, where they are ASCII. -/
theorem hexdigest_ofList {cs : List Char} (h : cs.all (·.toNat < 128)) :
    hexdigest (.ofList cs) = .ofList (asciiDigest cs) := by
  have hbytes : (cs.flatMap fun c ↦ (String.utf8EncodeChar c).map UInt8.toNat) = cs.map Char.toNat := by
    have hbyte (c) (hc : c ∈ cs) : (String.utf8EncodeChar c).map UInt8.toNat = [c.toNat] :=
      utf8EncodeChar_of_lt (of_decide_eq_true (List.all_eq_true.mp h c hc))
    rw [List.flatMap_congr hbyte]
    exact List.flatMap_pure_eq_map _ _
  rw [hexdigest, String.toList_ofList, hbytes, asciiDigest]

example : hexdigest "abc" = "ba7816bf8f01cfea414140de5dae2223b00361a396177a9cb410ff61f20015ad" := by
  decide +kernel

end TradingOS.Lib.Sha256
