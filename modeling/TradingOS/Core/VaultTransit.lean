import Mathlib.Algebra.Order.Ring.Rat
import TradingOS.Lib.PyText

namespace TradingOS.Core.VaultTransit

open Lib

/-- `VaultTransitUnavailableError`, and whatever else a call to Vault raises. -/
inductive VaultError
  | unavailable
  | other
  deriving DecidableEq

/-- What `read_key` answers; no key stands for one that is not on an elliptic curve. -/
structure KeyData (κ : Type) where
  keys : List (ℤ × Option κ)
  minDecryptionVersion : ℤ
  latestVersion : ℤ

/-- The clock and Vault at the time of a call. -/
structure Visit (κ : Type) where
  monotonic : ℚ
  readKey : Except VaultError (KeyData κ)

structure Cache (κ : Type) where
  publicKeys : List (ℤ × κ) := []
  minDecryptionVersion : ℤ := 1
  latestVersion : ℤ := 1
  fetchedAt : ℚ := 0

/-- What Vault signed with which key, where `r` and `s` come from the DER encoding. -/
structure SignReply (κ : Type) where
  key : κ
  version : ℤ
  r : ℕ
  s : ℕ

def cacheTtlSeconds : ℚ := 60

section Keys

variable {κ : Type}

def refreshCache (visit : Visit κ) : Except VaultError (Cache κ) :=
  match visit.readKey with
  | .error e => .error e
  | .ok data =>
    match data.keys.mapM fun (version, key) ↦ key.map (version, ·) with
    | none => .error .unavailable
    | some publicKeys =>
      .ok ⟨publicKeys, data.minDecryptionVersion, data.latestVersion, visit.monotonic⟩

def cacheIsFresh (cache : Cache κ) (now : ℚ) : Bool :=
  !cache.publicKeys.isEmpty && now - cache.fetchedAt < cacheTtlSeconds

def keyOf (cache : Cache κ) (kid : ℤ) : Option κ := cache.publicKeys.lookup kid

/-- The cache, refreshed unless it will do. -/
def upToDate (cache : Cache κ) (visit : Visit κ) (willDo : Bool) : Except VaultError (Cache κ) :=
  if willDo then .ok cache else refreshCache visit

/-- The cache that the key of a version is looked up in. -/
def cacheForKey (kid : ℤ) (visit : Visit κ) (cache : Cache κ) : Except VaultError (Cache κ) :=
  upToDate cache visit (cacheIsFresh cache visit.monotonic && (keyOf cache kid).isSome)

/-- The cache that the versions are read from. -/
def cacheForVersions (visit : Visit κ) (cache : Cache κ) : Except VaultError (Cache κ) :=
  upToDate cache visit (cacheIsFresh cache visit.monotonic)

/-- A call that raises leaves the cache as it was. -/
def answer {α : Type} (refreshed : Except VaultError (Cache κ)) (cache : Cache κ) (f : Cache κ → α) :
    Except VaultError α × Cache κ :=
  match refreshed with
  | .error e => (.error e, cache)
  | .ok cache => (.ok (f cache), cache)

def publicKeyFor (kid : ℤ) (visit : Visit κ) (cache : Cache κ) :
    Except VaultError (Option κ) × Cache κ :=
  answer (cacheForKey kid visit cache) cache (keyOf · kid)

def minDecryptionVersion (visit : Visit κ) (cache : Cache κ) : Except VaultError ℤ × Cache κ :=
  answer (cacheForVersions visit cache) cache Cache.minDecryptionVersion

def currentKeyVersion (visit : Visit κ) (cache : Cache κ) : Except VaultError ℤ × Cache κ :=
  answer (cacheForVersions visit cache) cache Cache.latestVersion

end Keys

/-- `int.to_bytes(length, "big")` of a number that fits. -/
def toBytes : ℕ → ℕ → List UInt8
  | 0, _ => []
  | length + 1, n => toBytes length (n / 256) ++ [.ofNat (n % 256)]

@[simp] theorem length_toBytes (length n : ℕ) : (toBytes length n).length = length := by
  induction length generalizing n with
  | zero => rfl
  | succ length ih => rw [toBytes, List.length_append, ih, List.length_singleton]

theorem number_toBytes {length n : ℕ} (h : n < 256 ^ length) :
    number true (toBytes length n) = n := by
  induction length generalizing n with
  | zero =>
    rw [pow_zero, Nat.lt_one_iff] at h
    rw [h]
    rfl
  | succ length ih =>
    have hhead : n / 256 < 256 ^ length := Nat.div_lt_of_lt_mul (by rwa [← pow_succ'])
    have hlast : number true (toBytes length (n / 256) ++ [.ofNat (n % 256)]) =
        256 * number true (toBytes length (n / 256)) + n % 256 := by
      simp [number]
    rw [toBytes, hlast, ih hhead]
    exact Nat.div_add_mod n 256

section Signatures

variable {κ : Type}

/-- What 32 bytes do not hold. -/
def signatureBound : ℕ := 256 ^ 32

/-- The raw signature; `signData` is what Vault answers to these bytes and this version. -/
def sign (signData : List UInt8 → ℤ → Except VaultError (SignReply κ)) (payload : List UInt8)
    (keyVersion : ℤ) : Except VaultError (List UInt8) :=
  match signData payload keyVersion with
  | .error e => .error e
  | .ok reply =>
    if reply.version ≠ keyVersion then .error .unavailable
    else if signatureBound ≤ reply.r ∨ signatureBound ≤ reply.s then .error .other
    else .ok (toBytes 32 reply.r ++ toBytes 32 reply.s)

-- whether a public key verifies a signature, given by its two numbers
variable (accepts : κ → List UInt8 → ℕ → ℕ → Bool)

/-- Whether a key that is known takes the raw signature. -/
def acceptsRaw (payload rawSignature : List UInt8) : Option κ → Bool
  | none => false
  | some key =>
    rawSignature.length = 64 &&
      accepts key payload (number true (rawSignature.take 32)) (number true (rawSignature.drop 32))

def verify (payload rawSignature : List UInt8) (kid : ℤ) (visit : Visit κ) (cache : Cache κ) :
    Except VaultError Bool × Cache κ :=
  match publicKeyFor kid visit cache with
  | (.error e, cache) => (.error e, cache)
  | (.ok key, cache) => (.ok (acceptsRaw accepts payload rawSignature key), cache)

theorem verify_eq (payload rawSignature : List UInt8) (kid : ℤ) (visit : Visit κ) (cache : Cache κ) :
    verify accepts payload rawSignature kid visit cache =
      answer (cacheForKey kid visit cache) cache fun cache ↦
        acceptsRaw accepts payload rawSignature (keyOf cache kid) := by
  rw [verify, publicKeyFor]
  cases cacheForKey kid visit cache <;> rfl

variable {accepts}

/-- What `sign` returns is taken exactly if the key takes its two numbers. -/
theorem acceptsRaw_of_sign {payload message rawSignature : List UInt8}
    {signData : List UInt8 → ℤ → Except VaultError (SignReply κ)} {kid : ℤ} {reply : SignReply κ}
    (hreply : signData payload kid = .ok reply) (h : sign signData payload kid = .ok rawSignature)
    (key : κ) :
    acceptsRaw accepts message rawSignature (some key) = accepts key message reply.r reply.s := by
  simp only [sign, hreply] at h
  split_ifs at h with hversion hbound
  rw [not_or, not_le, not_le] at hbound
  obtain rfl := Except.ok.inj h
  rw [acceptsRaw, List.take_left' (length_toBytes 32 reply.r),
    List.drop_left' (length_toBytes 32 reply.r), number_toBytes hbound.1, number_toBytes hbound.2,
    List.length_append, length_toBytes, length_toBytes]
  rfl

end Signatures

end TradingOS.Core.VaultTransit
