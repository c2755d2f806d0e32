import TradingOS.Core.ApiRateLimit
import TradingOS.Core.CanonicalPayload
import TradingOS.Core.VaultTransit
import TradingOS.Lib.Base64
import TradingOS.Lib.LoadedValue

namespace TradingOS.Core.AccessTokens

open Lib Lib.JsonLoads VaultTransit

section Parts

def b64urlEncode (data : List UInt8) : List Char :=
  (Base64.urlsafeB64encode data).rdropWhile (· = '=')

def b64urlDecode (data : List Char) : Option (List UInt8) :=
  Base64.urlsafeB64decode (data ++ Base64.padding data.length)

/-- The value with the keys of its mappings in order, as `sort_keys` writes them. -/
def inOrder : Json String → Json String :=
  Json.fold .leaf .list fun members ↦ .dict (sortTexts members)

/-- `json.dumps(d, sort_keys=True).encode("utf-8")`, with what is left of the recursion limit. -/
def dumps (limit : ℕ) (d : Json String) : Option (List UInt8) :=
  if Writable (inOrder d) ∧ depth (inOrder d) ≤ limit then some (encodeUtf8 (inOrder d).text)
  else none

/-- `json.loads(_b64url_decode(part))`. -/
def loadPart (limit : ℕ) (part : List Char) : Except Raised Value :=
  match b64urlDecode part with
  | none => .error (.builtin .value)
  | some bytes =>
    match loads limit bytes with
    | .error e => .error e.raised
    | .ok v => .ok v

def encodeAscii (text : List Char) : Option (List UInt8) :=
  if text.all (·.toNat < 128) then some (encodeUtf8 text) else none

end Parts

section Issuing

variable {κ : Type}

def jwtAlg : String := "ES256"

/-- The first and the last instant of a `datetime`, in microseconds of the epoch. -/
def minInstant : ℤ := -62135596800000000

def maxInstant : ℤ := 253402300799999999

/-- `datetime.timestamp`. -/
def timestamp (instant : ℤ) : Number := nearestDouble (instant < 0) (|(instant : ℚ)| / 10 ^ 6)

/-- A call of `_create_token`: its arguments, with the time to live in microseconds, and what it
finds. -/
structure Creation (κ : Type) where
  claims : Table String (Json String)
  ttl : ℤ
  now : ℤ
  limit : ℕ
  visit : Visit κ
  cache : Cache κ
  signData : List UInt8 → ℤ → Except VaultError (SignReply κ)

inductive CreateError
  | raised (e : Raised)
  | notSerializable
  | vault (e : VaultError)
  deriving DecidableEq

def payloadOf (claims : Table String (Json String)) (iat exp : ℤ) : Table String (Json String) :=
  (claims.assign "iat" (.leaf (.int iat))).assign "exp" (.leaf (.int exp))

/-- What a token holds. -/
structure Jws where
  claims : Table String (Json String)
  iat : ℤ
  exp : ℤ
  kid : ℤ
  headerB64 : List Char
  payloadB64 : List Char
  rawSignature : List UInt8

def Jws.payload (jws : Jws) : Table String (Json String) := payloadOf jws.claims jws.iat jws.exp

def signingText (headerB64 payloadB64 : List Char) : List Char := headerB64 ++ '.' :: payloadB64

def Jws.signingInput (jws : Jws) : List UInt8 :=
  encodeUtf8 (signingText jws.headerB64 jws.payloadB64)

def Jws.token (jws : Jws) : String :=
  .ofList (jws.headerB64 ++ '.' :: (jws.payloadB64 ++ '.' :: b64urlEncode jws.rawSignature))

/-- The times of the token that is created. -/
def lifetime (c : Creation κ) : Except Raised (ℤ × ℤ) :=
  match (Value.float (timestamp c.now)).toInt with
  | .error e => .error e
  | .ok iat =>
    if c.now + c.ttl < minInstant ∨ maxInstant < c.now + c.ttl then .error (.builtin .overflow)
    else
      match (Value.float (timestamp (c.now + c.ttl))).toInt with
      | .error e => .error e
      | .ok exp => .ok (iat, exp)

def headerOf (kid : ℤ) : List (String × Json String) :=
  [("alg", .leaf (.str jwtAlg)), ("typ", .leaf (.str "JWT")),
    ("kid", .leaf (.str (.ofList (intText kid))))]

def signToken (c : Creation κ) (iat exp kid : ℤ) : Except CreateError Jws :=
  if intMaxStrDigits < (Nat.toDigits 10 kid.natAbs).length then .error (.raised (.builtin .value))
  else
    let payload := payloadOf c.claims iat exp
    match dumps c.limit (.dict (headerOf kid)), dumps c.limit (.dict payload.rows) with
    | some header, some text =>
      let headerB64 := b64urlEncode header
      let payloadB64 := b64urlEncode text
      match sign c.signData (encodeUtf8 (signingText headerB64 payloadB64)) kid with
      | .error e => .error (.vault e)
      | .ok rawSignature => .ok ⟨c.claims, iat, exp, kid, headerB64, payloadB64, rawSignature⟩
    | _, _ => .error .notSerializable

def createToken (c : Creation κ) : Except CreateError Jws × Cache κ :=
  match lifetime c with
  | .error e => (.error (.raised e), c.cache)
  | .ok (iat, exp) =>
    match currentKeyVersion c.visit c.cache with
    | (.error e, cache) => (.error (.vault e), cache)
    | (.ok kid, cache) => (signToken c iat exp kid, cache)

/-- A token that was created, with what Vault signed for it. -/
structure Issue (κ : Type) where
  creation : Creation κ
  jws : Jws
  reply : SignReply κ
  created : (createToken creation).1 = .ok jws
  replied : creation.signData jws.signingInput jws.kid = .ok reply

end Issuing

section Decoding

variable {κ : Type}

/-- Why a token is refused, as the text of an `InvalidTokenError` says. -/
inductive Reason
  | malformed
  | unexpectedAlg (alg : Option Value)
  | unverifiable
  | badSignature
  | rotatedAway (kid : ℤ)
  | expired

inductive DecodeError
  | invalidToken (reason : Reason)
  | raised (e : Raised)
  | vault

/-- A token that is taken apart. -/
structure Token where
  headerB64 : List Char
  payloadB64 : List Char
  header : Value
  payload : Value
  rawSignature : List UInt8
  kid : ℤ

/-- What the first block of `decode_access_token` reads. -/
def readToken (limit : ℕ) (token : String) : Except Raised Token :=
  match token.toList.splitOn '.' with
  | [headerB64, payloadB64, signatureB64] =>
    match loadPart limit headerB64 with
    | .error e => .error e
    | .ok header =>
      match loadPart limit payloadB64 with
      | .error e => .error e
      | .ok payload =>
        match b64urlDecode signatureB64 with
        | none => .error (.builtin .value)
        | some rawSignature =>
          match (header.item "kid").bind Value.toInt with
          | .error e => .error e
          | .ok kid => .ok ⟨headerB64, payloadB64, header, payload, rawSignature, kid⟩
  | _ => .error (.builtin .value)

/-- The exceptions that are turned into an `InvalidTokenError`. -/
def caught : Raised → DecodeError
  | .builtin .value | .builtin .key | .builtin .type => .invalidToken .malformed
  | e => .raised e

/-- A call of `decode_access_token`: what it finds when it verifies the signature, and when it reads
the least version that may be decrypted. -/
structure Call (κ : Type) where
  limit : ℕ
  now : ℤ
  verifying : Visit κ
  reading : Visit κ

variable (accepts : κ → List UInt8 → ℕ → ℕ → Bool)

def checkSignature (call : Call κ) (signingInput : List UInt8) (t : Token) (cache : Cache κ) :
    Except VaultError (Bool × ℤ) × Cache κ :=
  match verify accepts signingInput t.rawSignature t.kid call.verifying cache with
  | (.error e, cache) => (.error e, cache)
  | (.ok verified, cache) =>
    match minDecryptionVersion call.reading cache with
    | (.error e, cache) => (.error e, cache)
    | (.ok version, cache) => (.ok (verified, version), cache)

def judge (now : ℤ) (t : Token) (verified : Bool) (currentMinVersion : ℤ) :
    Except DecodeError Value :=
  if !verified then .error (.invalidToken .badSignature)
  else if t.kid < currentMinVersion then .error (.invalidToken (.rotatedAway t.kid))
  else
    match t.payload.get "exp" with
    | .error e => .error (.raised e)
    | .ok none => .error (.invalidToken .expired)
    | .ok (some exp) =>
      match exp.exceededBy (timestamp now) with
      | none => .error (.raised (.builtin .type))
      | some true => .error (.invalidToken .expired)
      | some false => .ok t.payload

def decodeAccessToken (call : Call κ) (token : String) (cache : Cache κ) :
    Except DecodeError Value × Cache κ :=
  match readToken call.limit token with
  | .error e => (.error (caught e), cache)
  | .ok t =>
    match t.header.get "alg" with
    | .error e => (.error (.raised e), cache)
    | .ok alg =>
      if !alg.any (Value.isText jwtAlg) then (.error (.invalidToken (.unexpectedAlg alg)), cache)
      else
        match encodeAscii (signingText t.headerB64 t.payloadB64) with
        | none => (.error (.raised (.builtin .value)), cache)
        | some signingInput =>
          match checkSignature accepts call signingInput t cache with
          | (.error .unavailable, cache) => (.error (.invalidToken .unverifiable), cache)
          | (.error .other, cache) => (.error .vault, cache)
          | (.ok (verified, version), cache) => (judge call.now t verified version, cache)

end Decoding

section Subjects

-- `str` of a value that was loaded, which never raises
variable (str : Value → Text)

def unverifiedSubject (limit : ℕ) (authorizationHeader : Option String) :
    Except Raised (Option Text) :=
  match ApiRateLimit.bearerToken authorizationHeader with
  | none => .ok none
  | some token =>
    match token.toList.splitOn '.' with
    | [_, payloadB64, _] =>
      match loadPart limit payloadB64 with
      | .error (.builtin .value) => .ok none
      | .error e => .error e
      | .ok payload => (payload.get "sub").map (Option.map str)
    | _ => .ok none

end Subjects

section Parts

theorem b64urlDecode_encode (data : List UInt8) : b64urlDecode (b64urlEncode data) = some data := by
  rw [b64urlDecode, b64urlEncode, Base64.rdropWhile_urlsafeB64encode]
  exact Base64.urlsafeB64decode_encode data

theorem forall_mem_b64urlEncode {data : List UInt8} {c : Char} (h : c ∈ b64urlEncode data) :
    c.toNat < 128 ∧ c ≠ '.' := by
  rw [b64urlEncode, Base64.rdropWhile_urlsafeB64encode] at h
  have hall : ∀ v < 64, (Base64.charOf v).toNat < 128 ∧ Base64.charOf v ≠ '.' := fun v hv ↦
    ⟨(Base64.charOf_spec hv).2.1, (Base64.charOf_spec hv).2.2.2⟩
  exact @Base64.forall_mem_characters (fun c ↦ c.toNat < 128 ∧ c ≠ '.') hall data c h

/-- A part whose decoding does not fail is ASCII. -/
theorem all_ascii_of_b64urlDecode {part : List Char} {bytes : List UInt8}
    (h : b64urlDecode part = some bytes) : ∀ c ∈ part, c.toNat < 128 := by
  rw [b64urlDecode, Base64.urlsafeB64decode] at h
  split_ifs at h with hall
  intro c hc
  exact of_decide_eq_true (List.all_eq_true.mp hall c (List.mem_append_left _ hc))

theorem all_ascii_of_loadPart {limit : ℕ} {part : List Char} {v : Value}
    (h : loadPart limit part = .ok v) : ∀ c ∈ part, c.toNat < 128 := by
  rw [loadPart] at h
  split at h
  · cases h
  · next hbytes => exact all_ascii_of_b64urlDecode hbytes

theorem encodeUtf8_injective {text text' : List Char} (htext : ∀ c ∈ text, c.toNat < 128)
    (htext' : ∀ c ∈ text', c.toNat < 128) (h : encodeUtf8 text = encodeUtf8 text') :
    text = text' := by
  have hdecode := congrArg decodeUtf8 h
  rw [encodeUtf8_of_ascii htext, encodeUtf8_of_ascii htext', decodeUtf8_ascii htext,
    decodeUtf8_ascii htext'] at hdecode
  exact codePoints_injective (Option.some.inj hdecode)

theorem loadPart_error {limit : ℕ} {part : List Char} {e : Raised}
    (h : loadPart limit part = .error e) : e = .builtin .value ∨ e = .recursionError := by
  rw [loadPart] at h
  split at h
  · cases h
    exact .inl rfl
  · split at h
    · next e' _ =>
      cases h
      cases e' with
      | valueError => exact .inl rfl
      | recursionError => exact .inr rfl
    · cases h

theorem inOrder_dict (members : List (String × Json String)) :
    inOrder (.dict members) = .dict (sortTexts (members.map fun m ↦ (m.1, inOrder m.2))) :=
  Json.fold_dict _ _ _ members

theorem sortTexts_perm {β : Type} (members : List (String × β)) :
    (sortTexts members).Perm members := List.perm_insertionSort _ members

theorem dumps_eq_some {limit : ℕ} {d : Json String} {data : List UInt8}
    (h : dumps limit d = some data) :
    Writable (inOrder d) ∧ data = encodeUtf8 (inOrder d).text := by
  rw [dumps] at h
  split_ifs at h with hwritable
  exact ⟨hwritable.1, (Option.some.inj h).symm⟩

/-- What was dumped loads again, unless it is too deep. -/
theorem loadPart_dumps {limit : ℕ} {d : Json String} {data : List UInt8}
    (h : dumps limit d = some data) (limit' : ℕ) :
    loadPart limit' (b64urlEncode data) =
      if depth (inOrder d) ≤ limit' then .ok (ofJson (inOrder d)) else .error .recursionError := by
  obtain ⟨hwritable, rfl⟩ := dumps_eq_some h
  rw [loadPart, b64urlDecode_encode]
  simp only [loads_text hwritable, readAs]
  split_ifs <;> rfl

end Parts

section Issues

variable {κ : Type}

theorem keys_headerOf_nodup (kid : ℤ) : ((headerOf kid).map Prod.fst).Nodup := by
  have hkeys : (headerOf kid).map Prod.fst = ["alg", "typ", "kid"] := rfl
  rw [hkeys]
  decide

/-- What a value's mapping reads as, in the order of its keys. -/
theorem keys_inOrder {members : List (String × Json String)} (h : (members.map Prod.fst).Nodup) :
    ((sortTexts (members.map fun m ↦ (m.1, inOrder m.2))).map Prod.fst).Nodup := by
  have hperm := (sortTexts_perm (members.map fun m ↦ (m.1, inOrder m.2))).map Prod.fst
  have hkeys : (members.map fun m ↦ (m.1, inOrder m.2)).map Prod.fst = members.map Prod.fst := by
    simp only [List.map_map, Function.comp_def]
  rw [hkeys] at hperm
  exact hperm.nodup_iff.mpr h

theorem mem_inOrder {members : List (String × Json String)} {key : String} {d : Json String}
    (h : (key, d) ∈ members) :
    (key, inOrder d) ∈ sortTexts (members.map fun m ↦ (m.1, inOrder m.2)) :=
  (sortTexts_perm _).mem_iff.mpr (List.mem_map.mpr ⟨_, h, rfl⟩)

theorem item_inOrder {members : List (String × Json String)} (hkeys : (members.map Prod.fst).Nodup)
    {key : String} {d : Json String} (h : (key, d) ∈ members) :
    (ofJson (inOrder (.dict members))).item key = .ok (ofJson (inOrder d)) := by
  rw [inOrder_dict]
  exact item_ofJson_dict (keys_inOrder hkeys) (mem_inOrder h)

theorem get_inOrder {members : List (String × Json String)} (hkeys : (members.map Prod.fst).Nodup)
    {key : String} {a : Leaf} (ha : a ≠ .null) (h : (key, .leaf a) ∈ members) :
    (ofJson (inOrder (.dict members))).get key = .ok (some (leafValue a)) := by
  rw [inOrder_dict]
  exact get_ofJson_dict (keys_inOrder hkeys) ha (mem_inOrder h)

namespace Jws

variable (jws : Jws)

/-- What the parts of the token are loaded as. -/
def headerValue : Value := ofJson (inOrder (.dict (headerOf jws.kid)))

def value : Value := ofJson (inOrder (.dict jws.payload.rows))

theorem get_exp : jws.value.get "exp" = .ok (some (.int jws.exp)) := by
  have hmem : ("exp", .leaf (.int jws.exp)) ∈ jws.payload.rows := by
    rw [← Table.get?_eq_some, payload, payloadOf, Table.get?_assign, if_pos rfl]
  exact get_inOrder jws.payload.nodup (by simp) hmem

theorem get_alg : jws.headerValue.get "alg" = .ok (some (.str (textOf jwtAlg))) := by
  have hmem : ("alg", .leaf (.str jwtAlg)) ∈ headerOf jws.kid := by simp [headerOf]
  exact get_inOrder (keys_headerOf_nodup jws.kid) (by simp) hmem

theorem item_kid :
    jws.headerValue.item "kid" = .ok (.str (textOf (.ofList (intText jws.kid)))) := by
  have hmem : ("kid", .leaf (.str (.ofList (intText jws.kid)))) ∈ headerOf jws.kid := by
    simp [headerOf]
  exact item_inOrder (keys_headerOf_nodup jws.kid) hmem

end Jws

/-- What is known of a token that was created. -/
structure WellIssued (c : Creation κ) (jws : Jws) : Prop where
  claims : jws.claims = c.claims
  lifetime : lifetime c = .ok (jws.iat, jws.exp)
  kid_length : (Nat.toDigits 10 jws.kid.natAbs).length ≤ intMaxStrDigits
  header : ∃ data, dumps c.limit (.dict (headerOf jws.kid)) = some data ∧
    jws.headerB64 = b64urlEncode data
  payload : ∃ data, dumps c.limit (.dict jws.payload.rows) = some data ∧
    jws.payloadB64 = b64urlEncode data
  signed : sign c.signData jws.signingInput jws.kid = .ok jws.rawSignature

theorem wellIssued_of_signToken {c : Creation κ} {iat exp kid : ℤ} {jws : Jws}
    (hlife : lifetime c = .ok (iat, exp)) (h : signToken c iat exp kid = .ok jws) :
    WellIssued c jws := by
  rw [signToken] at h
  split_ifs at h with hlength
  dsimp only at h
  split at h
  · next header text hheader htext =>
    split at h
    · cases h
    · next rawSignature hsign =>
      obtain rfl := Except.ok.inj h
      exact ⟨rfl, hlife, not_lt.mp hlength, ⟨header, hheader, rfl⟩, ⟨text, htext, rfl⟩, hsign⟩
  · cases h

theorem Issue.wellIssued (i : Issue κ) : WellIssued i.creation i.jws := by
  have h := i.created
  rw [createToken] at h
  split at h
  · cases h
  · next iat exp hlife =>
    split at h
    · cases h
    · exact wellIssued_of_signToken hlife h

variable (i : Issue κ)

theorem Issue.loadPart_headerB64 (limit : ℕ) :
    loadPart limit i.jws.headerB64 =
      if depth (inOrder (.dict (headerOf i.jws.kid))) ≤ limit then .ok i.jws.headerValue
      else .error .recursionError := by
  obtain ⟨data, hdata, heq⟩ := i.wellIssued.header
  rw [heq, loadPart_dumps hdata, Jws.headerValue]

theorem Issue.loadPart_payloadB64 (limit : ℕ) :
    loadPart limit i.jws.payloadB64 =
      if depth (inOrder (.dict i.jws.payload.rows)) ≤ limit then .ok i.jws.value
      else .error .recursionError := by
  obtain ⟨data, hdata, heq⟩ := i.wellIssued.payload
  rw [heq, loadPart_dumps hdata, Jws.value]

theorem Issue.toInt_kid :
    (i.jws.headerValue.item "kid").bind Value.toInt = .ok i.jws.kid := by
  rw [Jws.item_kid, Except.bind, Value.toInt_str_intText i.wellIssued.kid_length]

theorem Issue.forall_mem_headerB64 : ∀ c ∈ i.jws.headerB64, c.toNat < 128 ∧ c ≠ '.' := by
  obtain ⟨data, -, heq⟩ := i.wellIssued.header
  rw [heq]
  exact fun c ↦ forall_mem_b64urlEncode

theorem Issue.forall_mem_payloadB64 : ∀ c ∈ i.jws.payloadB64, c.toNat < 128 ∧ c ≠ '.' := by
  obtain ⟨data, -, heq⟩ := i.wellIssued.payload
  rw [heq]
  exact fun c ↦ forall_mem_b64urlEncode

end Issues

section Reading

/-- The three parts of a token, of which the first two are loaded. -/
structure Loads (limit : ℕ) (token : String) (headerB64 payloadB64 signatureB64 : List Char)
    (header payload : Value) (rawSignature : List UInt8) : Prop where
  parts : token.toList.splitOn '.' = [headerB64, payloadB64, signatureB64]
  header : loadPart limit headerB64 = .ok header
  payload : loadPart limit payloadB64 = .ok payload
  signature : b64urlDecode signatureB64 = some rawSignature

/-- A token that can be taken apart. -/
def WellFormed (limit : ℕ) (token : String) (t : Token) : Prop :=
  (∃ signatureB64, Loads limit token t.headerB64 t.payloadB64 signatureB64 t.header t.payload
    t.rawSignature) ∧ (t.header.item "kid").bind Value.toInt = .ok t.kid

/-- A header that is nested too deep, or such a payload after a header that is loaded. -/
def TooDeep (limit : ℕ) (token : String) : Prop :=
  ∃ headerB64 payloadB64 signatureB64,
    token.toList.splitOn '.' = [headerB64, payloadB64, signatureB64] ∧
      (loadPart limit headerB64 = .error .recursionError ∨
        (∃ header, loadPart limit headerB64 = .ok header) ∧
          loadPart limit payloadB64 = .error .recursionError)

/-- Three parts that can be read, with an infinite float for the key version. -/
def InfiniteKid (limit : ℕ) (token : String) : Prop :=
  ∃ headerB64 payloadB64 signatureB64 header payload rawSignature negative,
    Loads limit token headerB64 payloadB64 signatureB64 header payload rawSignature ∧
      header.item "kid" = .ok (.float (.infinite negative))

variable {limit : ℕ} {token : String}

theorem readToken_of_loads {headerB64 payloadB64 signatureB64 : List Char} {header payload : Value}
    {rawSignature : List UInt8}
    (h : Loads limit token headerB64 payloadB64 signatureB64 header payload rawSignature) :
    readToken limit token = ((header.item "kid").bind Value.toInt).map fun kid ↦
      ⟨headerB64, payloadB64, header, payload, rawSignature, kid⟩ := by
  rw [readToken, h.parts]
  simp only [h.header, h.payload, h.signature]
  cases (header.item "kid").bind Value.toInt <;> rfl

theorem readToken_of_wellFormed {t : Token} (h : WellFormed limit token t) :
    readToken limit token = .ok t := by
  obtain ⟨⟨signatureB64, hloads⟩, hkid⟩ := h
  rw [readToken_of_loads hloads, hkid]
  rfl

theorem readToken_of_tooDeep (h : TooDeep limit token) :
    readToken limit token = .error .recursionError := by
  obtain ⟨headerB64, payloadB64, signatureB64, hparts, hheader | ⟨⟨header, hheader⟩, hpayload⟩⟩ := h
  · rw [readToken, hparts]
    simp only [hheader]
  · rw [readToken, hparts]
    simp only [hheader, hpayload]

theorem readToken_of_infiniteKid (h : InfiniteKid limit token) :
    readToken limit token = .error (.builtin .overflow) := by
  obtain ⟨headerB64, payloadB64, signatureB64, header, payload, rawSignature, negative, hloads,
    hkid⟩ := h
  rw [readToken_of_loads hloads, hkid]
  rfl

theorem kid_cases (header : Value) :
    (∃ kid, (header.item "kid").bind Value.toInt = .ok kid) ∨
      (∃ negative, header.item "kid" = .ok (.float (.infinite negative))) ∨
      ∃ e, (header.item "kid").bind Value.toInt = .error e ∧
        caught e = .invalidToken .malformed := by
  cases hitem : header.item "kid" with
  | error e =>
    refine .inr (.inr ⟨e, rfl, ?_⟩)
    rcases Value.item_eq_error hitem with rfl | rfl <;> rfl
  | ok v =>
    cases hint : v.toInt with
    | ok kid => exact .inl ⟨kid, hint⟩
    | error e =>
      rcases Value.toInt_eq_error hint with ⟨⟨b, rfl⟩, rfl⟩ | he
      · exact .inr (.inl ⟨b, rfl⟩)
      · refine .inr (.inr ⟨e, hint, ?_⟩)
        rcases he with rfl | rfl <;> rfl

theorem loadPart_cases (part : List Char) :
    (∃ v, loadPart limit part = .ok v) ∨ loadPart limit part = .error .recursionError ∨
      loadPart limit part = .error (.builtin .value) := by
  cases h : loadPart limit part with
  | ok v => exact .inl ⟨v, rfl⟩
  | error e => rcases loadPart_error h with rfl | rfl <;> simp

/-- What reading a token can come to. -/
theorem readToken_cases (limit : ℕ) (token : String) :
    (∃ t, WellFormed limit token t) ∨ TooDeep limit token ∨ InfiniteKid limit token ∨
      ∃ e, readToken limit token = .error e ∧ caught e = .invalidToken .malformed := by
  by_cases hparts : ∃ headerB64 payloadB64 signatureB64,
      token.toList.splitOn '.' = [headerB64, payloadB64, signatureB64]
  · obtain ⟨headerB64, payloadB64, signatureB64, hparts⟩ := hparts
    rcases @loadPart_cases limit headerB64 with ⟨header, hheader⟩ | hheader | hheader
    · rcases @loadPart_cases limit payloadB64 with ⟨payload, hpayload⟩ | hpayload | hpayload
      · cases hsignature : b64urlDecode signatureB64 with
        | none =>
          refine .inr (.inr (.inr ⟨.builtin .value, ?_, rfl⟩))
          rw [readToken, hparts]
          simp only [hheader, hpayload, hsignature]
        | some rawSignature =>
          have hloads : Loads limit token headerB64 payloadB64 signatureB64 header payload
              rawSignature := ⟨hparts, hheader, hpayload, hsignature⟩
          rcases kid_cases header with ⟨kid, hkid⟩ | ⟨negative, hkid⟩ | ⟨e, hkid, he⟩
          · exact .inl ⟨⟨headerB64, payloadB64, header, payload, rawSignature, kid⟩,
              ⟨signatureB64, hloads⟩, hkid⟩
          · exact .inr (.inr (.inl ⟨_, _, _, _, _, _, negative, hloads, hkid⟩))
          · refine .inr (.inr (.inr ⟨e, ?_, he⟩))
            rw [readToken_of_loads hloads, hkid]
            rfl
      · exact .inr (.inl ⟨_, _, _, hparts, .inr ⟨⟨header, hheader⟩, hpayload⟩⟩)
      · refine .inr (.inr (.inr ⟨.builtin .value, ?_, rfl⟩))
        rw [readToken, hparts]
        simp only [hheader, hpayload]
    · exact .inr (.inl ⟨_, _, _, hparts, .inl hheader⟩)
    · refine .inr (.inr (.inr ⟨.builtin .value, ?_, rfl⟩))
      rw [readToken, hparts]
      simp only [hheader]
  · refine .inr (.inr (.inr ⟨.builtin .value, ?_, rfl⟩))
    rw [readToken]
    split
    · next hsplit => exact absurd ⟨_, _, _, hsplit⟩ hparts
    · rfl

end Reading

section Decoding

variable {κ : Type}

/-- What Vault's errors come to. -/
def afterVault (refreshed : Except VaultError (Cache κ)) (f : Cache κ → Except DecodeError Value) :
    Except DecodeError Value :=
  match refreshed with
  | .error .unavailable => .error (.invalidToken .unverifiable)
  | .error .other => .error .vault
  | .ok cache => f cache

theorem isText_textOf (s : String) : (Value.str (textOf s)).isText s = true := by
  rw [Value.isText, decide_eq_true rfl]

/-- A header that names the algorithm. -/
def HasAlg (header : Value) : Prop := ∃ alg, header.get "alg" = .ok (some alg) ∧ alg.isText jwtAlg

variable {accepts : κ → List UInt8 → ℕ → ℕ → Bool} {call : Call κ} {token : String} {cache : Cache κ}
  {t : Token}

theorem exists_alg (h : WellFormed call.limit token t) : ∃ alg, t.header.get "alg" = .ok alg := by
  obtain ⟨-, hkid⟩ := h
  cases hitem : t.header.item "kid" with
  | error e =>
    rw [hitem] at hkid
    cases hkid
  | ok v =>
    obtain ⟨entries, hentries⟩ := Value.exists_dict_of_item hitem
    rw [hentries, Value.get]
    split <;> exact ⟨_, rfl⟩

theorem WellFormed.ascii (h : WellFormed call.limit token t) :
    ∀ c ∈ signingText t.headerB64 t.payloadB64, c.toNat < 128 := by
  obtain ⟨⟨signatureB64, hloads⟩, -⟩ := h
  intro c hc
  rcases List.mem_append.mp hc with hc | hc
  · exact all_ascii_of_loadPart hloads.header c hc
  · rcases List.mem_cons.mp hc with rfl | hc
    · decide
    · exact all_ascii_of_loadPart hloads.payload c hc

theorem encodeAscii_signingText (h : WellFormed call.limit token t) :
    encodeAscii (signingText t.headerB64 t.payloadB64) =
      some (encodeUtf8 (signingText t.headerB64 t.payloadB64)) := by
  have hall : (signingText t.headerB64 t.payloadB64).all (·.toNat < 128) :=
    List.all_eq_true.mpr fun c hc ↦ decide_eq_true (h.ascii c hc)
  rw [encodeAscii, if_pos hall]

theorem decode_of_not_hasAlg (h : WellFormed call.limit token t) (halg : ¬ HasAlg t.header) :
    ∃ alg, (decodeAccessToken accepts call token cache).1 =
      .error (.invalidToken (.unexpectedAlg alg)) := by
  obtain ⟨alg, hget⟩ := exists_alg h
  have hne : alg.any (Value.isText jwtAlg) = false := by
    cases alg with
    | none => rfl
    | some alg => exact Bool.eq_false_iff.mpr fun htext ↦ halg ⟨alg, hget, htext⟩
  refine ⟨alg, ?_⟩
  rw [decodeAccessToken, readToken_of_wellFormed h]
  simp only [hget, hne, Bool.not_false, if_true]

/-- A token that names the algorithm is judged, once Vault has been asked. -/
theorem decode_of_hasAlg (h : WellFormed call.limit token t) (halg : HasAlg t.header) :
    (decodeAccessToken accepts call token cache).1 =
      afterVault (cacheForKey t.kid call.verifying cache) fun seen ↦
        afterVault (cacheForVersions call.reading seen) fun current ↦
          judge call.now t (acceptsRaw accepts (encodeUtf8 (signingText t.headerB64 t.payloadB64))
            t.rawSignature (keyOf seen t.kid)) current.minDecryptionVersion := by
  obtain ⟨alg, hget, htext⟩ := halg
  rw [decodeAccessToken, readToken_of_wellFormed h]
  simp only [hget, Option.any_some, htext, Bool.not_true, Bool.false_eq_true, if_false,
    encodeAscii_signingText h, checkSignature, verify_eq, minDecryptionVersion]
  cases cacheForKey t.kid call.verifying cache with
  | error e => cases e <;> rfl
  | ok seen =>
    simp only [answer, afterVault]
    cases cacheForVersions call.reading seen with
    | error e => cases e <;> rfl
    | ok current => rfl

end Decoding

end TradingOS.Core.AccessTokens
