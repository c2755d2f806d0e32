import Mathlib.Data.Set.Defs
import TradingOS.Core.AccessTokens
import TradingOS.Lib.Fallible

namespace TradingOS.Core.AccessTokens

open Lib Lib.JsonLoads VaultTransit

section Signing

variable {κ : Type}

/-- A key takes exactly the signatures that it was used for. -/
def AcceptsIssued (accepts : κ → List UInt8 → ℕ → ℕ → Bool) (issued : Set (Issue κ)) : Prop :=
  ∀ key message r s, accepts key message r s = true ↔
    ∃ i ∈ issued, i.reply.key = key ∧ i.jws.signingInput = message ∧ i.reply.r = r ∧ i.reply.s = s

/-- The key version of the token is known with the key that signed it, and not rotated away. -/
def LiveAt (i : Issue κ) (call : Call κ) (cache : Cache κ) : Prop :=
  ∃ seen current, cacheForKey i.jws.kid call.verifying cache = .ok seen ∧
    keyOf seen i.jws.kid = some i.reply.key ∧
      cacheForVersions call.reading seen = .ok current ∧
        current.minDecryptionVersion ≤ i.jws.kid

def NotExpired (i : Issue κ) (now : ℤ) : Prop :=
  Number.lt (.finite i.jws.exp) (timestamp now) = false

variable (accepts : κ → List UInt8 → ℕ → ℕ → Bool)

/-- The text names what was signed, with a signature that the key takes. -/
def Bears (token : String) (i : Issue κ) : Prop :=
  ∃ signatureB64 rawSignature,
    token.toList.splitOn '.' = [i.jws.headerB64, i.jws.payloadB64, signatureB64] ∧
      b64urlDecode signatureB64 = some rawSignature ∧
        acceptsRaw accepts i.jws.signingInput rawSignature (some i.reply.key) = true

/-- The payload of a token that was issued and is valid, or an `InvalidTokenError`. -/
def Answered (issued : Set (Issue κ)) (call : Call κ) (token : String) (cache : Cache κ) : Prop :=
  (∃ i ∈ issued, Bears accepts token i ∧ LiveAt i call cache ∧ NotExpired i call.now ∧
    (decodeAccessToken accepts call token cache).1 = .ok i.jws.value) ∨
      ∃ reason, (decodeAccessToken accepts call token cache).1 = .error (.invalidToken reason)

/-- A read of the keys that is needed fails with another error than that Vault is unavailable. -/
def VaultRaises (call : Call κ) (token : String) (cache : Cache κ) : Prop :=
  ∃ t, WellFormed call.limit token t ∧ HasAlg t.header ∧
    (cacheForKey t.kid call.verifying cache = .error .other ∨
      ∃ seen, cacheForKey t.kid call.verifying cache = .ok seen ∧
        cacheForVersions call.reading seen = .error .other)

variable {accepts} {issued : Set (Issue κ)} {call : Call κ} {token : String} {cache : Cache κ}
  {t : Token} {i : Issue κ}

theorem dot_notMem_of_count {l r : List Char} (h : (signingText l r).count '.' = 1) : '.' ∉ l := by
  rw [signingText, List.count_append, List.count_cons_self] at h
  exact List.count_eq_zero.mp (by omega)

theorem count_signingText (i : Issue κ) :
    (signingText i.jws.headerB64 i.jws.payloadB64).count '.' = 1 := by
  have hheader : i.jws.headerB64.count '.' = 0 :=
    List.count_eq_zero.mpr fun h ↦ (i.forall_mem_headerB64 _ h).2 rfl
  have hpayload : i.jws.payloadB64.count '.' = 0 :=
    List.count_eq_zero.mpr fun h ↦ (i.forall_mem_payloadB64 _ h).2 rfl
  rw [signingText, List.count_append, List.count_cons_self, hheader, hpayload]

theorem ascii_signingText (i : Issue κ) :
    ∀ c ∈ signingText i.jws.headerB64 i.jws.payloadB64, c.toNat < 128 := by
  intro c hc
  rcases List.mem_append.mp hc with hc | hc
  · exact (i.forall_mem_headerB64 c hc).1
  · rcases List.mem_cons.mp hc with rfl | hc
    · decide
    · exact (i.forall_mem_payloadB64 c hc).1

/-- Where the signed bytes are those of a token, so are the parts. -/
theorem parts_of_signingInput (h : WellFormed call.limit token t)
    (hinput : i.jws.signingInput = encodeUtf8 (signingText t.headerB64 t.payloadB64)) :
    t.headerB64 = i.jws.headerB64 ∧ t.payloadB64 = i.jws.payloadB64 := by
  have htext : signingText i.jws.headerB64 i.jws.payloadB64 =
      signingText t.headerB64 t.payloadB64 :=
    encodeUtf8_injective (ascii_signingText i) h.ascii hinput
  have hcount := count_signingText i
  have hdot := dot_notMem_of_count hcount
  rw [htext] at hcount
  obtain ⟨hheader, hpayload⟩ := append_cons_inj hdot (dot_notMem_of_count hcount) htext
  exact ⟨hheader.symm, hpayload.symm⟩

/-- What a token with the parts of an issued one holds. -/
theorem WellFormed.eq_issue (h : WellFormed call.limit token t)
    (hparts : t.headerB64 = i.jws.headerB64 ∧ t.payloadB64 = i.jws.payloadB64) :
    t.header = i.jws.headerValue ∧ t.payload = i.jws.value ∧ t.kid = i.jws.kid := by
  obtain ⟨⟨signatureB64, hloads⟩, hkid⟩ := h
  have hheader := hloads.header
  have hpayload := hloads.payload
  rw [hparts.1, i.loadPart_headerB64] at hheader
  rw [hparts.2, i.loadPart_payloadB64] at hpayload
  split_ifs at hheader hpayload
  have hvalue := Except.ok.inj hheader
  rw [← hvalue, i.toInt_kid] at hkid
  exact ⟨hvalue.symm, (Except.ok.inj hpayload).symm, (Except.ok.inj hkid).symm⟩

/-- A signature that is taken is that of an issued token. -/
theorem exists_issue_of_acceptsRaw (hsigner : AcceptsIssued accepts issued)
    (h : WellFormed call.limit token t) {seen : Cache κ}
    (haccepts : acceptsRaw accepts (encodeUtf8 (signingText t.headerB64 t.payloadB64))
      t.rawSignature (keyOf seen t.kid) = true) :
    ∃ i ∈ issued, keyOf seen t.kid = some i.reply.key ∧
      t.headerB64 = i.jws.headerB64 ∧ t.payloadB64 = i.jws.payloadB64 := by
  cases hkey : keyOf seen t.kid with
  | none =>
    rw [hkey] at haccepts
    cases haccepts
  | some key =>
    rw [hkey, acceptsRaw, Bool.and_eq_true] at haccepts
    obtain ⟨i, hi, rfl, hinput, -⟩ := (hsigner _ _ _ _).mp haccepts.2
    exact ⟨i, hi, rfl, parts_of_signingInput h hinput⟩

/-- The verdict on the payload of an issued token. -/
theorem judge_of_issue {now : ℤ} (h : t.payload = i.jws.value) (verified : Bool) (version : ℤ) :
    judge now t verified version =
      if !verified then .error (.invalidToken .badSignature)
      else if t.kid < version then .error (.invalidToken (.rotatedAway t.kid))
      else if Number.lt (.finite i.jws.exp) (timestamp now) then .error (.invalidToken .expired)
      else .ok i.jws.value := by
  rw [judge, h, Jws.get_exp]
  simp only [Value.exceededBy, Value.number, Option.map_some]
  cases Number.lt (.finite i.jws.exp) (timestamp now) <;> rfl

theorem decode_of_error {e : Raised} (h : readToken call.limit token = .error e) :
    (decodeAccessToken accepts call token cache).1 = .error (caught e) := by
  rw [decodeAccessToken, h]

theorem decode_of_vaultRaises (h : VaultRaises call token cache) :
    (decodeAccessToken accepts call token cache).1 = .error .vault := by
  obtain ⟨t, ht, halg, hkey | ⟨seen, hseen, hversions⟩⟩ := h
  · rw [decode_of_hasAlg ht halg, hkey, afterVault]
  · rw [decode_of_hasAlg ht halg, hseen, afterVault, hversions, afterVault]

theorem not_answered_of_error {e : DecodeError}
    (h : (decodeAccessToken accepts call token cache).1 = .error e)
    (he : ∀ reason, e ≠ .invalidToken reason) : ¬ Answered accepts issued call token cache := by
  rintro (⟨i, -, -, -, -, hok⟩ | ⟨reason, herror⟩)
  · rw [h] at hok
    cases hok
  · rw [h] at herror
    exact he reason (Except.error.inj herror)

/-- What is judged is refused, or was issued. -/
theorem answered_of_judge (hsigner : AcceptsIssued accepts issued)
    (h : WellFormed call.limit token t) {seen current : Cache κ}
    (hseen : cacheForKey t.kid call.verifying cache = .ok seen)
    (hcurrent : cacheForVersions call.reading seen = .ok current)
    (hdecode : (decodeAccessToken accepts call token cache).1 =
      judge call.now t (acceptsRaw accepts (encodeUtf8 (signingText t.headerB64 t.payloadB64))
        t.rawSignature (keyOf seen t.kid)) current.minDecryptionVersion) :
    Answered accepts issued call token cache := by
  cases hverified : acceptsRaw accepts (encodeUtf8 (signingText t.headerB64 t.payloadB64))
      t.rawSignature (keyOf seen t.kid) with
  | false =>
    rw [hverified] at hdecode
    exact .inr ⟨.badSignature, hdecode⟩
  | true =>
    obtain ⟨i, hi, hkey, hparts⟩ := exists_issue_of_acceptsRaw hsigner h hverified
    obtain ⟨-, hpayload, hkid⟩ := h.eq_issue hparts
    rw [hverified, judge_of_issue hpayload, Bool.not_true, if_neg Bool.false_ne_true] at hdecode
    by_cases hrotated : t.kid < current.minDecryptionVersion
    · rw [if_pos hrotated] at hdecode
      exact .inr ⟨_, hdecode⟩
    · rw [if_neg hrotated] at hdecode
      by_cases hexpired : Number.lt (.finite i.jws.exp) (timestamp call.now) = true
      · rw [if_pos hexpired] at hdecode
        exact .inr ⟨.expired, hdecode⟩
      · rw [if_neg hexpired] at hdecode
        have hbears : Bears accepts token i := by
          obtain ⟨⟨signatureB64, hloads⟩, -⟩ := h
          refine ⟨signatureB64, t.rawSignature, ?_, hloads.signature, ?_⟩
          · rw [← hparts.1, ← hparts.2, hloads.parts]
          · rw [← hkey, Jws.signingInput, ← hparts.1, ← hparts.2, hverified]
        have hlive : LiveAt i call cache := by
          rw [LiveAt, ← hkid]
          exact ⟨seen, current, hseen, hkey, hcurrent, not_lt.mp hrotated⟩
        exact .inl ⟨i, hi, hbears, hlive, Bool.eq_false_iff.mpr hexpired, hdecode⟩

/-- A token that can be taken apart is answered, where Vault is there or unavailable. -/
theorem answered_of_wellFormed (hsigner : AcceptsIssued accepts issued)
    (h : WellFormed call.limit token t) (hvault : ¬ VaultRaises call token cache) :
    Answered accepts issued call token cache := by
  by_cases halg : HasAlg t.header
  · have hdecode := @decode_of_hasAlg _ accepts call token cache t h halg
    cases hseen : cacheForKey t.kid call.verifying cache with
    | error e =>
      rw [hseen] at hdecode
      cases e with
      | unavailable => exact .inr ⟨_, hdecode⟩
      | other => exact absurd ⟨t, h, halg, .inl hseen⟩ hvault
    | ok seen =>
      rw [hseen, afterVault] at hdecode
      cases hcurrent : cacheForVersions call.reading seen with
      | error e =>
        rw [hcurrent] at hdecode
        cases e with
        | unavailable => exact .inr ⟨_, hdecode⟩
        | other => exact absurd ⟨t, h, halg, .inr ⟨seen, hseen, hcurrent⟩⟩ hvault
      | ok current =>
        rw [hcurrent, afterVault] at hdecode
        exact answered_of_judge hsigner h hseen hcurrent hdecode
  · obtain ⟨alg, hdecode⟩ := @decode_of_not_hasAlg _ accepts _ _ cache _ h halg
    exact .inr ⟨_, hdecode⟩

/-- Parsing a token is total and exact but for what is not caught. -/
theorem answered_iff (hsigner : AcceptsIssued accepts issued) :
    Answered accepts issued call token cache ↔
      ¬ TooDeep call.limit token ∧ ¬ InfiniteKid call.limit token ∧
        ¬ VaultRaises call token cache := by
  constructor
  · intro hanswered
    refine ⟨fun hdeep ↦ ?_, fun hkid ↦ ?_, fun hvault ↦ ?_⟩
    · exact not_answered_of_error (decode_of_error (readToken_of_tooDeep hdeep)) nofun hanswered
    · exact not_answered_of_error (decode_of_error (readToken_of_infiniteKid hkid)) nofun hanswered
    · exact not_answered_of_error (decode_of_vaultRaises hvault) nofun hanswered
  · rintro ⟨hdeep, hkid, hvault⟩
    rcases readToken_cases call.limit token with ⟨t, h⟩ | h | h | ⟨e, h, he⟩
    · exact answered_of_wellFormed hsigner h hvault
    · exact absurd h hdeep
    · exact absurd h hkid
    · refine .inr ⟨.malformed, ?_⟩
      rw [decode_of_error h, he]

theorem splitOn_token (i : Issue κ) : i.jws.token.toList.splitOn '.' =
    [i.jws.headerB64, i.jws.payloadB64, b64urlEncode i.jws.rawSignature] := by
  have hheader : '.' ∉ i.jws.headerB64 := fun h ↦ (i.forall_mem_headerB64 _ h).2 rfl
  have hpayload : '.' ∉ i.jws.payloadB64 := fun h ↦ (i.forall_mem_payloadB64 _ h).2 rfl
  have hsignature : '.' ∉ b64urlEncode i.jws.rawSignature := fun h ↦
    (forall_mem_b64urlEncode h).2 rfl
  rw [Jws.token, String.toList_ofList, List.splitOn_append_cons_self_of_not_mem hheader,
    List.splitOn_append_cons_self_of_not_mem hpayload, List.splitOn_eq_singleton hsignature]

/-- The order of the keys does not change how deep a value is. -/
theorem depth_inOrder_le (d : Json String) : ∀ n, depth (inOrder d) ≤ n ↔ depth d ≤ n := by
  induction d using Json.ind with
  | hleaf a => exact fun n ↦ Iff.rfl
  | hlist items ih =>
    intro n
    have hlist : inOrder (.list items) = .list (items.map inOrder) := Json.fold_list _ _ _ items
    rw [hlist]
    cases n with
    | zero => exact iff_of_false not_depth_list_le_zero not_depth_list_le_zero
    | succ n =>
      rw [depth_list_le, depth_list_le, List.forall_mem_map]
      exact forall₂_congr fun d hd ↦ ih d hd n
  | hdict members ih =>
    intro n
    rw [inOrder_dict]
    cases n with
    | zero => exact iff_of_false not_depth_dict_le_zero not_depth_dict_le_zero
    | succ n =>
      have hmem (m : String × Json String) :
          m ∈ sortTexts (members.map fun m ↦ (m.1, inOrder m.2)) ↔
            m ∈ members.map fun m ↦ (m.1, inOrder m.2) := (sortTexts_perm _).mem_iff
      simp only [depth_dict_le, hmem, List.forall_mem_map]
      exact forall₂_congr fun m hm ↦ ih m hm n

theorem depth_headerOf_le (kid : ℤ) : depth (.dict (headerOf kid)) ≤ 1 := by
  rw [depth_dict_le]
  simp [headerOf, depth]

/-- How deep the payload of the token is. -/
def payloadDepth (i : Issue κ) : ℕ := depth (.dict i.jws.payload.rows)

theorem payloadDepth_pos (i : Issue κ) : 1 ≤ payloadDepth i := by
  have hpos := @not_depth_dict_le_zero i.jws.payload.rows
  rw [payloadDepth]
  omega

/-- The parts of an issued token that is not too deep. -/
def parsed (i : Issue κ) : Token where
  headerB64 := i.jws.headerB64
  payloadB64 := i.jws.payloadB64
  header := i.jws.headerValue
  payload := i.jws.value
  rawSignature := i.jws.rawSignature
  kid := i.jws.kid

theorem wellFormed_issue {limit : ℕ} (h : payloadDepth i ≤ limit) :
    WellFormed limit i.jws.token (parsed i) := by
  have hpos := payloadDepth_pos i
  have hheader := depth_headerOf_le i.jws.kid
  refine ⟨⟨_, splitOn_token i, ?_, ?_, b64urlDecode_encode _⟩, i.toInt_kid⟩
  · rw [parsed, i.loadPart_headerB64, if_pos ((depth_inOrder_le _ _).mpr (by omega))]
  · rw [parsed, i.loadPart_payloadB64, if_pos ((depth_inOrder_le _ _).mpr h)]

theorem tooDeep_issue {limit : ℕ} (h : ¬ payloadDepth i ≤ limit) : TooDeep limit i.jws.token := by
  refine ⟨_, _, _, splitOn_token i, ?_⟩
  rw [i.loadPart_headerB64, i.loadPart_payloadB64,
    if_neg fun hle ↦ h ((depth_inOrder_le _ _).mp hle)]
  split_ifs
  · exact .inr ⟨⟨_, rfl⟩, rfl⟩
  · exact .inl rfl

theorem accepts_issue (hsigner : AcceptsIssued accepts issued) (hi : i ∈ issued) :
    acceptsRaw accepts i.jws.signingInput i.jws.rawSignature (some i.reply.key) = true := by
  rw [acceptsRaw_of_sign i.replied i.wellIssued.signed, hsigner]
  exact ⟨i, hi, rfl, rfl, rfl, rfl⟩

/-- A token that was issued and is valid is decoded to its payload. -/
theorem decode_issue (hsigner : AcceptsIssued accepts issued) (hi : i ∈ issued)
    (hlive : LiveAt i call cache) (hexp : NotExpired i call.now)
    (hdepth : payloadDepth i ≤ call.limit) :
    (decodeAccessToken accepts call i.jws.token cache).1 = .ok i.jws.value := by
  obtain ⟨seen, current, hseen, hkey, hcurrent, hversion⟩ := hlive
  have halg : HasAlg (parsed i).header := ⟨_, i.jws.get_alg, isText_textOf jwtAlg⟩
  have hkid : (parsed i).kid = i.jws.kid := rfl
  have haccepts : acceptsRaw accepts
      (encodeUtf8 (signingText (parsed i).headerB64 (parsed i).payloadB64)) (parsed i).rawSignature
      (some i.reply.key) = true := accepts_issue hsigner hi
  rw [decode_of_hasAlg (wellFormed_issue hdepth) halg, hkid, hseen, afterVault, hcurrent, afterVault,
    hkey, haccepts, judge_of_issue rfl, Bool.not_true, if_neg Bool.false_ne_true, hkid,
    if_neg (not_lt.mpr hversion), if_neg (Bool.eq_false_iff.mp hexp)]

end Signing

section Subjects

variable {str : Value → Text} {limit : ℕ} {authorizationHeader : Option String}

/-- The middle part is nested too deep, or is loaded as something else than a mapping. -/
def BadPayload (limit : ℕ) (authorizationHeader : Option String) : Prop :=
  ∃ token headerB64 payloadB64 signatureB64,
    ApiRateLimit.bearerToken authorizationHeader = some token ∧
      token.toList.splitOn '.' = [headerB64, payloadB64, signatureB64] ∧
        (loadPart limit payloadB64 = .error .recursionError ∨
          ∃ payload, loadPart limit payloadB64 = .ok payload ∧
            ∀ entries, payload ≠ .dict entries)

theorem get_isOk_iff (v : Value) (key : String) :
    (∃ sub, v.get key = .ok sub) ↔ ∃ entries, v = .dict entries := by
  constructor
  · rintro ⟨sub, hsub⟩
    cases v with
    | dict entries => exact ⟨entries, rfl⟩
    | _ => cases hsub
  · rintro ⟨entries, rfl⟩
    rw [Value.get]
    split <;> exact ⟨_, rfl⟩

/-- A caller is named or not, unless the payload is bad. -/
theorem unverifiedSubject_isOk_iff :
    (∃ sub, unverifiedSubject str limit authorizationHeader = .ok sub) ↔
      ¬ BadPayload limit authorizationHeader := by
  cases hbearer : ApiRateLimit.bearerToken authorizationHeader with
  | none =>
    refine iff_of_true ⟨none, by rw [unverifiedSubject, hbearer]⟩ ?_
    rintro ⟨token, _, _, _, htoken, -⟩
    rw [hbearer] at htoken
    cases htoken
  | some token =>
    by_cases hparts : ∃ headerB64 payloadB64 signatureB64,
        token.toList.splitOn '.' = [headerB64, payloadB64, signatureB64]
    · obtain ⟨headerB64, payloadB64, signatureB64, hparts⟩ := hparts
      have hbad : BadPayload limit authorizationHeader ↔
          loadPart limit payloadB64 = .error .recursionError ∨
            ∃ payload, loadPart limit payloadB64 = .ok payload ∧
              ∀ entries, payload ≠ .dict entries := by
        constructor
        · rintro ⟨token', _, _, _, htoken, hsplit, hpayload⟩
          obtain rfl := Option.some.inj (hbearer.symm.trans htoken)
          rw [hparts] at hsplit
          obtain ⟨rfl, rfl, rfl⟩ : _ ∧ _ ∧ _ := by simpa using hsplit
          exact hpayload
        · exact fun h ↦ ⟨token, _, _, _, hbearer, hparts, h⟩
      rw [hbad, unverifiedSubject, hbearer]
      simp only [hparts]
      rcases @loadPart_cases limit payloadB64 with ⟨payload, hpayload⟩ | hpayload | hpayload
      · simp [hpayload, map_isOk_iff, get_isOk_iff]
      · simp [hpayload]
      · simp [hpayload]
    · refine iff_of_true ⟨none, ?_⟩ ?_
      · rw [unverifiedSubject, hbearer]
        dsimp only
        split
        · next hsplit => exact absurd ⟨_, _, _, hsplit⟩ hparts
        · rfl
      · rintro ⟨token', _, _, _, htoken, hsplit, -⟩
        obtain rfl := Option.some.inj (hbearer.symm.trans htoken)
        exact hparts ⟨_, _, _, hsplit⟩

/-- What the rate limiter makes of the middle part of a token, with `name` for `str`. -/
def subjectPayload (name : Value → String) (limit : ℕ) (payloadB64 : String) :
    ApiRateLimit.Payload :=
  match loadPart limit payloadB64.toList with
  | .error _ => .invalid
  | .ok payload =>
    match payload.get "sub" with
    | .error _ => .other
    | .ok sub => .object (sub.map name)

theorem get_eq_error {v : Value} {key : String} {e : Raised} (h : v.get key = .error e) :
    e = .builtin .missingAttribute := by
  cases v with
  | dict entries =>
    rw [Value.get] at h
    split at h <;> cases h
  | _ =>
    cases h
    rfl

/-- The rate limiter names the caller in the same way, where the payload is not too deep. -/
theorem unverifiedSubject_eq {name : Value → String}
    (h : unverifiedSubject (fun v ↦ textOf (name v)) limit authorizationHeader ≠
      .error .recursionError) :
    unverifiedSubject (fun v ↦ textOf (name v)) limit authorizationHeader =
      match ApiRateLimit.unverifiedSubject (subjectPayload name limit) authorizationHeader with
      | .error _ => .error (.builtin .missingAttribute)
      | .ok sub => .ok (sub.map textOf) := by
  cases hbearer : ApiRateLimit.bearerToken authorizationHeader with
  | none =>
    rw [unverifiedSubject, ApiRateLimit.unverifiedSubject, hbearer]
    rfl
  | some token =>
    rw [unverifiedSubject, hbearer] at h ⊢
    rw [ApiRateLimit.unverifiedSubject, hbearer]
    dsimp only at h ⊢
    generalize token.toList.splitOn '.' = parts at h ⊢
    -- only three parts are looked at
    rcases parts with _ | ⟨headerB64, _ | ⟨payloadB64, _ | ⟨signatureB64, _ | ⟨part, parts⟩⟩⟩⟩
    case cons.cons.cons.nil =>
      simp only [subjectPayload, String.toList_ofList] at h ⊢
      rcases @loadPart_cases limit payloadB64 with ⟨payload, hpayload⟩ | hpayload | hpayload
      · simp only [hpayload]
        cases hget : payload.get "sub" with
        | error e =>
          rw [get_eq_error hget]
          rfl
        | ok sub => cases sub <;> rfl
      · simp only [hpayload] at h
        exact absurd rfl h
      · simp only [hpayload]
        rfl
    all_goals rfl

end Subjects

section Meaning

variable {κ : Type} {accepts : κ → List UInt8 → ℕ → ℕ → Bool} {issued : Set (Issue κ)}

/-- The claims with the two times, as they are loaded, whatever the order of the keys. -/
def Holds (i : Issue κ) (v : Value) : Prop :=
  ∃ iat exp entries, lifetime i.creation = .ok (iat, exp) ∧ v = .dict entries ∧
    entries.Perm ((payloadOf i.creation.claims iat exp).rows.map fun m ↦
      (textOf m.1, ofJson (inOrder m.2)))

theorem holds_value (i : Issue κ) : Holds i i.jws.value := by
  let members := sortTexts (i.jws.payload.rows.map fun m ↦ (m.1, inOrder m.2))
  have hvalue : i.jws.value = .dict (members.map fun m ↦ (textOf m.1, ofJson m.2)) := by
    rw [Jws.value, inOrder_dict, ofJson_dict_eq]
  refine ⟨i.jws.iat, i.jws.exp, _, i.wellIssued.lifetime, hvalue, ?_⟩
  have hperm := (sortTexts_perm (i.jws.payload.rows.map fun m ↦ (m.1, inOrder m.2))).map
    fun m ↦ (textOf m.1, ofJson m.2)
  rw [List.map_map] at hperm
  rw [← i.wellIssued.claims]
  exact hperm

/-- Parsing a token is total and exact, and a token that was issued and is valid holds its claims,
exactly as far as nothing is nested too deep, no key version is infinite, no payload is a value
without `get`, and Vault fails only by being unavailable. -/
theorem parsing_meant_iff (hsigner : AcceptsIssued accepts issued) (str : Value → Text) :
    (∀ call token cache, Answered accepts issued call token cache ↔
      ¬ TooDeep call.limit token ∧ ¬ InfiniteKid call.limit token ∧
        ¬ VaultRaises call token cache) ∧
    (∀ limit authorizationHeader,
      (∃ sub, unverifiedSubject str limit authorizationHeader = .ok sub) ↔
        ¬ BadPayload limit authorizationHeader) ∧
    ∀ i ∈ issued, ∀ call cache, LiveAt i call cache → NotExpired i call.now →
      ((∃ v, (decodeAccessToken accepts call i.jws.token cache).1 = .ok v ∧ Holds i v) ↔
        payloadDepth i ≤ call.limit) := by
  refine ⟨fun _ _ _ ↦ answered_iff hsigner, fun _ _ ↦ unverifiedSubject_isOk_iff,
    fun i hi call cache hlive hexp ↦ ⟨?_, fun hdepth ↦ ?_⟩⟩
  · rintro ⟨v, hok, -⟩
    by_contra hdepth
    rw [decode_of_error (readToken_of_tooDeep (tooDeep_issue hdepth))] at hok
    cases hok
  · exact ⟨_, decode_issue hsigner hi hlive hexp hdepth, holds_value i⟩

/-- A login, and the request that comes after it. -/
def login : Creation Unit where
  claims := (Table.empty.assign "sub" (.leaf (.str "7"))).assign "role" (.leaf (.str "RiskManager"))
  ttl := 15 * 60 * 10 ^ 6
  now := 1753700000123456
  limit := 100
  visit := ⟨10, .ok ⟨[(1, some ())], 1, 1⟩⟩
  cache := {}
  signData _ version := .ok ⟨(), version, 3, 5⟩

def request : Call Unit where
  limit := 100
  now := 1753700001000000
  verifying := ⟨20, .error .unavailable⟩
  reading := ⟨20, .error .unavailable⟩

/-- The cache that the login leaves behind. -/
def warm : Cache Unit := ⟨[(1, ())], 1, 1, 10⟩

theorem login_decoded : ∃ i : Issue Unit, ∃ accepts v, i.creation = login ∧
    (decodeAccessToken accepts request i.jws.token warm).1 = .ok v ∧ Holds i v := by
  have hcreated : (createToken login).1.map (fun jws ↦
      (jws.kid, jws.exp, depth (.dict jws.payload.rows))) = .ok (1, 1753700900, 1) := by
    decide +kernel
  cases h : (createToken login).1 with
  | error e =>
    rw [h] at hcreated
    cases hcreated
  | ok jws =>
    rw [h] at hcreated
    obtain ⟨hkid, hexp, hdepth⟩ : jws.kid = 1 ∧ jws.exp = 1753700900 ∧
        depth (.dict jws.payload.rows) = 1 := by simpa [Except.map] using hcreated
    let i : Issue Unit := ⟨login, jws, ⟨(), jws.kid, 3, 5⟩, h, rfl⟩
    let accepts : Unit → List UInt8 → ℕ → ℕ → Bool := fun _ message r s ↦
      message = jws.signingInput ∧ r = 3 ∧ s = 5
    have hsigner : AcceptsIssued accepts {i} := by
      intro key message r s
      simp only [accepts, decide_eq_true_eq, Set.mem_singleton_iff, exists_eq_left, true_and, i]
      exact ⟨fun ⟨hm, hr, hs⟩ ↦ ⟨hm.symm, hr.symm, hs.symm⟩,
        fun ⟨hm, hr, hs⟩ ↦ ⟨hm.symm, hr.symm, hs.symm⟩⟩
    have hlive : LiveAt i request warm := by
      have hfresh : cacheIsFresh warm 20 = true := by decide +kernel
      have hkey : keyOf warm i.jws.kid = some () := by
        rw [show i.jws.kid = 1 from hkid]
        rfl
      refine ⟨warm, warm, ?_, hkey, ?_, ?_⟩
      · simp only [cacheForKey, request, hfresh, hkey, upToDate]
        rfl
      · simp only [cacheForVersions, request, hfresh, upToDate]
        rfl
      · rw [show i.jws.kid = 1 from hkid]
        decide
    have hfresh : NotExpired i request.now := by
      rw [NotExpired, show i.jws.exp = 1753700900 from hexp]
      decide +kernel
    obtain ⟨v, hv⟩ := ((parsing_meant_iff hsigner fun _ ↦ []).2.2 i rfl request warm hlive
      hfresh).mpr (by rw [payloadDepth, hdepth]; decide)
    exact ⟨i, accepts, v, rfl, hv⟩

/-- A token whose key version is infinite raises an `OverflowError`, and one whose payload is a list
an `AttributeError`. -/
theorem malformed_tokens_raise :
    AcceptsIssued (fun (_ : Unit) _ _ _ ↦ false) ∅ ∧
      ¬ Answered (fun (_ : Unit) _ _ _ ↦ false) ∅ request "eyJraWQiOkluZmluaXR5fQ.e30." warm ∧
        ¬ ∃ sub, unverifiedSubject (fun _ ↦ []) 100 (some "Bearer e30.W10.e30") = .ok sub := by
  have hread : (readToken 100 "eyJraWQiOkluZmluaXR5fQ.e30.").map (fun t ↦ t.kid) =
      .error (.builtin .overflow) := by
    decide +kernel
  have hsubject : unverifiedSubject (fun _ ↦ []) 100 (some "Bearer e30.W10.e30") =
      .error (.builtin .missingAttribute) := by
    decide +kernel
  refine ⟨?_, ?_, ?_⟩
  · intro key message r s
    simp
  · cases h : readToken 100 "eyJraWQiOkluZmluaXR5fQ.e30." with
    | ok t =>
      rw [h] at hread
      cases hread
    | error e =>
      rw [h] at hread
      obtain rfl := Except.error.inj hread
      exact not_answered_of_error (decode_of_error h) nofun
  · rintro ⟨sub, hok⟩
    rw [hsubject] at hok
    cases hok

end Meaning

end TradingOS.Core.AccessTokens
