import TradingOS.Data.MarketDataManager
import TradingOS.Lib.Table

namespace TradingOS.Data.ProviderFailover

open Lib (Table)

/-- A provider as the calls for one request find it, whatever it writes a candle as. -/
structure Provider (γ : Type) where
  name : String
  healthCheck : Bool
  answer : (attempt : ℕ) → Except Raised (List γ)

/-- What `_fetch_with_retry` comes back with, and the calls it made. -/
structure Fetched (γ : Type) where
  result : Except Raised (List γ)
  calls : ℕ

/-- A `MarketDataResult`. -/
structure Delivered (γ : Type) where
  candles : List γ
  providerRequested : String
  providerUsed : String

section Loops

variable {γ : Type} (validate : List γ → List DataQualityIssue)

/-- The loop of `_fetch_with_retry` from an attempt on. -/
def fetchFrom (p : Provider γ) (lastExc : Option ProviderError) (attempt : ℕ) : ℕ → Fetched γ
  | 0 =>
    match lastExc with
    | some e => ⟨.error (.provider e), 0⟩
    | none => ⟨.error (.other "AssertionError"), 0⟩
  | left + 1 =>
    match p.answer attempt with
    | .ok candles => ⟨.ok candles, 1⟩
    | .error (.provider e) =>
      if e.isRetryable then
        let rest := fetchFrom p (some e) (attempt + 1) left
        ⟨rest.result, rest.calls + 1⟩
      else ⟨.error (.provider e), 1⟩
    | .error (.other text) => ⟨.error (.other text), 1⟩

def fetchWithRetry (p : Provider γ) (maxRetries : ℕ) : Fetched γ := fetchFrom p none 0 maxRetries

/-- How a request ends, and the calls each provider in turn was sent. -/
structure Trace (γ : Type) where
  result : Except ManagerError (Delivered γ)
  calls : List ℕ

/-- The loop over the chain; `errors` is a `dict` by the provider's name. -/
def tryChain (maxRetries : ℕ) (requested : String) (errors : Table String ProviderFailure) :
    List (Provider γ) → Trace γ
  | [] => ⟨.error (.marketDataUnavailable errors.rows), []⟩
  | p :: ps =>
    if ¬ p.healthCheck then
      let rest := tryChain maxRetries requested (errors.assign p.name .healthCheck) ps
      ⟨rest.result, 0 :: rest.calls⟩
    else
      let fetched := fetchWithRetry p maxRetries
      match fetched.result with
      | .error (.provider e) =>
        let rest := tryChain maxRetries requested (errors.assign p.name (.raised e)) ps
        ⟨rest.result, fetched.calls :: rest.calls⟩
      | .error (.other text) => ⟨.error (.other text), [fetched.calls]⟩
      | .ok candles =>
        let issues := validate candles
        if issues ≠ [] then
          let rest := tryChain maxRetries requested (errors.assign p.name (.dataQuality issues)) ps
          ⟨rest.result, fetched.calls :: rest.calls⟩
        else ⟨.ok ⟨candles, requested, p.name⟩, [fetched.calls]⟩

end Loops

/-- A `MarketDataManager`, which cannot be made without a provider. -/
structure Manager (γ : Type) where
  providers : List (Provider γ)
  foProviders : Option (List (Provider γ))
  maxRetries : ℕ
  enableFailover : Bool
  configured : providers ≠ []

namespace Manager

variable {γ : Type} (validate : List γ → List DataQualityIssue) (m : Manager γ)
  (request : MarketRequest) (parseFoSymbol : String → Option FoContract)

def chain : List (Provider γ) :=
  let full :=
    match m.foProviders with
    | some (p :: ps) =>
      if MarketDataManager.isFoInstrument request parseFoSymbol then p :: ps else m.providers
    | _ => m.providers
  if m.enableFailover then full else full.take 1

def getHistoricalData : Trace γ :=
  match m.chain request parseFoSymbol with
  | [] => ⟨.error (.other "IndexError"), []⟩
  | p :: ps => tryChain validate m.maxRetries p.name .empty (p :: ps)

end Manager

section Outcomes

variable {γ : Type}

/-- The attempt ends in an error that is worth another one. -/
def Provider.Retried (p : Provider γ) (attempt : ℕ) : Prop :=
  ∃ e, p.answer attempt = .error (.provider e) ∧ e.isRetryable

/-- The answer of the first attempt that is not retried, or else of the last attempt. -/
def Provider.EndsWith (p : Provider γ) (maxRetries : ℕ) (r : Except Raised (List γ)) : Prop :=
  ∃ k < maxRetries, (∀ j < k, p.Retried j) ∧ p.answer k = r ∧ (p.Retried k → k + 1 = maxRetries)

/-- A healthy provider that delivers a valid list. -/
structure Supplies (validate : List γ → List DataQualityIssue) (maxRetries : ℕ) (p : Provider γ)
    (candles : List γ) : Prop where
  healthy : p.healthCheck
  delivers : p.EndsWith maxRetries (.ok candles)
  valid : validate candles = []

/-- Why the chain goes on to the next provider. -/
inductive PassedOver (validate : List γ → List DataQualityIssue) (maxRetries : ℕ)
    (p : Provider γ) : ProviderFailure → Prop
  | healthCheck (h : p.healthCheck = false) : PassedOver validate maxRetries p .healthCheck
  | raised {e : ProviderError} (hhealthy : p.healthCheck)
      (h : p.EndsWith maxRetries (.error (.provider e))) :
      PassedOver validate maxRetries p (.raised e)
  | dataQuality {candles : List γ} (hhealthy : p.healthCheck)
      (h : p.EndsWith maxRetries (.ok candles)) (hinvalid : validate candles ≠ []) :
      PassedOver validate maxRetries p (.dataQuality (validate candles))

/-- An exception that is no `ProviderError` leaves the manager, as it does without any attempt. -/
structure BreaksOff (maxRetries : ℕ) (p : Provider γ) : Prop where
  healthy : p.healthCheck
  raises : maxRetries = 0 ∨ ∃ text, p.EndsWith maxRetries (.error (.other text))

end Outcomes

section Attempts

variable {γ : Type} {p : Provider γ} {maxRetries : ℕ} {r r' : Except Raised (List γ)}

/-- The attempts stop at one that is not retried, or at the last. -/
theorem fetchFrom_eq (lastExc : Option ProviderError) (attempt left : ℕ) (h : 0 < left) :
    ∃ j < left, (∀ i < j, p.Retried (attempt + i)) ∧
      (p.Retried (attempt + j) → j + 1 = left) ∧
      fetchFrom p lastExc attempt left = ⟨p.answer (attempt + j), j + 1⟩ := by
  induction left generalizing lastExc attempt with
  | zero => exact absurd h (by omega)
  | succ left ih =>
    by_cases hretried : p.Retried attempt
    · obtain ⟨e, he, hretry⟩ := hretried
      have hnext : fetchFrom p lastExc attempt (left + 1) =
          ⟨(fetchFrom p (some e) (attempt + 1) left).result,
            (fetchFrom p (some e) (attempt + 1) left).calls + 1⟩ := by
        simp [fetchFrom, he, hretry]
      rcases Nat.eq_zero_or_pos left with rfl | hleft
      · exact ⟨0, by omega, by simp, by simp, by simp [fetchFrom, he]⟩
      · obtain ⟨j, hj, hbefore, hlast, heq⟩ := ih (some e) (attempt + 1) hleft
        refine ⟨j + 1, by omega, fun i hi ↦ ?_, fun hr ↦ ?_, ?_⟩
        · cases i with
          | zero => exact ⟨e, he, hretry⟩
          | succ i => simpa [Nat.add_assoc, Nat.add_comm 1] using hbefore i (by omega)
        · have := hlast (by simpa [Nat.add_assoc, Nat.add_comm 1] using hr)
          omega
        · rw [hnext, heq]
          simp [Nat.add_assoc, Nat.add_comm 1]
    · refine ⟨0, by omega, by simp, fun hr ↦ absurd hr hretried, ?_⟩
      change fetchFrom p lastExc attempt (left + 1) = ⟨p.answer attempt, 1⟩
      rw [fetchFrom]
      split
      · next heq => rw [heq]
      · next e heq =>
        rw [if_neg fun hr ↦ hretried ⟨e, heq, hr⟩, heq]
      · next heq => rw [heq]

theorem Provider.EndsWith.eq (h : p.EndsWith maxRetries r) (h' : p.EndsWith maxRetries r') :
    r = r' := by
  obtain ⟨k, hk, hbefore, hr, hstop⟩ := h
  obtain ⟨k', hk', hbefore', hr', hstop'⟩ := h'
  rcases Nat.lt_trichotomy k k' with hlt | rfl | hlt
  · have := hstop (hbefore' k hlt)
    omega
  · exact hr.symm.trans hr'
  · have := hstop' (hbefore k' hlt)
    omega

theorem endsWith_fetchWithRetry (h : 0 < maxRetries) :
    p.EndsWith maxRetries (fetchWithRetry p maxRetries).result := by
  obtain ⟨j, hj, hbefore, hlast, heq⟩ := fetchFrom_eq (p := p) none 0 maxRetries h
  simp only [Nat.zero_add] at hbefore hlast heq
  rw [fetchWithRetry, heq]
  exact ⟨j, hj, hbefore, rfl, hlast⟩

theorem calls_fetchWithRetry_le (p : Provider γ) (maxRetries : ℕ) :
    (fetchWithRetry p maxRetries).calls ≤ maxRetries := by
  rcases Nat.eq_zero_or_pos maxRetries with rfl | h
  · exact le_rfl
  · obtain ⟨j, hj, -, -, heq⟩ := fetchFrom_eq (p := p) none 0 maxRetries h
    rw [fetchWithRetry, heq]
    exact hj

theorem Provider.EndsWith.result_eq (h : p.EndsWith maxRetries r) :
    (fetchWithRetry p maxRetries).result = r := by
  obtain ⟨k, hk, -⟩ := id h
  exact (endsWith_fetchWithRetry (Nat.zero_lt_of_lt hk)).eq h

end Attempts

section Chain

variable {γ : Type} {validate : List γ → List DataQualityIssue} {maxRetries : ℕ}
  {requested : String} {errors : Table String ProviderFailure} {p : Provider γ}
  {ps pre post : List (Provider γ)} {candles : List γ} {text : String}

/-- Each provider is passed over, supplies the candles or breaks the search off. -/
theorem provider_cases (p : Provider γ) :
    (∃ failure, PassedOver validate maxRetries p failure) ∨
      (∃ candles, Supplies validate maxRetries p candles) ∨ BreaksOff maxRetries p := by
  cases hhealthy : p.healthCheck with
  | false => exact .inl ⟨_, .healthCheck hhealthy⟩
  | true =>
    rcases Nat.eq_zero_or_pos maxRetries with rfl | h
    · exact .inr (.inr ⟨hhealthy, .inl rfl⟩)
    have hends := endsWith_fetchWithRetry (p := p) h
    cases hresult : (fetchWithRetry p maxRetries).result with
    | ok candles =>
      rw [hresult] at hends
      by_cases hvalid : validate candles = []
      · exact .inr (.inl ⟨candles, hhealthy, hends, hvalid⟩)
      · exact .inl ⟨_, .dataQuality hhealthy hends hvalid⟩
    | error raised =>
      rw [hresult] at hends
      cases raised with
      | provider e => exact .inl ⟨_, .raised hhealthy hends⟩
      | other text => exact .inr (.inr ⟨hhealthy, .inr ⟨text, hends⟩⟩)

variable (requested errors ps) in
theorem tryChain_of_passedOver {failure : ProviderFailure}
    (hp : PassedOver validate maxRetries p failure) : ∃ calls ≤ maxRetries,
      tryChain validate maxRetries requested errors (p :: ps) =
        ⟨(tryChain validate maxRetries requested (errors.assign p.name failure) ps).result,
          calls ::
            (tryChain validate maxRetries requested (errors.assign p.name failure) ps).calls⟩ := by
  cases hp with
  | healthCheck hhealthy => exact ⟨0, by omega, by simp [tryChain, hhealthy]⟩
  | raised hhealthy hends =>
    exact ⟨_, calls_fetchWithRetry_le p maxRetries, by simp [tryChain, hhealthy, hends.result_eq]⟩
  | dataQuality hhealthy hends hinvalid =>
    exact ⟨_, calls_fetchWithRetry_le p maxRetries,
      by simp [tryChain, hhealthy, hends.result_eq, hinvalid]⟩

variable (requested errors ps) in
theorem tryChain_of_supplies (hp : Supplies validate maxRetries p candles) :
    ∃ calls ≤ maxRetries, tryChain validate maxRetries requested errors (p :: ps) =
      ⟨.ok ⟨candles, requested, p.name⟩, [calls]⟩ :=
  ⟨_, calls_fetchWithRetry_le p maxRetries,
    by simp [tryChain, hp.healthy, hp.delivers.result_eq, hp.valid]⟩

variable (validate requested errors ps) in
theorem tryChain_of_breaksOff (hp : BreaksOff maxRetries p) :
    ∃ text, ∃ calls ≤ maxRetries, tryChain validate maxRetries requested errors (p :: ps) =
      ⟨.error (.other text), [calls]⟩ := by
  obtain ⟨text, htext⟩ : ∃ text, (fetchWithRetry p maxRetries).result = .error (.other text) := by
    rcases hp.raises with rfl | ⟨text, hends⟩
    · exact ⟨_, rfl⟩
    · exact ⟨text, hends.result_eq⟩
  exact ⟨text, _, calls_fetchWithRetry_le p maxRetries, by simp [tryChain, hp.healthy, htext]⟩

/-- The chain is tried up to a provider that is not passed over. -/
theorem chain_cases (chain : List (Provider γ)) :
    (∀ p ∈ chain, ∃ failure, PassedOver validate maxRetries p failure) ∨
      ∃ pre p post, chain = pre ++ p :: post ∧
        (∀ q ∈ pre, ∃ failure, PassedOver validate maxRetries q failure) ∧
        ((∃ candles, Supplies validate maxRetries p candles) ∨ BreaksOff maxRetries p) := by
  induction chain with
  | nil => exact .inl (by simp)
  | cons p ps ih =>
    rcases provider_cases p with hp | hp
    · rcases ih with hall | ⟨pre, q, post, rfl, hpre, hq⟩
      · exact .inl (List.forall_mem_cons.mpr ⟨hp, hall⟩)
      · exact .inr ⟨p :: pre, q, post, rfl, List.forall_mem_cons.mpr ⟨hp, hpre⟩, hq⟩
    · exact .inr ⟨[], p, ps, rfl, by simp, hp⟩

def record (errors : Table String ProviderFailure) (passed : List (Provider γ × ProviderFailure)) :
    Table String ProviderFailure :=
  passed.foldl (fun T x ↦ T.assign x.1.name x.2) errors

variable (requested errors ps) in
theorem tryChain_append {passed : List (Provider γ × ProviderFailure)}
    (hpassed : ∀ x ∈ passed, PassedOver validate maxRetries x.1 x.2) :
    ∃ calls : List ℕ, calls.length = passed.length ∧ (∀ c ∈ calls, c ≤ maxRetries) ∧
      tryChain validate maxRetries requested errors (passed.map Prod.fst ++ ps) =
        ⟨(tryChain validate maxRetries requested (record errors passed) ps).result,
          calls ++ (tryChain validate maxRetries requested (record errors passed) ps).calls⟩ := by
  induction passed generalizing errors with
  | nil => exact ⟨[], rfl, by simp, rfl⟩
  | cons x passed ih =>
    obtain ⟨hx, hpassed⟩ := List.forall_mem_cons.mp hpassed
    obtain ⟨c, hc, heq⟩ := tryChain_of_passedOver requested errors
      (passed.map Prod.fst ++ ps) hx
    obtain ⟨calls, hlength, hcalls, hrest⟩ := ih (errors.assign x.1.name x.2) hpassed
    refine ⟨c :: calls, by simp [hlength], List.forall_mem_cons.mpr ⟨hc, hcalls⟩, ?_⟩
    rw [List.map_cons, List.cons_append, heq, hrest]
    rfl

variable {passed : List (Provider γ × ProviderFailure)}

variable (requested errors) in
theorem tryChain_unavailable
    (hpassed : ∀ x ∈ passed, PassedOver validate maxRetries x.1 x.2) :
    ∃ calls : List ℕ, calls.length = passed.length ∧ (∀ c ∈ calls, c ≤ maxRetries) ∧
      tryChain validate maxRetries requested errors (passed.map Prod.fst) =
        ⟨.error (.marketDataUnavailable (record errors passed).rows), calls⟩ := by
  obtain ⟨calls, hlength, hcalls, heq⟩ := tryChain_append requested errors [] hpassed
  refine ⟨calls, hlength, hcalls, ?_⟩
  rw [List.append_nil] at heq
  rw [heq, tryChain, List.append_nil]

variable (requested errors post) in
theorem tryChain_supplied
    (hpassed : ∀ x ∈ passed, PassedOver validate maxRetries x.1 x.2)
    (hp : Supplies validate maxRetries p candles) :
    ∃ calls : List ℕ, calls.length = passed.length + 1 ∧ (∀ c ∈ calls, c ≤ maxRetries) ∧
      tryChain validate maxRetries requested errors (passed.map Prod.fst ++ p :: post) =
        ⟨.ok ⟨candles, requested, p.name⟩, calls⟩ := by
  obtain ⟨calls, hlength, hcalls, heq⟩ := tryChain_append requested errors (p :: post) hpassed
  obtain ⟨c, hc, hlast⟩ := tryChain_of_supplies requested (record errors passed) post hp
  rw [hlast] at heq
  exact ⟨calls ++ [c], by simp [hlength], by simpa [or_imp, forall_and] using ⟨hcalls, hc⟩, heq⟩

variable (requested errors post) in
theorem tryChain_brokenOff (hpassed : ∀ x ∈ passed, PassedOver validate maxRetries x.1 x.2)
    (hp : BreaksOff maxRetries p) :
    ∃ text, ∃ calls : List ℕ, (∀ c ∈ calls, c ≤ maxRetries) ∧
      tryChain validate maxRetries requested errors (passed.map Prod.fst ++ p :: post) =
        ⟨.error (.other text), calls⟩ := by
  obtain ⟨calls, -, hcalls, heq⟩ := tryChain_append requested errors (p :: post) hpassed
  obtain ⟨text, c, hc, hlast⟩ := tryChain_of_breaksOff validate requested
    (record errors passed) post hp
  rw [hlast] at heq
  exact ⟨text, calls ++ [c], by simpa [or_imp, forall_and] using ⟨hcalls, hc⟩, heq⟩

theorem exists_passed {pre : List (Provider γ)}
    (hpre : ∀ q ∈ pre, ∃ failure, PassedOver validate maxRetries q failure) :
    ∃ passed : List (Provider γ × ProviderFailure), passed.map Prod.fst = pre ∧
      ∀ x ∈ passed, PassedOver validate maxRetries x.1 x.2 := by
  induction pre with
  | nil => exact ⟨[], rfl, by simp⟩
  | cons q pre ih =>
    obtain ⟨⟨failure, hq⟩, hpre⟩ := List.forall_mem_cons.mp hpre
    obtain ⟨passed, rfl, hpassed⟩ := ih hpre
    exact ⟨(q, failure) :: passed, rfl, List.forall_mem_cons.mpr ⟨hq, hpassed⟩⟩

/-- The three ways in which a search ends. -/
theorem tryChain_cases (validate : List γ → List DataQualityIssue) (maxRetries : ℕ)
    (requested : String) (chain : List (Provider γ)) :
    ∃ calls : List ℕ, (∀ c ∈ calls, c ≤ maxRetries) ∧
      ((∃ passed, chain = passed.map Prod.fst ∧
          (∀ x ∈ passed, PassedOver validate maxRetries x.1 x.2) ∧
          tryChain validate maxRetries requested .empty chain =
            ⟨.error (.marketDataUnavailable (record .empty passed).rows), calls⟩) ∨
        (∃ pre p post candles, chain = pre ++ p :: post ∧
          (∀ q ∈ pre, ∃ failure, PassedOver validate maxRetries q failure) ∧
          Supplies validate maxRetries p candles ∧
          tryChain validate maxRetries requested .empty chain =
            ⟨.ok ⟨candles, requested, p.name⟩, calls⟩) ∨
        ∃ pre p post text, chain = pre ++ p :: post ∧
          (∀ q ∈ pre, ∃ failure, PassedOver validate maxRetries q failure) ∧
          BreaksOff maxRetries p ∧
          tryChain validate maxRetries requested .empty chain =
            ⟨.error (.other text), calls⟩) := by
  rcases chain_cases chain with hall | ⟨pre, p, post, rfl, hpre, hp⟩
  · obtain ⟨passed, rfl, hpassed⟩ := exists_passed hall
    obtain ⟨calls, -, hcalls, heq⟩ := tryChain_unavailable requested .empty hpassed
    exact ⟨calls, hcalls, .inl ⟨passed, rfl, hpassed, heq⟩⟩
  · obtain ⟨passed, rfl, hpassed⟩ := exists_passed hpre
    rcases hp with ⟨candles, hp⟩ | hp
    · obtain ⟨calls, -, hcalls, heq⟩ := tryChain_supplied requested .empty post hpassed hp
      exact ⟨calls, hcalls, .inr (.inl ⟨_, p, post, candles, rfl, hpre, hp, heq⟩)⟩
    · obtain ⟨text, calls, hcalls, heq⟩ := tryChain_brokenOff requested .empty post hpassed hp
      exact ⟨calls, hcalls, .inr (.inr ⟨_, p, post, text, rfl, hpre, hp, heq⟩)⟩

/-- Every name tried has an entry, which a provider of that name has given. -/
theorem exists_of_record {x : Provider γ × ProviderFailure} (hx : x ∈ passed) :
    ∃ y ∈ passed, y.1.name = x.1.name ∧ (x.1.name, y.2) ∈ (record .empty passed).rows := by
  have hget := Table.get?_foldl_assign (fun y : Provider γ × ProviderFailure ↦ y.1.name) Prod.snd
    passed .empty x.1.name
  have hsome : (Lib.lastOf (fun y : Provider γ × ProviderFailure ↦ y.1.name) passed
      x.1.name).isSome := by
    rw [Lib.lastOf, Option.isSome_iff_ne_none, Ne, List.getLast?_eq_none_iff]
    exact List.ne_nil_of_mem (List.mem_filter.mpr ⟨hx, by simp⟩)
  obtain ⟨y, hy⟩ := Option.isSome_iff_exists.mp hsome
  have hmem := List.mem_filter.mp (List.mem_of_getLast? hy)
  refine ⟨y, hmem.1, by simpa using hmem.2, (Table.get?_eq_some _).mp ?_⟩
  rw [record, hget, hy]
  rfl

end Chain

/-- What the search over a chain is for. -/
structure FailsOver {γ : Type} (validate : List γ → List DataQualityIssue) (maxRetries : ℕ)
    (chain : List (Provider γ)) (run : Trace γ) : Prop where
  returned (result : Delivered γ) : run.result = .ok result ↔
    ∃ pre p post, chain = pre ++ p :: post ∧
      (∀ q ∈ pre, ∃ failure, PassedOver validate maxRetries q failure) ∧
      Supplies validate maxRetries p result.candles ∧ result.providerUsed = p.name ∧
      (chain.head?.map Provider.name) = some result.providerRequested
  unavailable : (∃ errors, run.result = .error (.marketDataUnavailable errors)) ↔
    ∀ p ∈ chain, ∃ failure, PassedOver validate maxRetries p failure
  calls : ∀ c ∈ run.calls, c ≤ maxRetries
  stops {pre post : List (Provider γ)} {p : Provider γ} {candles : List γ}
    (h : chain = pre ++ p :: post)
    (hpre : ∀ q ∈ pre, ∃ failure, PassedOver validate maxRetries q failure)
    (hp : Supplies validate maxRetries p candles) : run.calls.length = pre.length + 1
  listed (errors : List (String × ProviderFailure))
    (h : run.result = .error (.marketDataUnavailable errors)) : ∀ p ∈ chain,
      ∃ q ∈ chain, q.name = p.name ∧
        ∃ failure, PassedOver validate maxRetries q failure ∧ (p.name, failure) ∈ errors

theorem failsOver_tryChain {γ : Type} {validate : List γ → List DataQualityIssue} {maxRetries : ℕ}
    {chain : List (Provider γ)} {requested : String}
    (hrequested : chain.head?.map Provider.name = some requested) :
    FailsOver validate maxRetries chain (tryChain validate maxRetries requested .empty chain) := by
  obtain ⟨calls, hcalls, hcases⟩ := tryChain_cases validate maxRetries requested chain
  refine ⟨fun result ↦ ⟨fun hresult ↦ ?_, ?_⟩, ⟨?_, fun hall ↦ ?_⟩, ?_, ?_, ?_⟩
  · rcases hcases with ⟨passed, rfl, -, heq⟩ | ⟨pre, p, post, candles, rfl, hpre, hp, heq⟩ |
      ⟨_, _, _, _, _, _, _, heq⟩
    · rw [heq] at hresult
      cases hresult
    · rw [heq] at hresult
      obtain rfl := Except.ok.inj hresult
      exact ⟨pre, p, post, rfl, hpre, hp, rfl, hrequested⟩
    · rw [heq] at hresult
      cases hresult
  · rintro ⟨pre, p, post, rfl, hpre, hp, hused, hfirst⟩
    obtain ⟨passed, rfl, hpassed⟩ := exists_passed hpre
    obtain ⟨calls, -, -, heq⟩ := tryChain_supplied requested .empty post hpassed hp
    have hsame : requested = result.providerRequested :=
      Option.some.inj (hrequested.symm.trans hfirst)
    rw [heq, hsame, ← hused]
  · rintro ⟨errors, hresult⟩
    rcases hcases with ⟨passed, rfl, hpassed, -⟩ | ⟨_, _, _, _, _, _, _, heq⟩ |
      ⟨_, _, _, _, _, _, _, heq⟩
    · intro p hp
      obtain ⟨x, hx, rfl⟩ := List.mem_map.mp hp
      exact ⟨x.2, hpassed x hx⟩
    · rw [heq] at hresult
      cases hresult
    · rw [heq] at hresult
      cases hresult
  · obtain ⟨passed, rfl, hpassed⟩ := exists_passed hall
    obtain ⟨calls, -, -, heq⟩ := tryChain_unavailable requested .empty hpassed
    exact ⟨_, congrArg Trace.result heq⟩
  · have hrun : (tryChain validate maxRetries requested .empty chain).calls = calls := by
      rcases hcases with ⟨_, _, _, heq⟩ | ⟨_, _, _, _, _, _, _, heq⟩ | ⟨_, _, _, _, _, _, _, heq⟩ <;>
        rw [heq]
    rwa [hrun]
  · rintro pre post p candles rfl hpre hp
    obtain ⟨passed, rfl, hpassed⟩ := exists_passed hpre
    obtain ⟨calls, hlength, -, heq⟩ := tryChain_supplied requested .empty post hpassed hp
    rw [heq, hlength, List.length_map]
  · intro errors hresult p hp
    rcases hcases with ⟨passed, rfl, hpassed, heq⟩ | ⟨_, _, _, _, _, _, _, heq⟩ |
      ⟨_, _, _, _, _, _, _, heq⟩
    · rw [heq] at hresult
      obtain rfl := ManagerError.marketDataUnavailable.inj (Except.error.inj hresult)
      obtain ⟨x, hx, rfl⟩ := List.mem_map.mp hp
      obtain ⟨y, hy, hname, hmem⟩ := exists_of_record hx
      exact ⟨y.1, List.mem_map_of_mem hy, hname, y.2, hpassed y hy, hmem⟩
    · rw [heq] at hresult
      cases hresult
    · rw [heq] at hresult
      cases hresult

section Search

variable {γ : Type} {validate : List γ → List DataQualityIssue} (m : Manager γ)
  (request : MarketRequest) (parseFoSymbol : String → Option FoContract)

theorem Manager.chain_ne_nil : m.chain request parseFoSymbol ≠ [] := by
  have hfull : (match m.foProviders with
      | some (p :: ps) =>
        if MarketDataManager.isFoInstrument request parseFoSymbol then p :: ps else m.providers
      | _ => m.providers) ≠ [] := by
    split
    · split
      · exact List.cons_ne_nil _ _
      · exact m.configured
    · exact m.configured
  rw [Manager.chain]
  split
  · exact hfull
  · simpa only [ne_eq, List.take_eq_nil_iff, one_ne_zero, false_or] using hfull

variable {m request parseFoSymbol} in
theorem Manager.mem_chain {p : Provider γ} (h : p ∈ m.chain request parseFoSymbol) :
    p ∈ m.providers ∨ ∃ fo, m.foProviders = some fo ∧ p ∈ fo := by
  have htake {l : List (Provider γ)} (hp : p ∈ if m.enableFailover then l else l.take 1) :
      p ∈ l := by
    split at hp
    · exact hp
    · exact List.mem_of_mem_take hp
  have hfull := htake h
  split at hfull
  · next hfo =>
    split at hfull
    · exact .inr ⟨_, hfo, hfull⟩
    · exact .inl hfull
  · exact .inl hfull

variable (validate) in
theorem getHistoricalData_eq : ∃ requested,
    (m.chain request parseFoSymbol).head?.map Provider.name = some requested ∧
      m.getHistoricalData validate request parseFoSymbol =
        tryChain validate m.maxRetries requested .empty (m.chain request parseFoSymbol) := by
  rw [Manager.getHistoricalData]
  split
  · next hchain => exact absurd hchain (m.chain_ne_nil request parseFoSymbol)
  · next hchain =>
    rw [hchain]
    exact ⟨_, rfl, rfl⟩

variable (validate) in
theorem failsOver_getHistoricalData :
    FailsOver validate m.maxRetries (m.chain request parseFoSymbol)
      (m.getHistoricalData validate request parseFoSymbol) := by
  obtain ⟨requested, hrequested, heq⟩ := getHistoricalData_eq validate m request parseFoSymbol
  rw [heq]
  exact failsOver_tryChain hrequested

variable (validate) in
/-- Another exception leaves the manager from the first provider that neither is passed over nor
supplies the candles. -/
theorem getHistoricalData_other_iff :
    (∃ text, (m.getHistoricalData validate request parseFoSymbol).result = .error (.other text)) ↔
      ∃ pre p post, m.chain request parseFoSymbol = pre ++ p :: post ∧
        (∀ q ∈ pre, ∃ failure, PassedOver validate m.maxRetries q failure) ∧
        BreaksOff m.maxRetries p := by
  obtain ⟨requested, -, heq⟩ := getHistoricalData_eq validate m request parseFoSymbol
  rw [heq]
  constructor
  · rintro ⟨text, hresult⟩
    obtain ⟨calls, -, ⟨_, _, _, heq⟩ | ⟨_, _, _, _, _, _, _, heq⟩ | ⟨pre, p, post, -, hchain, hpre, hp,
      -⟩⟩ := tryChain_cases validate m.maxRetries requested (m.chain request parseFoSymbol)
    · rw [heq] at hresult
      cases hresult
    · rw [heq] at hresult
      cases hresult
    · exact ⟨pre, p, post, hchain, hpre, hp⟩
  · rintro ⟨pre, p, post, hchain, hpre, hp⟩
    obtain ⟨passed, rfl, hpassed⟩ := exists_passed hpre
    obtain ⟨text, calls, -, heq⟩ := tryChain_brokenOff requested .empty post hpassed hp
    rw [hchain, heq]
    exact ⟨text, rfl⟩

end Search

/-- The search of a request: candles of the first provider that is not passed over, no more calls
than allowed to any, none past that provider, and the failures of all of them otherwise. -/
theorem failsOver (m : Manager Candle) (request : MarketRequest)
    (parseFoSymbol : String → Option FoContract) :
    FailsOver validateCandles m.maxRetries (m.chain request parseFoSymbol)
      (m.getHistoricalData validateCandles request parseFoSymbol) :=
  failsOver_getHistoricalData validateCandles m request parseFoSymbol

/-- One provider whose first answer is an empty window and whose second is a valid list. -/
def emptyThenOne : Manager Candle where
  providers := [⟨"yfinance", true, fun attempt ↦
    if attempt = 0 then .error (.provider .emptyData) else
      .ok [⟨.midnight 20000, 2600, 2660, 2590, 2650, 5000, none, "", "RELIANCE", .oneDay,
        "yfinance"⟩]⟩]
  foProviders := none
  maxRetries := 2
  enableFailover := true
  configured := by simp

/-- The valid list would have come with the second call, which is never made. -/
theorem second_answer_not_asked :
    (∃ p ∈ emptyThenOne.chain (Reliance.request 20000) fun _ ↦ none, p.healthCheck ∧
      ∃ k < emptyThenOne.maxRetries, ∃ candles, p.answer k = .ok candles ∧
        validateCandles candles = []) ∧
    ¬ ∃ result, (emptyThenOne.getHistoricalData validateCandles (Reliance.request 20000)
      fun _ ↦ none).result = .ok result := by
  refine ⟨⟨_, List.mem_cons_self, rfl, 1, by decide, _, rfl, by decide⟩, ?_⟩
  rintro ⟨result, h⟩
  cases h

def Delivered.toResult (d : Delivered Candle) : MarketDataResult :=
  ⟨d.candles, d.providerRequested, d.providerUsed⟩

def ofProvider (request : MarketRequest) (p : MarketDataProvider) : Provider Candle :=
  ⟨p.name, p.healthCheck, MarketDataManager.attempt request p⟩

section Agreement

variable {request : MarketRequest} {m : MarketDataManager}

theorem fetchFrom_ofProvider (p : MarketDataProvider) (lastExc : Option ProviderError)
    (attempt left : ℕ) : (fetchFrom (ofProvider request p) lastExc attempt left).result =
      MarketDataManager.fetchFrom request p lastExc attempt left := by
  induction left generalizing lastExc attempt with
  | zero => cases lastExc <;> rfl
  | succ left ih =>
    have hsame : (ofProvider request p).answer attempt =
        MarketDataManager.attempt request p attempt := rfl
    simp only [fetchFrom, MarketDataManager.fetchFrom, hsame]
    cases MarketDataManager.attempt request p attempt with
    | ok candles => rfl
    | error raised =>
      cases raised with
      | provider e =>
        by_cases hretry : e.isRetryable
        · simpa only [hretry, if_true] using ih (some e) (attempt + 1)
        · simp only [hretry, if_false, Bool.false_eq_true]
      | other text => rfl

theorem tryChain_ofProvider (requested : String) (errors : Table String ProviderFailure)
    (errors' : List (String × ProviderFailure)) (ps : List MarketDataProvider) :
    (tryChain validateCandles m.maxRetries requested errors
      (ps.map (ofProvider request))).result.toOption.map Delivered.toResult =
      (m.tryChain request requested errors' ps).toOption := by
  induction ps generalizing errors errors' with
  | nil => rfl
  | cons p ps ih =>
    have hfetch : (fetchWithRetry (ofProvider request p) m.maxRetries).result =
        MarketDataManager.fetchWithRetry request p m.maxRetries :=
      fetchFrom_ofProvider p none 0 m.maxRetries
    simp only [List.map_cons, tryChain, MarketDataManager.tryChain, hfetch]
    by_cases hhealthy : p.healthCheck
    · have hp : (ofProvider request p).healthCheck := hhealthy
      simp only [hp, hhealthy, not_true, if_false]
      cases MarketDataManager.fetchWithRetry request p m.maxRetries with
      | ok candles =>
        by_cases hvalid : validateCandles candles = []
        · simp only [hvalid, ne_eq, not_true, if_false]
          rfl
        · simpa only [hvalid, ne_eq, not_false_eq_true, if_true] using ih _ _
      | error raised =>
        cases raised with
        | provider e => exact ih _ _
        | other text => rfl
    · have hp : ¬ (ofProvider request p).healthCheck := hhealthy
      simp only [hp, hhealthy]
      exact ih _ _

/-- The manager of a run of ingestion, as one request finds it. -/
def ofManager (request : MarketRequest) (m : MarketDataManager) (h : m.providers ≠ []) :
    Manager Candle where
  providers := m.providers.map (ofProvider request)
  foProviders := m.foProviders.map (List.map (ofProvider request))
  maxRetries := m.maxRetries
  enableFailover := m.enableFailover
  configured := by simpa using h

theorem chain_ofManager (h : m.providers ≠ []) (parseFoSymbol : String → Option FoContract) :
    (ofManager request m h).chain request parseFoSymbol =
      (m.chain request parseFoSymbol).map (ofProvider request) := by
  obtain ⟨providers, foProviders, maxRetries, enableFailover⟩ := m
  simp only [Manager.chain, MarketDataManager.chain, ofManager]
  by_cases hfo : MarketDataManager.isFoInstrument request parseFoSymbol <;>
    rcases foProviders with _ | _ | ⟨p, ps⟩ <;> cases enableFailover <;> simp [hfo]

/-- The calls counted, the search returns what it does in a run of ingestion. -/
theorem getHistoricalData_ofManager (h : m.providers ≠ [])
    (parseFoSymbol : String → Option FoContract) :
    ((ofManager request m h).getHistoricalData validateCandles request
      parseFoSymbol).result.toOption.map Delivered.toResult =
      (m.getHistoricalData request parseFoSymbol).toOption := by
  rw [Manager.getHistoricalData, chain_ofManager, MarketDataManager.getHistoricalData]
  cases m.chain request parseFoSymbol with
  | nil => rfl
  | cons p ps => exact tryChain_ofProvider p.name .empty [] (p :: ps)

end Agreement

end TradingOS.Data.ProviderFailover
