import TradingOS.Agents.LlmRouter

namespace TradingOS.Agents.LlmRouter

open Lib Lib.Runs

namespace Router

/-- What a call has tried, in order, and whether it succeeded. -/
def tried (s : Router) (call : ℕ) : List (ProviderModel × Bool) :=
  (s.attempts.filter (·.call = call)).map fun a ↦ (a.pm, a.succeeded)

end Router

/-- A call goes down its chain to the first pair that succeeds, and says which failed before. -/
def Answers (chain : List ProviderModel) (tried : List (ProviderModel × Bool)) : Outcome → Prop
  | .answered info => ∃ failed pm rest, chain = failed ++ pm :: rest ∧
      tried = failed.map (·, false) ++ [(pm, true)] ∧
        info = ⟨pm.provider, pm.model, failed ≠ [], failed.map (·.provider)⟩
  | .noConfiguredProvider => chain = [] ∧ tried = []
  | .allFailed count => chain ≠ [] ∧ count = chain.length ∧ tried = chain.map (·, false)
  | .unknownProvider => False

section Chain

variable (settings : Settings) (s : Router) (call : ℕ)

/-- The entries that were configured when they were screened. -/
def configuredOf (screened : List (ProviderModel × Reading)) : List ProviderModel :=
  (screened.filter fun e ↦ e.2.configures settings e.1).map (·.1)

/-- The chain is what was configured of the row of the routing table, in its order, after the pair
of the agent if it has a valid one. -/
def Chained (chain : List ProviderModel) : Prop :=
  ∃ screened resolution, s.routings.get? call = some (screened.map (·.1)) ∧
    s.screenings.get? call = some screened ∧ s.resolutions.get? call = some resolution ∧
      chain = prepend (resolution.pair settings) (configuredOf settings screened)

/-- The row of the routing table names a provider that the settings do not know. -/
def Misrouted : Prop :=
  ∃ row, s.routings.get? call = some row ∧ ∃ pm ∈ row, pm.provider ∉ knownProviders

def Concluded (outcome : Outcome) : Prop :=
  outcome = .unknownProvider ∧ s.tried call = [] ∧ Misrouted s call ∨
    ∃ chain, s.chains.get? call = some chain ∧ Chained settings s call chain ∧
      Answers chain (s.tried call) outcome

/-- What is known of a call under way. -/
def Call.Underway : Call → Prop
  | .screening unscreened chain => s.tried call = [] ∧
      ∃ screened, s.routings.get? call = some (screened.map (·.1) ++ unscreened) ∧
        s.screenings.get? call = some screened ∧ chain = configuredOf settings screened
  | .trying failed untried => untried ≠ [] ∧ s.tried call = failed.map (·, false) ∧
      s.chains.get? call = some (failed ++ untried) ∧
        Chained settings s call (failed ++ untried)

end Chain

theorem isConfigured_isSome {provider : String} (h : provider ∈ knownProviders) (u : UsageTracker)
    (stored : Option String) (settings : Settings) (now : Instant) :
    (isConfigured u provider stored settings now).isSome := by
  have hkey : provider = "ollama" ∨ (settingsApiKey provider settings).isSome := by
    simp only [knownProviders, List.mem_cons, List.not_mem_nil, or_false] at h
    rcases h with rfl | rfl | rfl | rfl | rfl | rfl | rfl <;> simp [settingsApiKey]
  by_cases hollama : provider = "ollama"
  · rw [isConfigured, if_pos hollama, Option.isSome_some]
  · obtain ⟨key, hkey⟩ := Option.isSome_iff_exists.mp (hkey.resolve_left hollama)
    rw [isConfigured, if_neg hollama, Option.isSome_map, resolveApiKey, if_neg hollama, hkey]
    split <;> rfl

namespace Router

structure Inv (settings : Settings) (s : Router) : Prop where
  underway : ∀ call c, s.calls.get? call = some c →
    c.Underway settings s call ∧ s.outcomes.get? call = none
  concluded : ∀ call outcome, s.outcomes.get? call = some outcome →
    Concluded settings s call outcome
  fresh : ∀ call, s.next ≤ call → s.calls.get? call = none ∧ s.outcomes.get? call = none ∧
    s.tried call = []

/-- A step leaves a call alone. -/
structure Untouched (s t : Router) (call : ℕ) : Prop where
  calls : t.calls.get? call = s.calls.get? call
  routings : t.routings.get? call = s.routings.get? call
  screenings : t.screenings.get? call = s.screenings.get? call
  resolutions : t.resolutions.get? call = s.resolutions.get? call
  chains : t.chains.get? call = s.chains.get? call
  outcomes : t.outcomes.get? call = s.outcomes.get? call
  tried : t.tried call = s.tried call

variable {settings : Settings} {s t : Router} {call : ℕ}

theorem Untouched.chained {k : ℕ} (h : Untouched s t k) {chain : List ProviderModel} :
    Chained settings t k chain ↔ Chained settings s k chain := by
  simp only [Chained, h.routings, h.screenings, h.resolutions]

theorem Untouched.underway {k : ℕ} (h : Untouched s t k) {c : Call}
    (hc : c.Underway settings s k) : c.Underway settings t k := by
  cases c with
  | screening unscreened chain =>
    simp only [Call.Underway, h.tried, h.routings, h.screenings]
    exact hc
  | trying failed untried =>
    simp only [Call.Underway, h.tried, h.chains, h.chained]
    exact hc

theorem Untouched.concluded {k : ℕ} (h : Untouched s t k) {outcome : Outcome}
    (hc : Concluded settings s k outcome) : Concluded settings t k outcome := by
  simp only [Concluded, Misrouted, h.tried, h.routings, h.chains, h.chained]
  exact hc

/-- A step that leaves every other call alone, and leaves its own under way or concluded. -/
theorem Inv.of_untouched (h : s.Inv settings) (call : ℕ) (hnext : t.next = s.next) (hcall : call < s.next)
    (hother : ∀ k, k ≠ call → Untouched s t k)
    (hunderway : ∀ c, t.calls.get? call = some c →
      c.Underway settings t call ∧ t.outcomes.get? call = none)
    (hconcluded : ∀ outcome, t.outcomes.get? call = some outcome →
      Concluded settings t call outcome) :
    t.Inv settings where
  underway k c hc := by
    by_cases hk : k = call
    · subst hk
      exact hunderway c hc
    · have hu := hother k hk
      rw [hu.calls] at hc
      rw [hu.outcomes]
      exact ⟨hu.underway (h.underway k c hc).1, (h.underway k c hc).2⟩
  concluded k outcome hk' := by
    by_cases hk : k = call
    · subst hk
      exact hconcluded outcome hk'
    · have hu := hother k hk
      rw [hu.outcomes] at hk'
      exact hu.concluded (h.concluded k outcome hk')
  fresh k hk := by
    have hne : k ≠ call := by omega
    have hu := hother k hne
    rw [hnext] at hk
    rw [hu.calls, hu.outcomes, hu.tried]
    exact h.fresh k hk

theorem Inv.lt_next (h : s.Inv settings) {c : Call} (hc : s.calls.get? call = some c) : call < s.next := by
  by_contra hle
  rw [(h.fresh call (Nat.le_of_not_lt hle)).1] at hc
  cases hc

theorem Inv.outcome_none (h : s.Inv settings) {c : Call} (hc : s.calls.get? call = some c) :
    s.outcomes.get? call = none := (h.underway call c hc).2

theorem tried_append (s : Router) (a : Attempt) (k : ℕ) :
    ({ s with attempts := s.attempts ++ [a] } : Router).tried k =
      s.tried k ++ if a.call = k then [(a.pm, a.succeeded)] else [] := by
  simp only [tried, List.filter_append, List.map_append]
  congr 1
  by_cases h : a.call = k <;> simp [h]

theorem Untouched.finish {k : ℕ} (hk : k ≠ call) (outcome : Outcome) :
    Untouched s (s.finish call outcome) k where
  calls := by rw [Router.finish, Table.get?_erase, if_neg hk]
  routings := rfl
  screenings := rfl
  resolutions := rfl
  chains := rfl
  outcomes := by rw [Router.finish, Table.get?_assign, if_neg hk]
  tried := rfl

theorem Untouched.trans {r : Router} {k : ℕ} (h : Untouched s t k) (h' : Untouched t r k) :
    Untouched s r k where
  calls := h'.calls.trans h.calls
  routings := h'.routings.trans h.routings
  screenings := h'.screenings.trans h.screenings
  resolutions := h'.resolutions.trans h.resolutions
  chains := h'.chains.trans h.chains
  outcomes := h'.outcomes.trans h.outcomes
  tried := h'.tried.trans h.tried

/-- A call that ends: `t` is the state in which its last entries are made. -/
theorem Inv.finish (h : s.Inv settings) (t : Router) {c : Call} (hc : s.calls.get? call = some c)
    (outcome : Outcome) (hnext : t.next = s.next) (hother : ∀ k, k ≠ call → Untouched s t k)
    (hconcluded : Concluded settings t call outcome) : (t.finish call outcome).Inv settings := by
  refine h.of_untouched call hnext (h.lt_next hc)
    (fun k hk ↦ (hother k hk).trans (.finish hk outcome)) (fun c' hc' ↦ ?_) fun outcome' ho ↦ ?_
  · rw [Router.finish, Table.get?_erase, if_pos rfl] at hc'
    cases hc'
  · rw [Router.finish, Table.get?_assign, if_pos rfl] at ho
    cases ho
    exact hconcluded

/-- A call that goes on. -/
theorem Inv.continue (h : s.Inv settings) {c : Call} (hc : s.calls.get? call = some c) (c' : Call)
    (hnext : t.next = s.next) (hother : ∀ k, k ≠ call → Untouched s t k)
    (hself : t.calls.get? call = some c') (houtcomes : t.outcomes.get? call = s.outcomes.get? call)
    (hunderway : c'.Underway settings t call) : t.Inv settings := by
  rw [h.outcome_none hc] at houtcomes
  refine h.of_untouched call hnext (h.lt_next hc) hother (fun c'' hc'' ↦ ?_)
    fun outcome ho ↦ ?_
  · rw [hself] at hc''
    cases hc''
    exact ⟨hunderway, houtcomes⟩
  · rw [houtcomes] at ho
    cases ho

theorem Inv.complete (h : s.Inv settings) {routing : List ProviderModel}
    (ht : s.step settings (.complete routing) = some t) : t.Inv settings := by
  cases ht
  obtain ⟨hnone, hout, htried⟩ := h.fresh s.next le_rfl
  have hother : ∀ k, k ≠ s.next → Untouched s
      { s with
        next := s.next + 1
        routings := s.routings.assign s.next routing
        screenings := s.screenings.assign s.next []
        calls := s.calls.assign s.next (.screening routing []) } k := by
    intro k hk
    refine ⟨?_, ?_, ?_, rfl, rfl, rfl, rfl⟩
    · rw [Table.get?_assign, if_neg hk]
    · rw [Table.get?_assign, if_neg hk]
    · rw [Table.get?_assign, if_neg hk]
  refine ⟨fun k c hc ↦ ?_, fun k outcome ho ↦ ?_, fun k hk ↦ ?_⟩
  · by_cases hk : k = s.next
    · subst hk
      rw [Table.get?_assign, if_pos rfl] at hc
      cases hc
      refine ⟨⟨htried, [], ?_, ?_, rfl⟩, hout⟩
      · rw [Table.get?_assign, if_pos rfl, List.map_nil, List.nil_append]
      · rw [Table.get?_assign, if_pos rfl]
    · rw [(hother k hk).calls] at hc
      exact ⟨(hother k hk).underway (h.underway k c hc).1, (h.underway k c hc).2⟩
  · by_cases hk : k = s.next
    · subst hk
      rw [hout] at ho
      cases ho
    · exact (hother k hk).concluded (h.concluded k outcome ho)
  · have hlt : s.next ≤ k := Nat.le_of_succ_le hk
    have hne : k ≠ s.next := by
      simp only at hk
      omega
    rw [(hother k hne).calls]
    exact h.fresh k hlt

theorem configuredOf_concat (screened : List (ProviderModel × Reading)) (pm : ProviderModel)
    (r : Reading) : configuredOf settings (screened ++ [(pm, r)]) =
      if r.configures settings pm then configuredOf settings screened ++ [pm]
      else configuredOf settings screened := by
  rw [configuredOf, List.filter_append, List.map_append]
  cases hr : r.configures settings pm with
  | false => simp [hr, configuredOf]
  | true => simp [hr, configuredOf]

theorem Inv.screen (h : s.Inv settings) {pm : ProviderModel} {rest chain : List ProviderModel}
    (hcall : s.calls.get? call = some (.screening (pm :: rest) chain)) (stored : Option String)
    (now : Instant) : (s.screen settings call pm rest chain stored now).Inv settings := by
  obtain ⟨htried, screened, hrow, hscreened, hchain⟩ := (h.underway call _ hcall).1
  simp only [Router.screen]
  cases hr : isConfigured s.usage pm.provider stored settings now with
  | none =>
    refine h.finish _ hcall .unknownProvider rfl (fun k hk ↦ ⟨rfl, rfl, ?_, rfl, rfl, rfl, rfl⟩)
      (.inl ⟨rfl, htried, _, hrow, pm, List.mem_append_right _ List.mem_cons_self, fun hp ↦ ?_⟩)
    · rw [Table.get?_modify, if_neg hk]
    · have hsome := isConfigured_isSome hp s.usage stored settings now
      rw [hr] at hsome
      cases hsome
  | some r =>
    obtain ⟨usage, configured⟩ := r
    have hconfigures : Reading.configures ⟨s.usage, stored, now⟩ settings pm = configured := by
      rw [Reading.configures, hr, Option.any_some]
    refine h.continue hcall (.screening rest (if configured then chain ++ [pm] else chain)) rfl
      (fun k hk ↦ ⟨?_, rfl, ?_, rfl, rfl, rfl, rfl⟩) ?_ rfl
      ⟨htried, screened ++ [(pm, ⟨s.usage, stored, now⟩)], ?_, ?_, ?_⟩
    · rw [Table.get?_assign, if_neg hk]
    · rw [Table.get?_modify, if_neg hk]
    · rw [Table.get?_assign, if_pos rfl]
    · rw [List.map_append, List.append_assoc]
      exact hrow
    · rw [Table.get?_modify, if_pos rfl, hscreened, Option.map_some]
    · rw [configuredOf_concat, hconfigures, hchain]

theorem Inv.resolve (h : s.Inv settings) {chain : List ProviderModel}
    (hcall : s.calls.get? call = some (.screening [] chain)) (row : Option AgentConfig)
    (routing : List ProviderModel) (stored : Option String) (now : Instant) :
    (s.resolve settings call chain row routing stored now).Inv settings := by
  obtain ⟨htried, screened, hrow, hscreened, hchain⟩ := (h.underway call _ hcall).1
  rw [List.append_nil] at hrow
  simp only [Router.resolve]
  let resolution : Resolution := ⟨row, routing, ⟨s.usage, stored, now⟩⟩
  have hpair : (customPair s.usage row routing stored settings now).2 = resolution.pair settings :=
    rfl
  generalize (customPair s.usage row routing stored settings now).1 = usage
  rw [hpair, hchain]
  cases hp : prepend (resolution.pair settings) (configuredOf settings screened) with
  | nil =>
    let t : Router := { s with
      usage := usage
      resolutions := s.resolutions.assign call resolution
      chains := s.chains.assign call [] }
    have hchained : Chained settings t call [] := by
      refine ⟨screened, resolution, hrow, hscreened, ?_, hp.symm⟩
      rw [Table.get?_assign, if_pos rfl]
    refine h.finish t hcall .noConfiguredProvider rfl
      (fun k hk ↦ ⟨rfl, rfl, rfl, ?_, ?_, rfl, rfl⟩) (.inr ⟨[], ?_, hchained, rfl, htried⟩)
    · rw [Table.get?_assign, if_neg hk]
    · rw [Table.get?_assign, if_neg hk]
    · rw [Table.get?_assign, if_pos rfl]
  | cons pm rest =>
    refine h.continue hcall (.trying [] (pm :: rest)) rfl
      (fun k hk ↦ ⟨?_, rfl, rfl, ?_, ?_, rfl, rfl⟩) ?_ rfl
      ⟨List.cons_ne_nil _ _, htried, ?_, screened, resolution, hrow, hscreened, ?_, hp.symm⟩
    · rw [Table.get?_assign, if_neg hk]
    · rw [Table.get?_assign, if_neg hk]
    · rw [Table.get?_assign, if_neg hk]
    · rw [Table.get?_assign, if_pos rfl]
    · rw [Table.get?_assign, if_pos rfl]
      rfl
    · rw [Table.get?_assign, if_pos rfl]

theorem untouched_attempt {k : ℕ} (hk : k ≠ call) (failures : FailureTracker)
    (usage : UsageTracker) (a : Attempt) (ha : a.call = call) :
    Untouched s { s with
      usage := usage
      failures := failures
      attempts := s.attempts ++ [a] } k := by
  refine ⟨rfl, rfl, rfl, rfl, rfl, rfl, ?_⟩
  have happ := tried_append s a k
  rw [if_neg (by omega), List.append_nil] at happ
  exact happ

theorem Inv.fail (h : s.Inv settings) {failed : List ProviderModel} {pm : ProviderModel}
    {rest : List ProviderModel} (hcall : s.calls.get? call = some (.trying failed (pm :: rest)))
    (now : Instant) : (s.fail call failed pm rest now).Inv settings := by
  obtain ⟨-, htried, hchain, hchained⟩ := (h.underway call _ hcall).1
  have happ := tried_append s (.mk call pm failed false now) call
  rw [if_pos rfl, htried] at happ
  simp only [Router.fail]
  cases rest with
  | nil =>
    have hother (k : ℕ) (hk : k ≠ call) :=
      untouched_attempt (s := s) hk (s.failures.recordFailure pm.provider now) s.usage
        (.mk call pm failed false now) rfl
    refine h.finish _ hcall (.allFailed (failed.length + 1)) (by rfl) hother
      (.inr ⟨failed ++ [pm], hchain, hchained, by simp, by simp, ?_⟩)
    rw [List.map_append]
    exact happ
  | cons pm' rest =>
    refine h.continue hcall (.trying (failed ++ [pm]) (pm' :: rest)) rfl (fun k hk ↦ ?_) ?_
      rfl ⟨List.cons_ne_nil _ _, ?_, ?_, ?_⟩
    · refine (untouched_attempt hk s.failures s.usage (.mk call pm failed false now) rfl).trans
        ⟨?_, rfl, rfl, rfl, rfl, rfl, rfl⟩
      rw [Table.get?_assign, if_neg hk]
    · rw [Table.get?_assign, if_pos rfl]
    · rw [List.map_append]
      exact happ
    · rw [List.append_assoc]
      exact hchain
    · rw [List.append_assoc]
      exact hchained

theorem Inv.succeed (h : s.Inv settings) {failed : List ProviderModel} {pm : ProviderModel}
    {rest : List ProviderModel} (hcall : s.calls.get? call = some (.trying failed (pm :: rest)))
    (totalTokens : Option ℤ) (now : Instant) :
    (s.succeed call failed pm totalTokens now).Inv settings := by
  obtain ⟨-, htried, hchain, hchained⟩ := (h.underway call _ hcall).1
  have happ := tried_append s (.mk call pm failed true now) call
  rw [if_pos rfl, htried] at happ
  simp only [Router.succeed]
  refine h.finish _ hcall
    (.answered ⟨pm.provider, pm.model, failed ≠ [], failed.map (·.provider)⟩) (by rfl)
    (fun k hk ↦ untouched_attempt hk (s.failures.recordSuccess pm.provider (failed ≠ [])) _
      (.mk call pm failed true now) rfl)
    (.inr ⟨failed ++ pm :: rest, hchain, hchained, failed, pm, rest, rfl, ?_, rfl⟩)
  exact happ

theorem Inv.step (h : s.Inv settings) {e : Event} (ht : s.step settings e = some t) :
    t.Inv settings := by
  cases e with
  | complete routing => exact h.complete ht
  | screen call stored now =>
    simp only [Router.step] at ht
    split at ht
    · next pm rest chain hcall =>
      cases ht
      exact h.screen hcall stored now
    · cases ht
  | resolve call row routing stored now =>
    simp only [Router.step] at ht
    split at ht
    · next chain hcall =>
      cases ht
      exact h.resolve hcall row routing stored now
    · cases ht
  | attempt call answer now =>
    simp only [Router.step] at ht
    split at ht
    · next failed pm rest hcall =>
      split at ht
      · cases ht
        exact h.succeed hcall _ now
      · cases ht
        exact h.fail hcall now
    · cases ht

theorem Inv.start (now : Instant) : (Router.start now).Inv settings where
  underway _ _ hc := by cases hc
  concluded _ _ ho := by cases ho
  fresh _ _ := ⟨rfl, rfl, rfl⟩

end Router

/-- Whatever the other calls do meanwhile, a call that ends has gone down its own chain, the pair of
its agent and then what was configured of the row of the routing table, and answers with the first
pair that succeeded. -/
theorem concluded_of_outcome {settings : Settings} {now : Instant} {es : List Event} {t : Router}
    (h : Run (Router.step settings) (.start now) es t) {call : ℕ} {outcome : Outcome}
    (ho : t.outcomes.get? call = some outcome) : Concluded settings t call outcome :=
  have hinv : t.Inv settings :=
    h.invariant (fun _ _ _ hs hst ↦ Router.Inv.step hs hst) (.start now)
  hinv.concluded call outcome ho

section Health

/-- The newest attempt at a provider, over all calls. -/
def lastAttempt (attempts : List Attempt) (provider : String) : Option Attempt :=
  lastOf (·.pm.provider) attempts provider

/-- The trackers that `GET /providers/health` reads are what the attempts so far amount to. -/
def Tracked (attempts : List Attempt) (f : FailureTracker) : Prop :=
  ∀ provider,
    f.lastFailureAt.get? provider =
        (lastAttempt attempts provider).bind (fun a ↦ if a.succeeded then none else some a.at_) ∧
      f.lastSuccessWasFallback.get? provider =
        (lastAttempt (attempts.filter (·.succeeded)) provider).map (decide <| ·.failedBefore ≠ [])

theorem lastAttempt_append (attempts : List Attempt) (a : Attempt) (provider : String) :
    lastAttempt (attempts ++ [a]) provider =
      if a.pm.provider = provider then some a else lastAttempt attempts provider := by
  rw [lastAttempt, lastOf_append, lastOf_cons]
  split <;> rfl

theorem Tracked.recordFailure {attempts : List Attempt} {f : FailureTracker}
    (h : Tracked attempts f) {a : Attempt} (ha : a.succeeded = false) :
    Tracked (attempts ++ [a]) (f.recordFailure a.pm.provider a.at_) := by
  intro provider
  obtain ⟨hfailure, hsuccess⟩ := h provider
  constructor
  · rw [FailureTracker.recordFailure, Table.get?_assign, lastAttempt_append, hfailure]
    by_cases hp : a.pm.provider = provider
    · rw [if_pos hp.symm, if_pos hp, Option.bind_some, ha]
      rfl
    · rw [if_neg (Ne.symm hp), if_neg hp]
  · rw [FailureTracker.recordFailure, hsuccess, List.filter_append]
    simp [ha]

theorem Tracked.recordSuccess {attempts : List Attempt} {f : FailureTracker}
    (h : Tracked attempts f) {a : Attempt} (ha : a.succeeded = true) :
    Tracked (attempts ++ [a]) (f.recordSuccess a.pm.provider (a.failedBefore ≠ [])) := by
  intro provider
  obtain ⟨hfailure, hsuccess⟩ := h provider
  have hfilter : (attempts ++ [a]).filter (·.succeeded) = attempts.filter (·.succeeded) ++ [a] := by
    rw [List.filter_append]
    simp [ha]
  constructor
  · rw [FailureTracker.recordSuccess, Table.get?_erase, lastAttempt_append, hfailure]
    by_cases hp : a.pm.provider = provider
    · rw [if_pos hp.symm, if_pos hp, Option.bind_some, ha]
      rfl
    · rw [if_neg (Ne.symm hp), if_neg hp]
  · rw [FailureTracker.recordSuccess, Table.get?_assign, hfilter, lastAttempt_append, hsuccess]
    by_cases hp : a.pm.provider = provider
    · rw [if_pos hp.symm, if_pos hp, Option.map_some]
    · rw [if_neg (Ne.symm hp), if_neg hp]

theorem Tracked.step {settings : Settings} {s t : Router} (h : Tracked s.attempts s.failures)
    {e : Event} (ht : s.step settings e = some t) : Tracked t.attempts t.failures := by
  cases e with
  | complete routing =>
    cases ht
    exact h
  | screen call stored now =>
    simp only [Router.step] at ht
    split at ht
    · cases ht
      simp only [Router.screen]
      split
      · exact h
      · exact h
    · cases ht
  | resolve call row routing stored now =>
    simp only [Router.step] at ht
    split at ht
    · cases ht
      simp only [Router.resolve]
      split
      · exact h
      · exact h
    · cases ht
  | attempt call answer now =>
    simp only [Router.step] at ht
    split at ht
    · next failed pm rest _ =>
      split at ht
      · cases ht
        exact Tracked.recordSuccess (a := .mk call pm failed true now) h rfl
      · cases ht
        have hnew := Tracked.recordFailure (a := .mk call pm failed false now) h rfl
        simp only [Router.fail]
        split
        · exact hnew
        · exact hnew
    · cases ht

inductive Availability
  | connected | unreachable
  deriving DecidableEq

structure ProviderHealth where
  provider : String
  availability : Availability
  lastFailureAt : Option Instant
  inFallback : Bool

/-- `PROVIDER_HEALTH_FAILURE_WINDOW`. -/
def providerHealthFailureWindow : ℤ := 600000000

def sortedProviders : List String :=
  ["anthropic", "deepseek", "gemini", "huggingface", "ollama", "openai", "opencode"]

/-- `provider_health`, where Vault answers `stored`. -/
def providerHealth (s : Router) (settings : Settings) (stored : String → Option String)
    (now : Instant) : List ProviderHealth :=
  sortedProviders.map fun provider ↦
    let configured := (isConfigured s.usage provider (stored provider) settings now).any (·.2)
    let lastFailure := s.failures.lastFailureAt.get? provider
    let recentlyFailed := lastFailure.any (now - · < providerHealthFailureWindow)
    { provider := provider
      availability := if !configured || recentlyFailed then .unreachable else .connected
      lastFailureAt := lastFailure
      inFallback := (s.failures.lastSuccessWasFallback.get? provider).getD false }

/-- After any interleaving of calls, the health of a provider is told by its newest attempt, and by
its newest success, over all of them. -/
theorem providerHealth_of_attempts {settings : Settings} {start now : Instant} {es : List Event}
    {t : Router} (h : Run (Router.step settings) (.start start) es t)
    (stored : String → Option String) :
    ∀ r ∈ providerHealth t settings stored now,
      (r.availability = .unreachable ↔
        ¬ (isConfigured t.usage r.provider (stored r.provider) settings now).any (·.2) ∨
          ∃ a, lastAttempt t.attempts r.provider = some a ∧ a.succeeded = false ∧
            now - a.at_ < providerHealthFailureWindow) ∧
      (r.inFallback = true ↔
        ∃ a, lastAttempt (t.attempts.filter (·.succeeded)) r.provider = some a ∧
          a.failedBefore ≠ []) := by
  have htracked : Tracked t.attempts t.failures :=
    h.invariant (fun _ _ _ hs hst ↦ Tracked.step hs hst) fun _ ↦ ⟨rfl, rfl⟩
  intro r hr
  obtain ⟨provider, -, rfl⟩ := List.mem_map.mp hr
  obtain ⟨hfailure, hsuccess⟩ := htracked provider
  dsimp only
  constructor
  · have hrecent : (t.failures.lastFailureAt.get? provider).any
        (now - · < providerHealthFailureWindow) = true ↔
          ∃ a, lastAttempt t.attempts provider = some a ∧ a.succeeded = false ∧
            now - a.at_ < providerHealthFailureWindow := by
      rw [hfailure]
      cases lastAttempt t.attempts provider with
      | none => simp
      | some a => cases ha : a.succeeded <;> simp [ha]
    rw [← hrecent]
    generalize (isConfigured t.usage provider (stored provider) settings now).any (·.2) = b
    generalize (t.failures.lastFailureAt.get? provider).any
      (now - · < providerHealthFailureWindow) = b'
    cases b <;> cases b' <;> simp
  · rw [hsuccess]
    cases lastAttempt (t.attempts.filter (·.succeeded)) provider with
    | none => simp
    | some a => simp

end Health

/-- The first call is answered by its second pair while the second call, which has a pair of its
own, fails with both of its pairs. -/
def twoCalls : List Event :=
  let openai : ProviderModel := ⟨"openai", "gpt-4o"⟩
  let ollama : ProviderModel := ⟨"ollama", "deepseek-r1"⟩
  [.complete [openai, ollama], .complete [openai, ollama], .screen 0 (some "key") 1,
    .screen 1 (some "key") 1, .screen 1 none 1, .screen 0 none 1,
    .resolve 1 (some ⟨some "CUSTOM", some "ollama", some "deepseek-r1"⟩) [ollama] none 1,
    .resolve 0 none [] none 2, .attempt 0 .raised 2, .attempt 1 .raised 3,
    .attempt 0 (.response none) 4, .attempt 1 .raised 5]

def twoCallsSettings : Settings := ⟨none, none, none, none, none, none, 0⟩

def twoCallsEnd : Router :=
  (exec (Router.step twoCallsSettings) (.start 0) twoCalls).getD (.start 0)

theorem twoCalls_run : Run (Router.step twoCallsSettings) (.start 0) twoCalls twoCallsEnd :=
  exec_eq_some.mp rfl

theorem concluded_of_outcome_twoCalls :
    Concluded twoCallsSettings twoCallsEnd 0
        (.answered ⟨"ollama", "deepseek-r1", true, ["openai"]⟩) ∧
      Concluded twoCallsSettings twoCallsEnd 1 (.allFailed 2) :=
  ⟨concluded_of_outcome twoCalls_run (by decide +kernel),
    concluded_of_outcome twoCalls_run (by decide +kernel)⟩

def ollamaHealth : ProviderHealth := ⟨"ollama", .connected, none, true⟩

theorem ollamaHealth_mem : ollamaHealth ∈
    providerHealth twoCallsEnd twoCallsSettings (fun _ ↦ some "key") 6 :=
  List.mem_map.mpr ⟨"ollama", by decide, rfl⟩

theorem providerHealth_of_attempts_twoCalls :
    (ollamaHealth.availability = .unreachable ↔
      ¬ (isConfigured twoCallsEnd.usage "ollama" (some "key") twoCallsSettings 6).any (·.2) ∨
        ∃ a, lastAttempt twoCallsEnd.attempts "ollama" = some a ∧ a.succeeded = false ∧
          6 - a.at_ < providerHealthFailureWindow) ∧
    (ollamaHealth.inFallback = true ↔
      ∃ a, lastAttempt (twoCallsEnd.attempts.filter (·.succeeded)) "ollama" = some a ∧
        a.failedBefore ≠ []) :=
  providerHealth_of_attempts twoCalls_run (fun _ ↦ some "key") ollamaHealth ollamaHealth_mem

end TradingOS.Agents.LlmRouter
