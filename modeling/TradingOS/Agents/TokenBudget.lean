import Mathlib.Algebra.Order.BigOperators.Group.List
import TradingOS.Agents.LlmRouter
import TradingOS.Lib.DeferredCharge

namespace TradingOS.Agents.LlmRouter

open Lib Lib.Runs

/-- The call may still be answered by the provider whose tokens are counted. -/
def Call.exposed : Call → Bool
  | .screening _ chain => chain.any (·.provider = "huggingface")
  | .trying _ untried => untried.any (·.provider = "huggingface")

def Call.exposure (c : Call) : ℤ := if c.exposed then 1 else 0

theorem Call.exposure_of_exposed {c : Call} (h : c.exposed) : c.exposure = 1 := if_pos h

theorem Call.exposure_of_not_exposed {c : Call} (h : ¬ c.exposed) : c.exposure = 0 := if_neg h

theorem Call.exposure_mono {c c' : Call} (h : c.exposed → c'.exposed) :
    c.exposure ≤ c'.exposure := by
  by_cases hc : c.exposed
  · rw [exposure_of_exposed hc, exposure_of_exposed (h hc)]
  · rw [exposure_of_not_exposed hc, exposure]
    split <;> omega

theorem Call.exposure_nonneg (c : Call) : 0 ≤ c.exposure := by
  rw [exposure]
  split <;> omega

theorem Call.exposure_le_one (c : Call) : c.exposure ≤ 1 := by
  rw [exposure]
  split <;> omega

namespace UsageTracker

variable {budget m n waiting : ℤ} {u : UsageTracker} {now : Instant}

theorem reserve_reset (h : DeferredCharge budget m n u.tokensUsed waiting) (hm : 0 ≤ m)
    (hn : waiting ≤ n) :
    DeferredCharge budget m n (u.resetIfNewDay now).tokensUsed waiting := by
  rw [resetIfNewDay]
  split
  · exact h.reset hm hn
  · exact h

end UsageTracker

theorem isConfigured_usage {u u' : UsageTracker} {provider : String} {stored : Option String}
    {settings : Settings} {now : Instant} {configured : Bool}
    (h : isConfigured u provider stored settings now = some (u', configured)) :
    (u' = u ∨ u' = u.resetIfNewDay now) ∧ (configured → provider = "huggingface" →
      u'.tokensUsed < settings.hfDailyTokenBudget) := by
  rw [isConfigured] at h
  split at h
  · next ho =>
    obtain ⟨rfl, -⟩ := Prod.mk.inj (Option.some.inj h)
    refine ⟨.inl rfl, fun _ hf ↦ ?_⟩
    rw [hf] at ho
    exact absurd ho (by decide)
  · obtain ⟨apiKey, -, h⟩ := Option.map_eq_some_iff.mp h
    split at h
    · obtain ⟨rfl, rfl⟩ := Prod.mk.inj h
      exact ⟨.inl rfl, fun hc ↦ by cases hc⟩
    · split at h
      · obtain ⟨rfl, rfl⟩ := Prod.mk.inj h
        refine ⟨.inr rfl, fun hc _ ↦ ?_⟩
        exact of_decide_eq_true hc
      · next hf =>
        obtain ⟨rfl, -⟩ := Prod.mk.inj h
        exact ⟨.inl rfl, fun _ he ↦ absurd he hf⟩

theorem isValidPair_usage (u : UsageTracker) (pm : ProviderModel) (routing : List ProviderModel)
    (stored : Option String) (settings : Settings) (now : Instant) :
    let r := isValidPair u pm routing stored settings now
    (r.1 = u ∨ r.1 = u.resetIfNewDay now) ∧ (r.2 → pm.provider = "huggingface" →
      r.1.tokensUsed < settings.hfDailyTokenBudget) := by
  intro r
  simp only [r, isValidPair]
  by_cases hknown : pm.provider ∉ knownProviders ∨ strip pm.model.toList = []
  · rw [if_pos hknown]
    exact ⟨.inl rfl, fun hv ↦ by cases hv⟩
  · rw [if_neg hknown]
    cases hc : isConfigured u pm.provider stored settings now with
    | none => exact ⟨.inl rfl, fun hv ↦ by cases hv⟩
    | some r =>
      obtain ⟨u', configured⟩ := r
      obtain ⟨husage, hbudget⟩ := isConfigured_usage hc
      cases configured with
      | false => exact ⟨husage, fun hv ↦ by cases hv⟩
      | true => exact ⟨husage, fun _ ↦ hbudget rfl⟩

theorem customPair_usage (u : UsageTracker) (row : Option AgentConfig)
    (routing : List ProviderModel) (stored : Option String) (settings : Settings)
    (now : Instant) :
    let r := customPair u row routing stored settings now
    (r.1 = u ∨ r.1 = u.resetIfNewDay now) ∧ ∀ pm ∈ r.2, pm.provider = "huggingface" →
      r.1.tokensUsed < settings.hfDailyTokenBudget := by
  intro r
  simp only [r, customPair]
  cases row.bind AgentConfig.pair with
  | none => exact ⟨.inl rfl, fun pm hpm ↦ by cases hpm⟩
  | some pm =>
    obtain ⟨husage, hbudget⟩ := isValidPair_usage u pm routing stored settings now
    dsimp only
    generalize isValidPair u pm routing stored settings now = r at husage hbudget ⊢
    obtain ⟨u', valid⟩ := r
    refine ⟨husage, fun pm' hpm' ↦ ?_⟩
    cases valid with
    | false => cases hpm'
    | true =>
      cases hpm'
      exact hbudget rfl

namespace Router

def exposed (s : Router) : ℤ := s.calls.total fun _ c ↦ c.exposure

/-- The tokens that an event adds to the day's count. -/
def chargeOf (s : Router) : Event → ℤ
  | .attempt call (.response (some tokens)) _ =>
    match s.calls.get? call with
    | some (.trying _ (pm :: _)) => if pm.provider = "huggingface" then max tokens 0 else 0
    | _ => 0
  | _ => 0

variable {settings : Settings} {m n : ℤ} {s t : Router} {call : ℕ} {c : Call}

theorem exposed_nonneg (s : Router) : 0 ≤ s.exposed := by
  apply List.sum_nonneg
  intro w hw
  obtain ⟨r, -, rfl⟩ := List.mem_map.mp hw
  exact r.2.exposure_nonneg

theorem exposed_le_length (s : Router) : s.exposed ≤ s.calls.rows.length := by
  have hone : ∀ w ∈ s.calls.rows.map fun r ↦ r.2.exposure, w ≤ 1 := by
    intro w hw
    obtain ⟨r, -, rfl⟩ := List.mem_map.mp hw
    exact r.2.exposure_le_one
  have hsum := List.sum_le_card_nsmul _ 1 hone
  simpa [exposed, Table.total] using hsum

theorem exposed_assign (h : s.calls.get? call = some c) (c' : Call) :
    (s.calls.assign call c').total (fun _ c ↦ c.exposure) =
      s.exposed + (c'.exposure - c.exposure) := by
  rw [Table.total_assign, h]
  rfl

theorem exposed_erase (h : s.calls.get? call = some c) :
    (s.calls.erase call).total (fun _ c ↦ c.exposure) = s.exposed - c.exposure := by
  rw [Table.total_erase, h]
  rfl

/-- The day's tokens and the calls that may still add to them. -/
def Reserved (settings : Settings) (m n : ℤ) (s : Router) : Prop :=
  DeferredCharge settings.hfDailyTokenBudget m n s.usage.tokensUsed s.exposed

theorem Reserved.mono (h : s.Reserved settings m n) (hm : 0 ≤ m)
    (husage : t.usage = s.usage) (hle : t.exposed ≤ s.exposed) : t.Reserved settings m n := by
  rw [Reserved, husage]
  exact DeferredCharge.mono h hm hle t.exposed_nonneg

theorem Reserved.finish (h : s.Reserved settings m n) (hm : 0 ≤ m)
    (hcall : s.calls.get? call = some c) (outcome : Outcome) :
    (s.finish call outcome).Reserved settings m n := by
  refine h.mono hm rfl ?_
  have hleft : (s.finish call outcome).exposed = s.exposed - c.exposure := exposed_erase hcall
  have hpos := c.exposure_nonneg
  omega

/-- A provider is let into a chain: the count may be of a new day, and has not reached the budget if
the provider is the counted one. -/
theorem Reserved.letIn (h : s.Reserved settings m n) (hm : 0 ≤ m) (hn : s.exposed ≤ n)
    {now : Instant} (husage : t.usage = s.usage ∨ t.usage = s.usage.resetIfNewDay now)
    (htn : t.exposed ≤ n) (hle : t.exposed ≤ s.exposed ∨ t.exposed = s.exposed + 1 ∧
      t.usage.tokensUsed < settings.hfDailyTokenBudget) : t.Reserved settings m n := by
  have hkept : DeferredCharge settings.hfDailyTokenBudget m n t.usage.tokensUsed s.exposed := by
    rcases husage with he | he
    · rw [he]
      exact h
    · rw [he]
      exact UsageTracker.reserve_reset h hm hn
  rcases hle with hle | ⟨he, hleft⟩
  · exact hkept.mono hm hle t.exposed_nonneg
  · rw [Reserved, he]
    rw [he] at htn
    exact hkept.wait hm hleft htn

theorem exposure_screening (pm : ProviderModel) (rest chain : List ProviderModel)
    (configured : Bool) :
    (Call.screening rest (if configured then chain ++ [pm] else chain)).exposure ≤
        (Call.screening (pm :: rest) chain).exposure ∨
      (Call.screening rest (if configured then chain ++ [pm] else chain)).exposure =
        (Call.screening (pm :: rest) chain).exposure + 1 ∧
        configured ∧ pm.provider = "huggingface" := by
  cases configured with
  | false => exact .inl le_rfl
  | true =>
    by_cases hnew : pm.provider = "huggingface" ∧ ¬ (Call.screening (pm :: rest) chain).exposed
    · right
      have hexposed : (Call.screening rest (chain ++ [pm])).exposed := by
        simp [Call.exposed, hnew.1]
      rw [Call.exposure_of_not_exposed hnew.2]
      exact ⟨Call.exposure_of_exposed hexposed, rfl, hnew.1⟩
    · left
      apply Call.exposure_mono
      intro hexposed
      by_contra hold
      have hf : pm.provider ≠ "huggingface" := fun hf ↦ hnew ⟨hf, hold⟩
      simp only [Call.exposed, if_true, List.any_append, List.any_cons, List.any_nil, hf,
        decide_false, Bool.or_false] at hexposed hold
      exact hold hexposed

theorem Reserved.screen (h : s.Reserved settings m n) (hm : 0 ≤ m) (hn : s.exposed ≤ n)
    {pm : ProviderModel} {rest chain : List ProviderModel}
    (hcall : s.calls.get? call = some (.screening (pm :: rest) chain)) {stored : Option String}
    {now : Instant} (htn : (s.screen settings call pm rest chain stored now).exposed ≤ n) :
    (s.screen settings call pm rest chain stored now).Reserved settings m n := by
  simp only [Router.screen] at htn ⊢
  cases hc : isConfigured s.usage pm.provider stored settings now with
  | none => exact Reserved.finish (s := { s with
      screenings := s.screenings.modify call (· ++ [(pm, ⟨s.usage, stored, now⟩)]) }) h hm hcall _
  | some r =>
    obtain ⟨usage, configured⟩ := r
    simp only [hc] at htn ⊢
    obtain ⟨husage, hbudget⟩ := isConfigured_usage hc
    refine h.letIn hm hn husage htn ?_
    have hnew : Router.exposed { s with
        usage := usage
        screenings := s.screenings.modify call (· ++ [(pm, ⟨s.usage, stored, now⟩)])
        calls := s.calls.assign call (.screening rest (if configured then chain ++ [pm] else chain)) } =
        _ := exposed_assign hcall _
    rw [hnew]
    rcases exposure_screening pm rest chain configured with hle | ⟨he, hyes, hf⟩
    · left
      omega
    · right
      exact ⟨by omega, hbudget hyes hf⟩

theorem exposure_prepend (pair : Option ProviderModel) (chain : List ProviderModel) :
    (Call.trying [] (prepend pair chain)).exposure ≤ (Call.screening [] chain).exposure ∨
      (Call.trying [] (prepend pair chain)).exposure = (Call.screening [] chain).exposure + 1 ∧
        ∃ pm ∈ pair, pm.provider = "huggingface" := by
  cases pair with
  | none => exact .inl le_rfl
  | some head =>
    by_cases hnew : head.provider = "huggingface" ∧ ¬ (Call.screening [] chain).exposed
    · right
      have hexposed : (Call.trying [] (prepend (some head) chain)).exposed := by
        simp [Call.exposed, prepend, hnew.1]
      rw [Call.exposure_of_not_exposed hnew.2]
      exact ⟨Call.exposure_of_exposed hexposed, head, rfl, hnew.1⟩
    · left
      apply Call.exposure_mono
      intro hexposed
      by_contra hold
      have hf : head.provider ≠ "huggingface" := fun hf ↦ hnew ⟨hf, hold⟩
      obtain ⟨pm, hpm, hprovider⟩ := List.any_eq_true.mp hexposed
      rcases List.mem_cons.mp hpm with rfl | hpm
      · exact hf (of_decide_eq_true hprovider)
      · exact hold (List.any_eq_true.mpr ⟨pm, List.mem_of_mem_filter hpm, hprovider⟩)

theorem Reserved.resolve (h : s.Reserved settings m n) (hm : 0 ≤ m) (hn : s.exposed ≤ n)
    {chain : List ProviderModel} (hcall : s.calls.get? call = some (.screening [] chain))
    {row : Option AgentConfig} {routing : List ProviderModel} {stored : Option String}
    {now : Instant} (htn : (s.resolve settings call chain row routing stored now).exposed ≤ n) :
    (s.resolve settings call chain row routing stored now).Reserved settings m n := by
  obtain ⟨husage, hbudget⟩ := customPair_usage s.usage row routing stored settings now
  simp only [Router.resolve] at htn ⊢
  generalize customPair s.usage row routing stored settings now = r at husage hbudget htn ⊢
  obtain ⟨usage, pair⟩ := r
  simp only at husage hbudget htn ⊢
  have hchain := exposure_prepend pair chain
  cases hp : prepend pair chain with
  | nil =>
    simp only [hp] at htn ⊢
    refine h.letIn hm hn husage htn (.inl ?_)
    have hpos := (Call.screening [] chain).exposure_nonneg
    calc
      _ = s.exposed - (Call.screening [] chain).exposure := exposed_erase hcall
      _ ≤ s.exposed := by omega
  | cons pm rest =>
    simp only [hp] at htn hchain ⊢
    refine h.letIn hm hn husage htn ?_
    have hnew : Router.exposed { s with
        usage := usage
        resolutions := s.resolutions.assign call ⟨row, routing, ⟨s.usage, stored, now⟩⟩
        chains := s.chains.assign call (pm :: rest)
        calls := s.calls.assign call (.trying [] (pm :: rest)) } = _ := exposed_assign hcall _
    rw [hnew]
    rcases hchain with hle | ⟨he, pm', hpm', hf⟩
    · left
      omega
    · right
      exact ⟨by omega, hbudget pm' hpm' hf⟩

theorem exposure_tail (failed failed' : List ProviderModel) (pm : ProviderModel)
    (rest : List ProviderModel) :
    (Call.trying failed' rest).exposure ≤ (Call.trying failed (pm :: rest)).exposure := by
  apply Call.exposure_mono
  intro hrest
  simp only [Call.exposed, List.any_cons, Bool.or_eq_true]
  exact .inr hrest

theorem Reserved.fail (h : s.Reserved settings m n) (hm : 0 ≤ m) {failed : List ProviderModel}
    {pm : ProviderModel} {rest : List ProviderModel}
    (hcall : s.calls.get? call = some (.trying failed (pm :: rest))) (now : Instant) :
    (s.fail call failed pm rest now).Reserved settings m n := by
  simp only [Router.fail]
  cases rest with
  | nil => exact Reserved.finish (s := { s with
      failures := s.failures.recordFailure pm.provider now
      attempts := s.attempts ++ [Attempt.mk call pm failed false now] }) h hm hcall _
  | cons pm' rest =>
    refine h.mono hm rfl ?_
    have hnew : Router.exposed { s with
        failures := s.failures.recordFailure pm.provider now
        attempts := s.attempts ++ [Attempt.mk call pm failed false now]
        calls := s.calls.assign call (.trying (failed ++ [pm]) (pm' :: rest)) } = _ :=
      exposed_assign hcall _
    have hle := exposure_tail failed (failed ++ [pm]) pm (pm' :: rest)
    exact hnew ▸ (by omega)

theorem Reserved.succeed (h : s.Reserved settings m n) (hm : 0 ≤ m) (hn : s.exposed ≤ n)
    {failed : List ProviderModel} {pm : ProviderModel} {rest : List ProviderModel}
    (hcall : s.calls.get? call = some (.trying failed (pm :: rest))) {totalTokens : Option ℤ}
    (hcharge : ∀ tokens ∈ totalTokens, pm.provider = "huggingface" → max tokens 0 ≤ m)
    (now : Instant) : (s.succeed call failed pm totalTokens now).Reserved settings m n := by
  have hleft : (s.succeed call failed pm totalTokens now).exposed =
      s.exposed - (Call.trying failed (pm :: rest)).exposure := exposed_erase hcall
  have hquiet (husage : (s.succeed call failed pm totalTokens now).usage = s.usage) :
      (s.succeed call failed pm totalTokens now).Reserved settings m n := by
    refine h.mono hm husage ?_
    have hpos := (Call.trying failed (pm :: rest)).exposure_nonneg
    omega
  cases totalTokens with
  | none => exact hquiet rfl
  | some tokens =>
    by_cases hf : pm.provider = "huggingface"
    · have hone : (Call.trying failed (pm :: rest)).exposure = 1 := by
        simp [Call.exposure, Call.exposed, hf]
      have husage : (s.succeed call failed pm (some tokens) now).usage =
          s.usage.record now tokens := by
        simp only [Router.succeed, Router.finish, hf, if_true]
      have hreset : DeferredCharge settings.hfDailyTokenBudget m n
          (s.usage.resetIfNewDay now).tokensUsed s.exposed := UsageTracker.reserve_reset h hm hn
      have hnonneg := (s.succeed call failed pm (some tokens) now).exposed_nonneg
      rw [Reserved, husage, hleft, hone]
      rw [hleft, hone] at hnonneg
      rw [show s.exposed = (s.exposed - 1) + 1 by omega] at hreset
      exact hreset.charge (le_max_right _ _) (hcharge tokens rfl hf) hnonneg
    · refine hquiet ?_
      simp only [Router.succeed, Router.finish, hf, if_false]

/-- One step of any of the calls. -/
theorem Reserved.step (h : s.Reserved settings m n) (hm : 0 ≤ m) (hn : s.exposed ≤ n) {e : Event}
    (hstep : s.step settings e = some t) (htn : t.exposed ≤ n) (hcharge : s.chargeOf e ≤ m) :
    t.Reserved settings m n := by
  cases e with
  | complete routing =>
    cases hstep
    refine h.mono hm rfl ?_
    have hnew : Router.exposed { s with
        next := s.next + 1
        routings := s.routings.assign s.next routing
        screenings := s.screenings.assign s.next []
        calls := s.calls.assign s.next (.screening routing []) } =
        s.exposed + (0 - (s.calls.get? s.next).elim 0 Call.exposure) := Table.total_assign _ _ _ _
    cases hold : s.calls.get? s.next with
    | none =>
      rw [hold] at hnew
      exact hnew ▸ (by simp)
    | some c =>
      rw [hold] at hnew
      have hpos := c.exposure_nonneg
      simp only [Option.elim_some] at hnew
      omega
  | screen call stored now =>
    simp only [Router.step] at hstep
    split at hstep
    · next pm rest chain hcall =>
      cases hstep
      exact h.screen hm hn hcall htn
    · cases hstep
  | resolve call row routing stored now =>
    simp only [Router.step] at hstep
    split at hstep
    · next chain hcall =>
      cases hstep
      exact h.resolve hm hn hcall htn
    · cases hstep
  | attempt call answer now =>
    simp only [Router.step] at hstep
    split at hstep
    · next failed pm rest hcall =>
      split at hstep
      · next totalTokens hmodel =>
        cases hstep
        refine h.succeed hm hn hcall (fun tokens htokens hf ↦ ?_) now
        cases htokens
        simpa only [chargeOf, hcall, hf, if_true] using hcharge
      · cases hstep
        exact h.fail hm hcall now
    · cases hstep

end Router

/-- However the calls of the process interleave, over any days: where at most `n` of them are under
way at once and none costs more than `m` of the counted tokens, the count of a day exceeds its
budget by less than `n * m`. -/
theorem tokensUsed_le {settings : Settings} {m : ℤ} {n : ℕ} (hm : 0 ≤ m) {now : Instant}
    {es : List Event} {t : Router} (h : Run (Router.step settings) (.start now) es t)
    (halong : Along (Router.step settings)
      (fun s e t ↦ t.calls.rows.length ≤ n ∧ s.chargeOf e ≤ m) (.start now) es) :
    0 ≤ t.usage.tokensUsed ∧
      t.usage.tokensUsed ≤ max 0 (settings.hfDailyTokenBudget - 1 + m * n) := by
  have hkeep : ∀ (s : Router) (e : Event) (t : Router),
      (s.Reserved settings m n ∧ s.exposed ≤ (n : ℤ)) →
      (t.calls.rows.length ≤ n ∧ s.chargeOf e ≤ m) → s.step settings e = some t →
      t.Reserved settings m n ∧ t.exposed ≤ (n : ℤ) := by
    intro s e t hs hP hstep
    have htn : t.exposed ≤ n := t.exposed_le_length.trans (by exact_mod_cast hP.1)
    exact ⟨hs.1.step hm hs.2 hstep htn hP.2, htn⟩
  have hinv : t.Reserved settings m n ∧ t.exposed ≤ (n : ℤ) :=
    h.invariant_along hkeep halong ⟨DeferredCharge.start, Int.natCast_nonneg n⟩
  exact ⟨hinv.1.1, DeferredCharge.used_le hinv.1 hm⟩

/-- A budget of one token, two calls screened before either is charged, five tokens each. -/
def crowdedSettings : Settings := ⟨none, none, none, none, some "token", none, 1⟩

def crowdedDay : List Event :=
  let chain : List ProviderModel := [⟨"huggingface", "m"⟩]
  [.complete chain, .complete chain, .screen 0 none 0, .screen 1 none 0,
    .resolve 0 none [] none 0, .resolve 1 none [] none 0,
    .attempt 0 (.response (some 5)) 0, .attempt 1 (.response (some 5)) 0]

def crowdedEnd : Router :=
  (exec (Router.step crowdedSettings) (.start 0) crowdedDay).getD (.start 0)

theorem tokensUsed_le_crowdedDay : crowdedEnd.usage.tokensUsed = 10 ∧
    0 ≤ crowdedEnd.usage.tokensUsed ∧
      crowdedEnd.usage.tokensUsed ≤ max 0 (crowdedSettings.hfDailyTokenBudget - 1 + 5 * 2) := by
  have hrun : Run (Router.step crowdedSettings) (.start 0) crowdedDay crowdedEnd :=
    exec_eq_some.mp rfl
  have hbound := tokensUsed_le (m := 5) (n := 2) (by decide) hrun (by decide +kernel)
  exact ⟨by decide +kernel, hbound⟩

end TradingOS.Agents.LlmRouter
