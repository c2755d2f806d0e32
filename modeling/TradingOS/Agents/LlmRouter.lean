import TradingOS.Lib.Runs
import TradingOS.Lib.Table
import TradingOS.Lib.Words

namespace TradingOS.Agents.LlmRouter

open Lib Lib.Runs

structure ProviderModel where
  provider : String
  model : String
  deriving DecidableEq

structure Settings where
  openaiApiKey : Option String
  anthropicApiKey : Option String
  deepseekApiKey : Option String
  geminiApiKey : Option String
  hfToken : Option String
  opencodeApiKey : Option String
  hfDailyTokenBudget : ℤ

/-- `KNOWN_PROVIDERS`, which are the `PROVIDERS` of the router. -/
def knownProviders : List String :=
  ["ollama", "openai", "anthropic", "deepseek", "gemini", "huggingface", "opencode"]

/-- `none` is the `KeyError` of a provider that the settings do not know. -/
def settingsApiKey (provider : String) (settings : Settings) : Option (Option String) :=
  match provider with
  | "openai" => some settings.openaiApiKey
  | "anthropic" => some settings.anthropicApiKey
  | "deepseek" => some settings.deepseekApiKey
  | "gemini" => some settings.geminiApiKey
  | "huggingface" => some settings.hfToken
  | "opencode" => some settings.opencodeApiKey
  | _ => none

/-- What Vault has stored comes first, unless it is empty. -/
def resolveApiKey (provider : String) (stored : Option String) (settings : Settings) :
    Option (Option String) :=
  if provider = "ollama" then some none
  else
    match stored.filter (· ≠ "") with
    | some key => some (some key)
    | none => settingsApiKey provider settings

/-- Microseconds since the epoch, in UTC. -/
abbrev Instant := ℤ

def date (now : Instant) : ℤ := now / 86400000000

/-- `_HFUsageTracker`. Each method holds its lock. -/
structure UsageTracker where
  day : ℤ
  tokensUsed : ℤ

namespace UsageTracker

def resetIfNewDay (u : UsageTracker) (now : Instant) : UsageTracker :=
  if date now ≠ u.day then ⟨date now, 0⟩ else u

def record (u : UsageTracker) (now : Instant) (tokens : ℤ) : UsageTracker :=
  let u := u.resetIfNewDay now
  { u with tokensUsed := u.tokensUsed + max tokens 0 }

def hasBudget (u : UsageTracker) (dailyBudget : ℤ) : Bool := u.tokensUsed < dailyBudget

end UsageTracker

/-- The tracker as the check leaves it, and the answer. -/
def isConfigured (u : UsageTracker) (provider : String) (stored : Option String)
    (settings : Settings) (now : Instant) : Option (UsageTracker × Bool) :=
  if provider = "ollama" then some (u, true)
  else
    (resolveApiKey provider stored settings).map fun apiKey ↦
      if (apiKey.filter (· ≠ "")).isNone then (u, false)
      else if provider = "huggingface" then
        (u.resetIfNewDay now, (u.resetIfNewDay now).hasBudget settings.hfDailyTokenBudget)
      else (u, true)

/-- What a check of a provider reads: the tracker, the key stored in Vault, the clock. -/
structure Reading where
  usage : UsageTracker
  stored : Option String
  now : Instant

/-- What the check answers on that reading. -/
def Reading.configures (r : Reading) (settings : Settings) (pm : ProviderModel) : Bool :=
  (isConfigured r.usage pm.provider r.stored settings r.now).any (·.2)

/-- The model that `_litellm_kwargs` names; a provider it does not know is a `ValueError`. -/
def litellmModel (pm : ProviderModel) : Option String :=
  match pm.provider with
  | "ollama" => some s!"ollama/{pm.model}"
  | "openai" => some s!"openai/{pm.model}"
  | "anthropic" => some s!"anthropic/{pm.model}"
  | "deepseek" => some s!"deepseek/{pm.model}"
  | "gemini" => some s!"gemini/{pm.model}"
  | "huggingface" => some s!"huggingface/{pm.model}"
  | "opencode" => some s!"openai/{pm.model}"
  | _ => none

/-- `_ProviderFailureTracker`. -/
structure FailureTracker where
  lastFailureAt : Table String Instant
  lastSuccessWasFallback : Table String Bool

namespace FailureTracker

def recordFailure (f : FailureTracker) (provider : String) (now : Instant) : FailureTracker :=
  { f with lastFailureAt := f.lastFailureAt.assign provider now }

def recordSuccess (f : FailureTracker) (provider : String) (fellBack : Bool) : FailureTracker where
  lastFailureAt := f.lastFailureAt.erase provider
  lastSuccessWasFallback := f.lastSuccessWasFallback.assign provider fellBack

end FailureTracker

/-- The columns of `AgentConfig` that choose a model. -/
structure AgentConfig where
  providerModelMode : Option String
  customProvider : Option String
  customModel : Option String

namespace AgentConfig

/-- The pair that the row names, if it is on `CUSTOM`. -/
def pair (row : AgentConfig) : Option ProviderModel :=
  if row.providerModelMode = some "CUSTOM" then
    match row.customProvider.filter (· ≠ ""), row.customModel.filter (· ≠ "") with
    | some provider, some model => some ⟨provider, model⟩
    | _, _ => none
  else none

end AgentConfig

/-- `is_valid_pair`; an error of the configuration check counts as a refusal. -/
def isValidPair (u : UsageTracker) (pm : ProviderModel) (routing : List ProviderModel)
    (stored : Option String) (settings : Settings) (now : Instant) : UsageTracker × Bool :=
  if pm.provider ∉ knownProviders ∨ strip pm.model.toList = [] then (u, false)
  else
    match isConfigured u pm.provider stored settings now with
    | none => (u, false)
    | some (u, false) => (u, false)
    | some (u, true) => (u, decide (pm ∈ routing))

/-- `custom_pair`, on the row of the agent if there is one. -/
def customPair (u : UsageTracker) (row : Option AgentConfig) (routing : List ProviderModel)
    (stored : Option String) (settings : Settings) (now : Instant) :
    UsageTracker × Option ProviderModel :=
  match row.bind AgentConfig.pair with
  | none => (u, none)
  | some pm =>
    let (u, valid) := isValidPair u pm routing stored settings now
    (u, if valid then some pm else none)

/-- What `resolve` reads for the agent of a call: its row, the pairs of the routing table, and what
the check of the pair reads. -/
structure Resolution where
  row : Option AgentConfig
  routing : List ProviderModel
  reading : Reading

def Resolution.pair (r : Resolution) (settings : Settings) : Option ProviderModel :=
  (customPair r.reading.usage r.row r.routing r.reading.stored settings r.reading.now).2

/-- The chain with an agent's own pair at its head. -/
def prepend (pair : Option ProviderModel) (chain : List ProviderModel) : List ProviderModel :=
  match pair with
  | none => chain
  | some head => head :: chain.filter (· ≠ head)

structure LastCallInfo where
  provider : String
  model : String
  fellBack : Bool
  failedProviders : List String
  deriving DecidableEq

/-- What `litellm.completion` does; a response may come without an integer token count. -/
inductive Answer
  | response (totalTokens : Option ℤ)
  | raised
  deriving DecidableEq

/-- A call of `complete` under way: it screens its row of the routing table entry by entry, or
tries the chain it has made of it. -/
inductive Call
  | screening (unscreened chain : List ProviderModel)
  | trying (failed untried : List ProviderModel)

inductive Outcome
  | answered (info : LastCallInfo)
  | noConfiguredProvider
  | allFailed (count : ℕ)
  | unknownProvider
  deriving DecidableEq

/-- One call of the provider's API. -/
structure Attempt where
  call : ℕ
  pm : ProviderModel
  failedBefore : List ProviderModel
  succeeded : Bool
  at_ : Instant

/-- The process: its trackers and the calls on its threads. The other fields keep the row of the
routing table that a call has read, what it read at the check of each entry and of its agent's own
pair, the chain it has settled on, what it has returned, and what the calls have tried. -/
structure Router where
  usage : UsageTracker
  failures : FailureTracker
  next : ℕ
  calls : Table ℕ Call
  routings : Table ℕ (List ProviderModel)
  screenings : Table ℕ (List (ProviderModel × Reading))
  resolutions : Table ℕ Resolution
  chains : Table ℕ (List ProviderModel)
  outcomes : Table ℕ Outcome
  attempts : List Attempt

inductive Event
  | complete (routing : List ProviderModel)
  | screen (call : ℕ) (stored : Option String) (now : Instant)
  | resolve (call : ℕ) (row : Option AgentConfig) (routing : List ProviderModel)
      (stored : Option String) (now : Instant)
  | attempt (call : ℕ) (answer : Answer) (now : Instant)

namespace Router

def finish (s : Router) (call : ℕ) (outcome : Outcome) : Router :=
  { s with
    calls := s.calls.erase call
    outcomes := s.outcomes.assign call outcome }

def screen (s : Router) (settings : Settings) (call : ℕ) (pm : ProviderModel)
    (rest chain : List ProviderModel) (stored : Option String) (now : Instant) : Router :=
  let s : Router := { s with
    screenings := s.screenings.modify call (· ++ [(pm, ⟨s.usage, stored, now⟩)]) }
  match isConfigured s.usage pm.provider stored settings now with
  | none => s.finish call .unknownProvider
  | some (usage, configured) =>
    { s with
      usage := usage
      calls := s.calls.assign call
        (.screening rest (if configured then chain ++ [pm] else chain)) }

def resolve (s : Router) (settings : Settings) (call : ℕ) (chain : List ProviderModel)
    (row : Option AgentConfig) (routing : List ProviderModel) (stored : Option String)
    (now : Instant) : Router :=
  let (usage, pair) := customPair s.usage row routing stored settings now
  let s : Router := { s with
    usage := usage
    resolutions := s.resolutions.assign call ⟨row, routing, ⟨s.usage, stored, now⟩⟩
    chains := s.chains.assign call (prepend pair chain) }
  match prepend pair chain with
  | [] => s.finish call .noConfiguredProvider
  | pm :: rest => { s with calls := s.calls.assign call (.trying [] (pm :: rest)) }

def fail (s : Router) (call : ℕ) (failed : List ProviderModel) (pm : ProviderModel)
    (rest : List ProviderModel) (now : Instant) : Router :=
  let s : Router := { s with
    failures := s.failures.recordFailure pm.provider now
    attempts := s.attempts ++ [Attempt.mk call pm failed false now] }
  match rest with
  | [] => s.finish call (.allFailed (failed.length + 1))
  | pm' :: rest => { s with calls := s.calls.assign call (.trying (failed ++ [pm]) (pm' :: rest)) }

def succeed (s : Router) (call : ℕ) (failed : List ProviderModel) (pm : ProviderModel)
    (totalTokens : Option ℤ) (now : Instant) : Router :=
  let usage :=
    match totalTokens with
    | none => s.usage
    | some tokens => if pm.provider = "huggingface" then s.usage.record now tokens else s.usage
  let s : Router := { s with
    usage := usage
    failures := s.failures.recordSuccess pm.provider (failed ≠ [])
    attempts := s.attempts ++ [Attempt.mk call pm failed true now] }
  s.finish call (.answered ⟨pm.provider, pm.model, failed ≠ [], failed.map (·.provider)⟩)

/-- The threads of the process interleave at the locks of the two trackers. -/
def step (settings : Settings) (s : Router) : Event → Option Router
  | .complete routing => some
      { s with
        next := s.next + 1
        routings := s.routings.assign s.next routing
        screenings := s.screenings.assign s.next []
        calls := s.calls.assign s.next (.screening routing []) }
  | .screen call stored now =>
    match s.calls.get? call with
    | some (.screening (pm :: rest) chain) => some (s.screen settings call pm rest chain stored now)
    | _ => none
  | .resolve call row routing stored now =>
    match s.calls.get? call with
    | some (.screening [] chain) => some (s.resolve settings call chain row routing stored now)
    | _ => none
  | .attempt call answer now =>
    match s.calls.get? call with
    | some (.trying failed (pm :: rest)) =>
      match litellmModel pm, answer with
      | some _, .response totalTokens => some (s.succeed call failed pm totalTokens now)
      | _, _ => some (s.fail call failed pm rest now)
    | _ => none

def start (now : Instant) : Router where
  usage := ⟨date now, 0⟩
  failures := ⟨.empty, .empty⟩
  next := 0
  calls := .empty
  routings := .empty
  screenings := .empty
  resolutions := .empty
  chains := .empty
  outcomes := .empty
  attempts := []

end Router

end TradingOS.Agents.LlmRouter
