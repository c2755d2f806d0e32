import Mathlib.Data.Rat.Defs
import TradingOS.Lib.Json
import TradingOS.Lib.Lists
import TradingOS.Lib.Table

namespace TradingOS.Orchestration.Decisions

open Lib

/-- A row of the artefacts table, with its key as text. -/
structure ResultArtefact where
  id : String
  artefactType : String
  payload : List (String × Json String)

inductive ConflictKind
  | marketVsSentiment | riskVsProposal | complianceVsProposal
  deriving DecidableEq

inductive Severity
  | medium | high
  deriving DecidableEq

structure Conflict where
  kind : ConflictKind
  description : String
  artefactIds : List String
  severity : Severity := .medium
  escalateToRole : Option String := none
  nextStep : String := "Proceed with the CEO's recorded resolution."
  supportingAgents : List String := []
  deriving DecidableEq

/-- The float arithmetic that the scores are averaged in. -/
structure Floats (F : Type) where
  float : Leaf → F
  sum : List F → F
  div : F → ℕ → F
  neg : F → F
  le : F → F → Bool
  sentimentThreshold : F
  /-- The format `:+.2f`. -/
  signed : F → String

def bullish : List String := ["Bullish", "Risk-On"]

def bearish : List String := ["Bearish", "Risk-Off"]

def proceedArtefacts : List String :=
  ["StrategyLogic", "AllocationPlan", "OptionStrategyProposal", "PythonCode"]

/-- The order in which the process happens to go through the set. -/
abbrev SetOrder := { order : List String // order.Perm proceedArtefacts }

/-- A field that is text: no other value equals any of the texts it is compared to. -/
def ResultArtefact.text (a : ResultArtefact) (field : String) : Option String :=
  match a.payload.lookup field with
  | some (.leaf (.str s)) => some s
  | _ => none

def number : Json String → Option Leaf
  | .leaf (.bool b) => some (.bool b)
  | .leaf (.int n) => some (.int n)
  | .leaf (.float x) => some (.float x)
  | _ => none

section Detect

variable {F : Type} (floats : Floats F)

def aggregateSentiment (payload : List (String × Json String)) : Option F :=
  let vals := ["per_symbol", "per_sector"].flatMap fun bucket ↦
    match payload.lookup bucket with
    | some (.dict entries) => (entries.filterMap fun e ↦ number e.2).map floats.float
    | _ => []
  if vals.isEmpty then none else some (floats.div (floats.sum vals) vals.length)

def marketVsSentiment (market sentiment : ResultArtefact) : Option Conflict :=
  let regime := (market.text "market_regime").getD ""
  match aggregateSentiment floats sentiment.payload with
  | none => none
  | some agg =>
    let mean := floats.signed agg
    let conflict : Conflict :=
      { kind := .marketVsSentiment
        description := s!"Market regime is '{regime}' but aggregate sentiment is {mean}."
        artefactIds := [market.id, sentiment.id]
        severity := .medium
        supportingAgents := ["market_analyst", "sentiment_agent"] }
    if regime ∈ bullish ∧ floats.le agg (floats.neg floats.sentimentThreshold) then some conflict
    else if regime ∈ bearish ∧ floats.le floats.sentimentThreshold agg then some conflict
    else none

/-- A report that refuses, against a proposal. -/
def vetoVsProposal (kind : ConflictKind) (field refusal description nextStep agent : String)
    (report proceed : ResultArtefact) : Option Conflict :=
  if report.text field = some refusal then
    some
      { kind := kind
        description := description
        artefactIds := [report.id, proceed.id]
        severity := .high
        escalateToRole := some "RiskManager"
        nextStep := nextStep
        supportingAgents := [agent] }
  else none

def riskVsProposal : ResultArtefact → ResultArtefact → Option Conflict :=
  vetoVsProposal .riskVsProposal "decision" "Reject"
    "Risk assessment is 'Reject' while a strategy proposal means to proceed."
    "Do not proceed; risk 'Reject' stands unless a human overrides." "risk_manager"

def complianceVsProposal : ResultArtefact → ResultArtefact → Option Conflict :=
  vetoVsProposal .complianceVsProposal "verdict" "Block"
    "Compliance verdict is 'Block' while a strategy proposal means to proceed."
    "Do not proceed; compliance 'Block' is terminal for this proposal." "compliance"

def detectConflict (order : SetOrder) (artefacts : List ResultArtefact) : Option Conflict :=
  let byType := artefacts.foldl (fun T a ↦ T.setdefault a.artefactType a) Table.empty
  let proceed := order.val.findSome? byType.get?
  let both (a b : Option ResultArtefact) (f : ResultArtefact → ResultArtefact → Option Conflict) :=
    a.bind fun x ↦ b.bind (f x)
  (both (byType.get? "MarketContext") (byType.get? "SentimentReport") (marketVsSentiment floats))
    |>.or (both (byType.get? "RiskReport") proceed riskVsProposal)
    |>.or (both (byType.get? "ComplianceReport") proceed complianceVsProposal)

end Detect

namespace ResultArtefact

variable (a : ResultArtefact)

def isMarket : Bool := a.artefactType = "MarketContext"

def isSentiment : Bool := a.artefactType = "SentimentReport"

def isRisk : Bool := a.artefactType = "RiskReport"

def isCompliance : Bool := a.artefactType = "ComplianceReport"

def rejects : Bool := a.isRisk ∧ a.text "decision" = some "Reject"

def blocks : Bool := a.isCompliance ∧ a.text "verdict" = some "Block"

def vetoes : Bool := a.rejects ∨ a.blocks

def proceeds : Bool := a.artefactType ∈ proceedArtefacts

end ResultArtefact

section Properties

variable {F : Type} (floats : Floats F) (order : SetOrder) (artefacts : List ResultArtefact)

/-- Whether a market regime and a sentiment report genuinely oppose each other. -/
def opposes (market sentiment : ResultArtefact) : Bool :=
  (marketVsSentiment floats market sentiment).isSome

def outcome : Option (ConflictKind × Severity) :=
  (detectConflict floats order artefacts).map fun c ↦ (c.kind, c.severity)

/-- A veto against a proposal is answered by a high-severity conflict that names one. -/
def VetoNamed : Prop :=
  (∃ v ∈ artefacts, v.vetoes) → (∃ p ∈ artefacts, p.proceeds) →
    ∃ c, detectConflict floats order artefacts = some c ∧ c.severity = .high ∧
      ∃ v ∈ artefacts, v.vetoes ∧ v.id ∈ c.artefactIds

/-- And each of them is named by it. -/
def EachVetoNamed : Prop :=
  ∀ v ∈ artefacts, v.vetoes → (∃ p ∈ artefacts, p.proceeds) →
    ∃ c, detectConflict floats order artefacts = some c ∧ c.severity = .high ∧
      v.id ∈ c.artefactIds

def OrderFree : Prop :=
  ∀ artefacts', artefacts'.Perm artefacts →
    outcome floats order artefacts' = outcome floats order artefacts

def AlwaysOpposed : Prop :=
  ∀ m ∈ artefacts, m.isMarket → ∀ s ∈ artefacts, s.isSentiment → opposes floats m s

def NeverOpposed : Prop :=
  ∀ m ∈ artefacts, m.isMarket → ∀ s ∈ artefacts, s.isSentiment → opposes floats m s = false

/-- Every risk report rejects, or none does and every compliance report blocks. -/
def OneVoice : Prop :=
  ((∃ r ∈ artefacts, r.rejects) → ∀ r ∈ artefacts, r.isRisk → r.rejects) ∧
    ((∀ r ∈ artefacts, r.rejects = false) → ∀ c ∈ artefacts, c.isCompliance → c.blocks)

/-- The reports of each kind that the comparator looks at agree. -/
structure Clear : Prop where
  signals : AlwaysOpposed floats artefacts ∨ NeverOpposed floats artefacts
  vetoes : (∃ v ∈ artefacts, v.vetoes) → (∃ p ∈ artefacts, p.proceeds) →
    NeverOpposed floats artefacts ∧ OneVoice artefacts

end Properties

section Outcome

variable {F : Type} {floats : Floats F} {order : SetOrder} {artefacts : List ResultArtefact}

def first (artefacts : List ResultArtefact) (artefactType : String) : Option ResultArtefact :=
  artefacts.find? (·.artefactType = artefactType)

theorem first_eq_some {artefactType : String} {a : ResultArtefact}
    (h : first artefacts artefactType = some a) : a ∈ artefacts ∧ a.artefactType = artefactType :=
  ⟨List.mem_of_find?_eq_some h, by simpa using List.find?_some h⟩

theorem first_isSome {artefactType : String} {a : ResultArtefact} (h : a ∈ artefacts)
    (htype : a.artefactType = artefactType) : (first artefacts artefactType).isSome :=
  List.find?_isSome.mpr ⟨a, h, decide_eq_true htype⟩

def proposal (order : SetOrder) (artefacts : List ResultArtefact) : Option ResultArtefact :=
  order.val.findSome? (first artefacts)

theorem proposal_eq_some {p : ResultArtefact} (h : proposal order artefacts = some p) :
    p ∈ artefacts ∧ p.proceeds := by
  obtain ⟨t, ht, hp⟩ := List.exists_of_findSome?_eq_some h
  obtain ⟨hmem, htype⟩ := first_eq_some hp
  have hproceed : t ∈ proceedArtefacts := order.property.subset ht
  exact ⟨hmem, decide_eq_true (htype ▸ hproceed)⟩

theorem proposal_isSome (order : SetOrder) :
    (proposal order artefacts).isSome ↔ ∃ p ∈ artefacts, p.proceeds := by
  constructor
  · intro h
    obtain ⟨p, hp⟩ := Option.isSome_iff_exists.mp h
    exact ⟨p, proposal_eq_some hp⟩
  · rintro ⟨p, hp, hproceed⟩
    rw [proposal, List.findSome?_isSome_iff]
    have hmem : p.artefactType ∈ proceedArtefacts := of_decide_eq_true hproceed
    exact ⟨p.artefactType, order.property.symm.subset hmem, first_isSome hp rfl⟩

theorem detectConflict_eq : detectConflict floats order artefacts =
    (((first artefacts "MarketContext").bind fun m ↦
      (first artefacts "SentimentReport").bind (marketVsSentiment floats m)).or
    ((first artefacts "RiskReport").bind fun r ↦
      (proposal order artefacts).bind (riskVsProposal r))).or
    ((first artefacts "ComplianceReport").bind fun c ↦
      (proposal order artefacts).bind (complianceVsProposal c)) := by
  have hget : (artefacts.foldl (fun T a ↦ T.setdefault a.artefactType a) Table.empty).get? =
      first artefacts := by
    funext t
    rw [Table.get?_foldl_setdefault ResultArtefact.artefactType]
    rfl
  simp only [detectConflict, hget, proposal]

theorem marketVsSentiment_eq_some {m s : ResultArtefact} {c : Conflict}
    (h : marketVsSentiment floats m s = some c) :
    c.kind = .marketVsSentiment ∧ c.severity = .medium := by
  simp only [marketVsSentiment] at h
  split at h
  · cases h
  · split_ifs at h
    · obtain rfl := Option.some.inj h
      exact ⟨rfl, rfl⟩
    · obtain rfl := Option.some.inj h
      exact ⟨rfl, rfl⟩

section Vetoes

variable {kind : ConflictKind} {field refusal description nextStep agent : String}

theorem vetoVsProposal_eq_some {r p : ResultArtefact} {c : Conflict}
    (h : vetoVsProposal kind field refusal description nextStep agent r p = some c) :
    r.text field = some refusal ∧
      c.kind = kind ∧ c.severity = .high ∧ c.artefactIds = [r.id, p.id] := by
  simp only [vetoVsProposal] at h
  split_ifs at h with hrefuses
  obtain rfl := Option.some.inj h
  exact ⟨hrefuses, rfl, rfl, rfl⟩

theorem any_refuses_eq_isSome {artefactType : String} {refuses : ResultArtefact → Bool}
    (hrefuses : ∀ r, r.artefactType = artefactType → (refuses r ↔ r.text field = some refusal))
    (p : ResultArtefact) : (first artefacts artefactType).any refuses =
      ((first artefacts artefactType).bind fun r ↦
        vetoVsProposal kind field refusal description nextStep agent r p).isSome := by
  cases hr : first artefacts artefactType with
  | none => rfl
  | some r =>
    have hiff := hrefuses r (first_eq_some hr).2
    rw [Option.any_some, Option.bind_some, vetoVsProposal, Bool.eq_iff_iff, hiff]
    split_ifs with h <;> simp [h]

end Vetoes

theorem rejects_iff {r : ResultArtefact} (htype : r.artefactType = "RiskReport") :
    r.rejects ↔ r.text "decision" = some "Reject" := by
  simp [ResultArtefact.rejects, ResultArtefact.isRisk, htype]

theorem blocks_iff {r : ResultArtefact} (htype : r.artefactType = "ComplianceReport") :
    r.blocks ↔ r.text "verdict" = some "Block" := by
  simp [ResultArtefact.blocks, ResultArtefact.isCompliance, htype]

variable (floats artefacts) in
def opposed : Bool :=
  (first artefacts "MarketContext").any fun m ↦
    (first artefacts "SentimentReport").any (opposes floats m)

variable (artefacts) in
def rejected : Bool := (first artefacts "RiskReport").any (·.rejects)

variable (artefacts) in
def blocked : Bool := (first artefacts "ComplianceReport").any (·.blocks)

variable (floats artefacts) in
/-- What the first artefacts of each type make the comparator return. -/
inductive Verdict : Option Conflict → Prop
  | market {c : Conflict} : opposed floats artefacts → c.kind = .marketVsSentiment →
      c.severity = .medium → Verdict (some c)
  | risk {c : Conflict} {r p : ResultArtefact} : opposed floats artefacts = false →
      rejected artefacts → r ∈ artefacts → r.rejects → p ∈ artefacts → p.proceeds →
      c.kind = .riskVsProposal → c.severity = .high → c.artefactIds = [r.id, p.id] →
      Verdict (some c)
  | compliance {c : Conflict} {r p : ResultArtefact} : opposed floats artefacts = false →
      rejected artefacts = false → blocked artefacts → r ∈ artefacts → r.blocks → p ∈ artefacts →
      p.proceeds → c.kind = .complianceVsProposal → c.severity = .high →
      c.artefactIds = [r.id, p.id] → Verdict (some c)
  | none : opposed floats artefacts = false → ((∃ p ∈ artefacts, p.proceeds) →
      rejected artefacts = false ∧ blocked artefacts = false) → Verdict none

theorem opposed_eq_isSome : opposed floats artefacts =
    ((first artefacts "MarketContext").bind fun m ↦
      (first artefacts "SentimentReport").bind (marketVsSentiment floats m)).isSome := by
  rw [opposed]
  cases first artefacts "MarketContext" with
  | none => rfl
  | some m =>
    cases first artefacts "SentimentReport" with
    | none => rfl
    | some s => rfl

theorem rejected_eq_isSome (p : ResultArtefact) : rejected artefacts =
    ((first artefacts "RiskReport").bind (riskVsProposal · p)).isSome :=
  any_refuses_eq_isSome (fun _ ↦ rejects_iff) p

theorem blocked_eq_isSome (p : ResultArtefact) : blocked artefacts =
    ((first artefacts "ComplianceReport").bind (complianceVsProposal · p)).isSome :=
  any_refuses_eq_isSome (fun _ ↦ blocks_iff) p

theorem verdict (floats : Floats F) (order : SetOrder) (artefacts : List ResultArtefact) :
    Verdict floats artefacts (detectConflict floats order artefacts) := by
  rw [detectConflict_eq]
  cases hsignals : (first artefacts "MarketContext").bind fun m ↦
      (first artefacts "SentimentReport").bind (marketVsSentiment floats m) with
  | some c =>
    have hopposed : opposed floats artefacts := by rw [opposed_eq_isSome, hsignals]; rfl
    obtain ⟨m, -, hm⟩ := Option.bind_eq_some_iff.mp hsignals
    obtain ⟨s, -, hc⟩ := Option.bind_eq_some_iff.mp hm
    obtain ⟨hkind, hseverity⟩ := marketVsSentiment_eq_some hc
    exact .market hopposed hkind hseverity
  | none =>
    have hquiet : opposed floats artefacts = false := by rw [opposed_eq_isSome, hsignals]; rfl
    cases hp : proposal order artefacts with
    | none =>
      have hnone : ¬ ∃ p ∈ artefacts, p.proceeds := by
        rw [← proposal_isSome order, hp]
        exact Bool.false_ne_true
      simp only [Option.bind_none, Option.bind_fun_none, Option.or_none]
      exact .none hquiet fun h ↦ absurd h hnone
    | some p =>
      obtain ⟨hmem, hproceeds⟩ := proposal_eq_some hp
      simp only [Option.bind_some, Option.none_or]
      cases hrisk : (first artefacts "RiskReport").bind (riskVsProposal · p) with
      | some c =>
        have hrejected : rejected artefacts := by rw [rejected_eq_isSome p, hrisk]; rfl
        obtain ⟨r, hr, hc⟩ := Option.bind_eq_some_iff.mp hrisk
        obtain ⟨hrmem, htype⟩ := first_eq_some hr
        obtain ⟨hreject, hkind, hseverity, hids⟩ := vetoVsProposal_eq_some hc
        exact .risk hquiet hrejected hrmem ((rejects_iff htype).mpr hreject) hmem hproceeds hkind
          hseverity hids
      | none =>
        have hpassed : rejected artefacts = false := by rw [rejected_eq_isSome p, hrisk]; rfl
        rw [Option.none_or]
        cases hcomp : (first artefacts "ComplianceReport").bind (complianceVsProposal · p) with
        | some c =>
          have hblocked : blocked artefacts := by rw [blocked_eq_isSome p, hcomp]; rfl
          obtain ⟨r, hr, hc⟩ := Option.bind_eq_some_iff.mp hcomp
          obtain ⟨hrmem, htype⟩ := first_eq_some hr
          obtain ⟨hblock, hkind, hseverity, hids⟩ := vetoVsProposal_eq_some hc
          exact .compliance hquiet hpassed hblocked hrmem ((blocks_iff htype).mpr hblock) hmem
            hproceeds hkind hseverity hids
        | none =>
          have hopen : blocked artefacts = false := by rw [blocked_eq_isSome p, hcomp]; rfl
          exact .none hquiet fun _ ↦ ⟨hpassed, hopen⟩

variable (artefacts) in
def proposed : Bool := artefacts.any (·.proceeds)

theorem proposed_iff : proposed artefacts ↔ ∃ p ∈ artefacts, p.proceeds := List.any_eq_true

theorem outcome_eq : outcome floats order artefacts =
    if opposed floats artefacts then some (.marketVsSentiment, .medium)
    else if proposed artefacts ∧ rejected artefacts then some (.riskVsProposal, .high)
    else if proposed artefacts ∧ blocked artefacts then some (.complianceVsProposal, .high)
    else none := by
  have h := verdict floats order artefacts
  rw [outcome]
  generalize detectConflict floats order artefacts = detected at h ⊢
  cases h with
  | market hopposed hkind hseverity =>
    rw [if_pos hopposed, Option.map_some, hkind, hseverity]
  | risk hquiet hrejected _ _ hp hproceeds hkind hseverity _ =>
    have hproposed := proposed_iff.mpr ⟨_, hp, hproceeds⟩
    simp [hquiet, hproposed, hrejected, hkind, hseverity]
  | compliance hquiet hpassed hblocked _ _ hp hproceeds hkind hseverity _ =>
    have hproposed := proposed_iff.mpr ⟨_, hp, hproceeds⟩
    simp [hquiet, hproposed, hpassed, hblocked, hkind, hseverity]
  | none hquiet hnone =>
    rw [← proposed_iff] at hnone
    cases hproposed : proposed artefacts with
    | false => simp [hquiet]
    | true =>
      obtain ⟨hpassed, hopen⟩ := hnone hproposed
      simp [hquiet, hpassed, hopen]

theorem outcome_eq_market_iff (order : SetOrder) :
    outcome floats order artefacts = some (.marketVsSentiment, .medium) ↔
      opposed floats artefacts := by
  rw [outcome_eq]
  split_ifs <;> simp_all

theorem outcome_eq_risk_iff : outcome floats order artefacts = some (.riskVsProposal, .high) ↔
    opposed floats artefacts = false ∧ proposed artefacts ∧ rejected artefacts := by
  rw [outcome_eq]
  split_ifs <;> simp_all

theorem outcome_eq_compliance_iff :
    outcome floats order artefacts = some (.complianceVsProposal, .high) ↔
      opposed floats artefacts = false ∧ proposed artefacts ∧ rejected artefacts = false ∧
        blocked artefacts := by
  rw [outcome_eq]
  split_ifs <;> simp_all

/-- A high-severity conflict names a veto and what it is put in against. -/
theorem exists_of_high {c : Conflict} (h : detectConflict floats order artefacts = some c)
    (hhigh : c.severity = .high) : ∃ v ∈ artefacts, ∃ p ∈ artefacts,
      v.vetoes ∧ p.proceeds ∧ c.artefactIds = [v.id, p.id] := by
  have hv := verdict floats order artefacts
  rw [h] at hv
  cases hv with
  | market _ _ hmedium => cases hmedium.symm.trans hhigh
  | risk _ _ hr hreject hp hproceeds _ _ hids =>
    exact ⟨_, hr, _, hp, decide_eq_true (.inl hreject), hproceeds, hids⟩
  | compliance _ _ _ hr hblock hp hproceeds _ _ hids =>
    exact ⟨_, hr, _, hp, decide_eq_true (.inr hblock), hproceeds, hids⟩

theorem exists_of_outcome {kind : ConflictKind} {severity : Severity}
    (h : outcome floats order artefacts = some (kind, severity)) :
    ∃ c, detectConflict floats order artefacts = some c ∧ c.severity = severity := by
  obtain ⟨c, hc, he⟩ := Option.map_eq_some_iff.mp h
  exact ⟨c, hc, (Prod.mk.inj he).2⟩

end Outcome

section Orders

variable {F : Type} {floats : Floats F} {order : SetOrder} {artefacts artefacts' : List ResultArtefact}

/-- Where the artefacts of a type agree on a property, the first of them has it in every order. -/
theorem any_first_perm {artefactType : String} {f : ResultArtefact → Bool}
    (hagree : ∀ a ∈ artefacts, a.artefactType = artefactType →
      ∀ b ∈ artefacts, b.artefactType = artefactType → f a = f b)
    (hperm : artefacts'.Perm artefacts) :
    (first artefacts' artefactType).any f = (first artefacts artefactType).any f := by
  cases hfirst : first artefacts artefactType with
  | none =>
    have hnone : first artefacts' artefactType = none := by
      refine List.find?_eq_none.mpr fun a ha ↦ ?_
      exact List.find?_eq_none.mp hfirst a (hperm.subset ha)
    rw [hnone]
  | some a =>
    obtain ⟨ha, htype⟩ := first_eq_some hfirst
    obtain ⟨b, hb⟩ := Option.isSome_iff_exists.mp (first_isSome (hperm.symm.subset ha) htype)
    obtain ⟨hbmem, hbtype⟩ := first_eq_some hb
    rw [hb]
    exact hagree b (hperm.subset hbmem) hbtype a ha htype

theorem exists_perm_opposed (floats : Floats F) {m s : ResultArtefact} (hm : m ∈ artefacts)
    (hmarket : m.isMarket)
    (hs : s ∈ artefacts) (hsentiment : s.isSentiment) :
    ∃ artefacts', artefacts'.Perm artefacts ∧ opposed floats artefacts' = opposes floats m s := by
  have hmtype : m.artefactType = "MarketContext" := of_decide_eq_true hmarket
  have hstype : s.artefactType = "SentimentReport" := of_decide_eq_true hsentiment
  obtain ⟨l₁, hl₁, hfirst₁, -⟩ := exists_perm_find? ResultArtefact.artefactType hm
  obtain ⟨l₂, hl₂, hfirst₂, hother⟩ :=
    exists_perm_find? ResultArtefact.artefactType (hl₁.symm.subset hs)
  refine ⟨l₂, hl₂.trans hl₁, ?_⟩
  have hmfirst : first l₂ "MarketContext" = some m := by
    rw [← hmtype, ← hfirst₁]
    exact hother _ (by rw [hmtype, hstype]; decide)
  have hsfirst : first l₂ "SentimentReport" = some s := hstype ▸ hfirst₂
  simp only [opposed, hmfirst, hsfirst, Option.any_some]

theorem exists_perm_rejected {r : ResultArtefact} (hr : r ∈ artefacts) (hrisk : r.isRisk) :
    ∃ artefacts', artefacts'.Perm artefacts ∧ rejected artefacts' = r.rejects := by
  have htype : r.artefactType = "RiskReport" := of_decide_eq_true hrisk
  obtain ⟨l, hl, hfirst, -⟩ := exists_perm_find? ResultArtefact.artefactType hr
  rw [htype] at hfirst
  exact ⟨l, hl, congrArg (Option.any ResultArtefact.rejects) hfirst⟩

theorem exists_perm_blocked {c : ResultArtefact} (hc : c ∈ artefacts)
    (hcompliance : c.isCompliance) :
    ∃ artefacts', artefacts'.Perm artefacts ∧ blocked artefacts' = c.blocks := by
  have htype : c.artefactType = "ComplianceReport" := of_decide_eq_true hcompliance
  obtain ⟨l, hl, hfirst, -⟩ := exists_perm_find? ResultArtefact.artefactType hc
  rw [htype] at hfirst
  exact ⟨l, hl, congrArg (Option.any ResultArtefact.blocks) hfirst⟩

theorem proposed_perm (hperm : artefacts'.Perm artefacts) :
    proposed artefacts' = proposed artefacts := hperm.any_eq

theorem opposed_iff : opposed floats artefacts ↔
    ∃ m s, first artefacts "MarketContext" = some m ∧ first artefacts "SentimentReport" = some s ∧
      opposes floats m s := by
  simp only [opposed, Option.any_eq_true, exists_and_left]

theorem NeverOpposed.opposed_eq_false (h : NeverOpposed floats artefacts)
    (hperm : artefacts'.Perm artefacts) : opposed floats artefacts' = false := by
  rw [Bool.eq_false_iff]
  intro hopposed
  obtain ⟨m, s, hm, hs, hopposes⟩ := opposed_iff.mp hopposed
  obtain ⟨hm, hmarket⟩ := first_eq_some hm
  obtain ⟨hs, hsentiment⟩ := first_eq_some hs
  have hquiet := h m (hperm.subset hm) (decide_eq_true hmarket) s (hperm.subset hs)
    (decide_eq_true hsentiment)
  rw [hquiet] at hopposes
  cases hopposes

theorem AlwaysOpposed.perm (h : AlwaysOpposed floats artefacts)
    (hperm : artefacts'.Perm artefacts) : AlwaysOpposed floats artefacts' :=
  fun m hm hmarket s hs hsentiment ↦
    h m (hperm.subset hm) hmarket s (hperm.subset hs) hsentiment

theorem AlwaysOpposed.opposed (h : AlwaysOpposed floats artefacts)
    (hperm : artefacts'.Perm artefacts) (hopposed : opposed floats artefacts') :
    opposed floats artefacts := by
  obtain ⟨m, s, hm, hs, -⟩ := opposed_iff.mp hopposed
  obtain ⟨hm, hmarket⟩ := first_eq_some hm
  obtain ⟨hs, hsentiment⟩ := first_eq_some hs
  obtain ⟨m', hm'⟩ :=
    Option.isSome_iff_exists.mp (first_isSome (hperm.subset hm) hmarket)
  obtain ⟨s', hs'⟩ :=
    Option.isSome_iff_exists.mp (first_isSome (hperm.subset hs) hsentiment)
  refine opposed_iff.mpr ⟨m', s', hm', hs', ?_⟩
  obtain ⟨hm', hmarket'⟩ := first_eq_some hm'
  obtain ⟨hs', hsentiment'⟩ := first_eq_some hs'
  exact h m' hm' (decide_eq_true hmarket') s' hs' (decide_eq_true hsentiment')

theorem Clear.opposed_perm (h : Clear floats artefacts) (hperm : artefacts'.Perm artefacts) :
    opposed floats artefacts' = opposed floats artefacts := by
  rcases h.signals with halways | hnever
  · exact Bool.eq_iff_iff.mpr
      ⟨halways.opposed hperm, (halways.perm hperm).opposed hperm.symm⟩
  · rw [hnever.opposed_eq_false hperm, hnever.opposed_eq_false (.refl _)]

/-- Risk reports that speak with one voice are heard in every order. -/
theorem Clear.rejected_perm (h : Clear floats artefacts) (hperm : artefacts'.Perm artefacts)
    (hproposed : ∃ p ∈ artefacts, p.proceeds) : rejected artefacts' = rejected artefacts := by
  refine any_first_perm (fun a ha hatype b hb hbtype ↦ ?_) hperm
  by_cases hreject : ∃ r ∈ artefacts, r.rejects
  · obtain ⟨r, hr, hrr⟩ := hreject
    have hveto : ∃ v ∈ artefacts, v.vetoes := ⟨r, hr, decide_eq_true (.inl hrr)⟩
    have hall := (h.vetoes hveto hproposed).2.1 ⟨r, hr, hrr⟩
    rw [hall a ha (decide_eq_true hatype), hall b hb (decide_eq_true hbtype)]
  · have hnone (r) (hr : r ∈ artefacts) : r.rejects = false :=
      Bool.eq_false_iff.mpr fun hrr ↦ hreject ⟨r, hr, hrr⟩
    rw [hnone a ha, hnone b hb]

theorem Clear.blocked_perm (h : Clear floats artefacts) (hperm : artefacts'.Perm artefacts)
    (hproposed : ∃ p ∈ artefacts, p.proceeds) (hpassed : ∀ r ∈ artefacts, r.rejects = false) :
    blocked artefacts' = blocked artefacts := by
  refine any_first_perm (fun a ha hatype b hb hbtype ↦ ?_) hperm
  by_cases hblock : ∃ c ∈ artefacts, c.blocks
  · obtain ⟨c, hc, hcb⟩ := hblock
    have hveto : ∃ v ∈ artefacts, v.vetoes := ⟨c, hc, decide_eq_true (.inr hcb)⟩
    have hall := (h.vetoes hveto hproposed).2.2 hpassed
    rw [hall a ha (decide_eq_true hatype), hall b hb (decide_eq_true hbtype)]
  · have hnone (c) (hc : c ∈ artefacts) : c.blocks = false :=
      Bool.eq_false_iff.mpr fun hcb ↦ hblock ⟨c, hc, hcb⟩
    rw [hnone a ha, hnone b hb]

theorem isRisk_of_rejects {r : ResultArtefact} (h : r.rejects) : r.isRisk :=
  (of_decide_eq_true h).1

theorem isCompliance_of_blocks {c : ResultArtefact} (h : c.blocks) : c.isCompliance :=
  (of_decide_eq_true h).1

theorem OneVoice.rejected (h : OneVoice artefacts) {r : ResultArtefact} (hr : r ∈ artefacts)
    (hreject : r.rejects) : rejected artefacts := by
  have htype : r.artefactType = "RiskReport" := of_decide_eq_true (isRisk_of_rejects hreject)
  obtain ⟨a, ha⟩ := Option.isSome_iff_exists.mp (first_isSome hr htype)
  obtain ⟨hmem, hatype⟩ := first_eq_some ha
  rw [Decisions.rejected, ha]
  exact h.1 ⟨r, hr, hreject⟩ a hmem (decide_eq_true hatype)

theorem OneVoice.blocked (h : OneVoice artefacts) {c : ResultArtefact} (hc : c ∈ artefacts)
    (hblock : c.blocks) (hpassed : ∀ r ∈ artefacts, r.rejects = false) : blocked artefacts := by
  have htype : c.artefactType = "ComplianceReport" :=
    of_decide_eq_true (isCompliance_of_blocks hblock)
  obtain ⟨a, ha⟩ := Option.isSome_iff_exists.mp (first_isSome hc htype)
  obtain ⟨hmem, hatype⟩ := first_eq_some ha
  rw [Decisions.blocked, ha]
  exact h.2 hpassed a hmem (decide_eq_true hatype)

theorem rejected_eq_false (hpassed : ∀ r ∈ artefacts, r.rejects = false) :
    rejected artefacts = false := by
  rw [Bool.eq_false_iff]
  intro hrejected
  obtain ⟨r, hr, hreject⟩ := Option.any_eq_true _ _ |>.mp hrejected
  rw [hpassed r (first_eq_some hr).1] at hreject
  cases hreject

theorem Clear.orderFree (h : Clear floats artefacts) : OrderFree floats order artefacts := by
  intro artefacts' hperm
  rw [outcome_eq, outcome_eq, h.opposed_perm hperm, proposed_perm hperm]
  cases hproposed : proposed artefacts with
  | false => simp
  | true =>
    have hp := proposed_iff.mp hproposed
    rw [h.rejected_perm hperm hp]
    by_cases hreject : ∃ r ∈ artefacts, r.rejects
    · obtain ⟨r, hr, hrr⟩ := hreject
      have hveto : ∃ v ∈ artefacts, v.vetoes := ⟨r, hr, decide_eq_true (.inl hrr)⟩
      have hrejected := (h.vetoes hveto hp).2.rejected hr hrr
      simp [hrejected]
    · rw [h.blocked_perm hperm hp fun r hr ↦
        Bool.eq_false_iff.mpr fun hrr ↦ hreject ⟨r, hr, hrr⟩]

theorem Clear.vetoNamed (h : Clear floats artefacts) : VetoNamed floats order artefacts := by
  intro hveto hp
  obtain ⟨hnever, hvoice⟩ := h.vetoes hveto hp
  have hquiet := hnever.opposed_eq_false (.refl _)
  have hhigh : ∃ kind, outcome floats order artefacts = some (kind, .high) := by
    by_cases hpassed : ∀ r ∈ artefacts, r.rejects = false
    · obtain ⟨v, hv, hvetoes⟩ := hveto
      have hblock : v.blocks := (of_decide_eq_true hvetoes).resolve_left (by simp [hpassed v hv])
      exact ⟨_, outcome_eq_compliance_iff.mpr ⟨hquiet, proposed_iff.mpr hp,
        rejected_eq_false hpassed, hvoice.blocked hv hblock hpassed⟩⟩
    · push Not at hpassed
      obtain ⟨r, hr, hreject⟩ := hpassed
      exact ⟨_, outcome_eq_risk_iff.mpr ⟨hquiet, proposed_iff.mpr hp,
        hvoice.rejected hr (Bool.not_eq_false _ |>.mp hreject)⟩⟩
  obtain ⟨kind, hkind⟩ := hhigh
  obtain ⟨c, hc, hseverity⟩ := exists_of_outcome hkind
  obtain ⟨v, hv, p, -, hvetoes, -, hids⟩ := exists_of_high hc hseverity
  exact ⟨c, hc, hseverity, v, hv, hvetoes, by rw [hids]; exact List.mem_cons_self⟩

/-- The comparator sees the opposition of any two reports in some order. -/
theorem OrderFree.opposed_eq (h : OrderFree floats order artefacts) {m s : ResultArtefact}
    (hm : m ∈ artefacts) (hmarket : m.isMarket) (hs : s ∈ artefacts)
    (hsentiment : s.isSentiment) : opposed floats artefacts = opposes floats m s := by
  obtain ⟨l, hperm, hl⟩ := exists_perm_opposed floats hm hmarket hs hsentiment
  have hsame := h l hperm
  rw [← hl, Bool.eq_iff_iff, ← outcome_eq_market_iff order,
    ← outcome_eq_market_iff order, hsame]

theorem OrderFree.signals (h : OrderFree floats order artefacts) :
    AlwaysOpposed floats artefacts ∨ NeverOpposed floats artefacts := by
  cases hopposed : opposed floats artefacts with
  | true =>
    refine .inl fun m hm hmarket s hs hsentiment ↦ ?_
    rw [← h.opposed_eq hm hmarket hs hsentiment, hopposed]
  | false =>
    refine .inr fun m hm hmarket s hs hsentiment ↦ ?_
    rw [← h.opposed_eq hm hmarket hs hsentiment, hopposed]

theorem OrderFree.oneVoice (h : OrderFree floats order artefacts)
    (hnever : NeverOpposed floats artefacts) (hveto : ∃ v ∈ artefacts, v.vetoes)
    (hp : ∃ p ∈ artefacts, p.proceeds) : OneVoice artefacts := by
  have hproposed := proposed_iff.mpr hp
  constructor
  · rintro ⟨r, hr, hreject⟩ r' hr' hrisk'
    obtain ⟨l, hperm, hl⟩ := exists_perm_rejected hr (isRisk_of_rejects hreject)
    obtain ⟨l', hperm', hl'⟩ := exists_perm_rejected hr' hrisk'
    have hout : outcome floats order l = some (.riskVsProposal, .high) :=
      outcome_eq_risk_iff.mpr ⟨hnever.opposed_eq_false hperm,
        (proposed_perm hperm).trans hproposed, hl.trans hreject⟩
    rw [h l hperm, ← h l' hperm', outcome_eq_risk_iff] at hout
    exact hl' ▸ hout.2.2
  · intro hpassed c' hc' hcompliance'
    obtain ⟨v, hv, hvetoes⟩ := hveto
    have hblock : v.blocks := (of_decide_eq_true hvetoes).resolve_left (by simp [hpassed v hv])
    obtain ⟨l, hperm, hl⟩ := exists_perm_blocked hv (isCompliance_of_blocks hblock)
    obtain ⟨l', hperm', hl'⟩ := exists_perm_blocked hc' hcompliance'
    have hquiet : rejected l = false :=
      rejected_eq_false fun r hr ↦ hpassed r (hperm.subset hr)
    have hout : outcome floats order l = some (.complianceVsProposal, .high) :=
      outcome_eq_compliance_iff.mpr ⟨hnever.opposed_eq_false hperm,
        (proposed_perm hperm).trans hproposed, hquiet, hl.trans hblock⟩
    rw [h l hperm, ← h l' hperm', outcome_eq_compliance_iff] at hout
    exact hl' ▸ hout.2.2.2

theorem clear_of_vetoNamed (hnamed : VetoNamed floats order artefacts)
    (hfree : OrderFree floats order artefacts) : Clear floats artefacts where
  signals := hfree.signals
  vetoes hveto hp := by
    obtain ⟨c, hc, hhigh, -⟩ := hnamed hveto hp
    have hquiet : opposed floats artefacts = false := by
      rw [Bool.eq_false_iff]
      intro hopposed
      have hout : outcome floats order artefacts = some (.marketVsSentiment, .medium) :=
        (outcome_eq_market_iff _).mpr hopposed
      rw [outcome, hc, Option.map_some, hhigh] at hout
      exact absurd (Prod.mk.inj (Option.some.inj hout)).2 (by decide)
    have hnever : NeverOpposed floats artefacts := by
      intro m hm hmarket s hs hsentiment
      rw [← hfree.opposed_eq hm hmarket hs hsentiment, hquiet]
    exact ⟨hnever, hfree.oneVoice hnever hveto hp⟩

theorem not_proceeds_of_vetoes {v : ResultArtefact} (h : v.vetoes) : v.proceeds = false := by
  rcases of_decide_eq_true h with hreject | hblock
  · have htype : v.artefactType = "RiskReport" := of_decide_eq_true (isRisk_of_rejects hreject)
    simp [ResultArtefact.proceeds, proceedArtefacts, htype]
  · have htype : v.artefactType = "ComplianceReport" :=
      of_decide_eq_true (isCompliance_of_blocks hblock)
    simp [ResultArtefact.proceeds, proceedArtefacts, htype]

end Orders

/-- The artefacts of a run, which the key of their table tells apart. -/
structure RunArtefacts where
  rows : List ResultArtefact
  nodup : (rows.map (·.id)).Nodup

/-- No proposal has two vetoes against it. -/
def LoneVeto (artefacts : List ResultArtefact) : Prop :=
  (∃ p ∈ artefacts, p.proceeds) →
    ∀ v ∈ artefacts, v.vetoes → ∀ w ∈ artefacts, w.vetoes → v = w

section Run

variable {F : Type} {floats : Floats F} {order : SetOrder} (a : RunArtefacts)

/-- The one veto that a high-severity conflict names. -/
theorem RunArtefacts.exists_named {c : Conflict}
    (h : detectConflict floats order a.rows = some c) (hhigh : c.severity = .high) :
    ∃ x ∈ a.rows, x.vetoes ∧ ∀ v ∈ a.rows, v.vetoes → (v.id ∈ c.artefactIds ↔ v = x) := by
  obtain ⟨x, hx, p, hp, hvetoes, hproceeds, hids⟩ := exists_of_high h hhigh
  refine ⟨x, hx, hvetoes, fun v hv hveto ↦ ?_⟩
  have hinj {b : ResultArtefact} (hb : b ∈ a.rows) (hid : v.id = b.id) : v = b :=
    List.inj_on_of_nodup_map a.nodup hv hb hid
  rw [hids, List.mem_pair]
  constructor
  · rintro (hid | hid)
    · exact hinj hx hid
    · obtain rfl := hinj hp hid
      rw [not_proceeds_of_vetoes hveto] at hproceeds
      cases hproceeds
  · rintro rfl
    exact .inl rfl

theorem RunArtefacts.eachVetoNamed_iff : EachVetoNamed floats order a.rows ↔
    VetoNamed floats order a.rows ∧ LoneVeto a.rows := by
  constructor
  · intro heach
    constructor
    · rintro ⟨v, hv, hveto⟩ hp
      obtain ⟨c, hc, hhigh, hnamed⟩ := heach v hv hveto hp
      exact ⟨c, hc, hhigh, v, hv, hveto, hnamed⟩
    · intro hp v hv hveto w hw hveto'
      obtain ⟨c, hc, hhigh, hnamed⟩ := heach v hv hveto hp
      obtain ⟨c', hc', -, hnamed'⟩ := heach w hw hveto' hp
      obtain rfl := Option.some.inj (hc.symm.trans hc')
      obtain ⟨x, -, -, hx⟩ := a.exists_named hc hhigh
      rw [(hx v hv hveto).mp hnamed, (hx w hw hveto').mp hnamed']
  · rintro ⟨hnamed, hlone⟩ v hv hveto hp
    obtain ⟨c, hc, hhigh, w, hw, hveto', hid⟩ := hnamed ⟨v, hv, hveto⟩ hp
    obtain rfl := hlone hp v hv hveto w hw hveto'
    exact ⟨c, hc, hhigh, hid⟩

/-- For every list of artefacts of a run and every order of the set of proceeding types: a veto
against a proposal is named by a high-severity conflict, and no permutation changes the kind and
severity of what is returned, exactly if the reports of each kind agree. For each veto to be named,
there must be one only. -/
theorem veto_unmasked_iff (floats : Floats F) (order : SetOrder) (a : RunArtefacts) :
    (VetoNamed floats order a.rows ∧ OrderFree floats order a.rows ↔ Clear floats a.rows) ∧
      (EachVetoNamed floats order a.rows ∧ OrderFree floats order a.rows ↔
        Clear floats a.rows ∧ LoneVeto a.rows) := by
  have hclear : VetoNamed floats order a.rows ∧ OrderFree floats order a.rows ↔
      Clear floats a.rows :=
    ⟨fun ⟨hnamed, hfree⟩ ↦ clear_of_vetoNamed hnamed hfree, fun h ↦ ⟨h.vetoNamed, h.orderFree⟩⟩
  refine ⟨hclear, ?_⟩
  rw [a.eachVetoNamed_iff, and_right_comm, hclear]

end Run

section Example

/-- The arithmetic, as far as it is exact, with the one number that is printed. -/
def rationals : Floats ℚ where
  float
    | .bool b => if b then 1 else 0
    | .int n => n
    | .float x =>
      (if x.negative then -1 else 1) * x.significand * 10 ^ x.shift.toNat / 10 ^ (-x.shift).toNat
    | _ => 0
  sum := List.foldl (· + ·) 0
  div x n := x / n
  neg x := -x
  le x y := x ≤ y
  sentimentThreshold := 3602879701896397 / 2 ^ 54
  signed _ := "-1.00"

def writtenOrder : SetOrder := ⟨proceedArtefacts, .refl _⟩

/-- A bullish market, a bad mood, and a strategy that risk rejects. -/
def badMood : RunArtefacts where
  rows :=
    [⟨"a1", "MarketContext", [("market_regime", .leaf (.str "Bullish"))]⟩,
     ⟨"a2", "SentimentReport",
      [("per_symbol", .dict [("AAA", .leaf (.int (-1)))]), ("per_sector", .dict [])]⟩,
     ⟨"a3", "StrategyLogic", []⟩,
     ⟨"a4", "RiskReport", [("decision", .leaf (.str "Reject"))]⟩]
  nodup := by decide

/-- One strategy approved, and the other rejected. -/
def twoReports : RunArtefacts where
  rows :=
    [⟨"b1", "StrategyLogic", []⟩,
     ⟨"b2", "RiskReport", [("decision", .leaf (.str "Approve"))]⟩,
     ⟨"b3", "RiskReport", [("decision", .leaf (.str "Reject"))]⟩]
  nodup := by decide

/-- The mood hides the rejection, and so does the approval that comes before it. -/
theorem veto_masked :
    (outcome rationals writtenOrder badMood.rows = some (.marketVsSentiment, .medium) ∧
      ¬ VetoNamed rationals writtenOrder badMood.rows) ∧
    (outcome rationals writtenOrder twoReports.rows = none ∧
      ¬ VetoNamed rationals writtenOrder twoReports.rows ∧
      ¬ OrderFree rationals writtenOrder twoReports.rows) := by
  have hmood : outcome rationals writtenOrder badMood.rows =
    some (.marketVsSentiment, .medium) := by decide +kernel
  have htwo : outcome rationals writtenOrder twoReports.rows = none := by decide +kernel
  refine ⟨⟨hmood, fun h ↦ ?_⟩, htwo, fun h ↦ ?_, fun h ↦ ?_⟩
  · obtain ⟨c, hc, hhigh, -⟩ := h ⟨_, List.mem_of_getElem? (i := 3) rfl, by decide⟩
      ⟨_, List.mem_of_getElem? (i := 2) rfl, by decide⟩
    rw [outcome, hc, Option.map_some, hhigh] at hmood
    exact absurd (Prod.mk.inj (Option.some.inj hmood)).2 (by decide)
  · obtain ⟨c, hc, -⟩ := h ⟨_, List.mem_of_getElem? (i := 2) rfl, by decide⟩
      ⟨_, List.mem_of_getElem? (i := 0) rfl, by decide⟩
    rw [outcome, hc] at htwo
    cases htwo
  · have hreversed := h twoReports.rows.reverse (List.reverse_perm _)
    rw [htwo] at hreversed
    have hrisk : outcome rationals writtenOrder twoReports.rows.reverse =
      some (.riskVsProposal, .high) := by decide +kernel
    cases hrisk.symm.trans hreversed

end Example

end TradingOS.Orchestration.Decisions
