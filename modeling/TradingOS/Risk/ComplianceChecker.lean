import TradingOS.Risk.NakedOptionsScanner

namespace TradingOS.Risk

inductive ComplianceRule
  | nakedOptions | sebiPositionLimit | circuitFilter
  deriving DecidableEq

def ComplianceRule.text : ComplianceRule → String
  | nakedOptions => "BR-02_NAKED_OPTIONS"
  | sebiPositionLimit => "SEBI_POSITION_LIMIT"
  | circuitFilter => "CIRCUIT_FILTER"

/-- How the messages print floats: in full, and with two decimals. -/
structure FloatFormat where
  plain : ℚ → String
  fixed2 : ℚ → String

def placeholderSebiPositionLimits : List (String × ℤ) :=
  [("RELIANCE", 50000), ("TCS", 40000), ("INFY", 60000), ("HDFCBANK", 55000), ("ICICIBANK", 55000)]

def placeholderCircuitBandPct : ℚ := 20 / 100

structure ComplianceViolation where
  rule : ComplianceRule
  detail : String
  remediation : String
  deriving DecidableEq

inductive Verdict
  | pass | block
  deriving DecidableEq

structure ComplianceVerdict where
  verdict : Verdict
  violations : List ComplianceViolation
  nakedOptionsChecked : Bool
  positionLimitChecked : Bool
  circuitFilterChecked : Bool
  deriving DecidableEq

def checkPositionLimit (symbol : String) (quantity : ℤ) : Option ComplianceViolation :=
  match placeholderSebiPositionLimits.lookup symbol with
  | none => none
  | some limit =>
    if limit < |quantity| then
      some
        { rule := .sebiPositionLimit
          detail := s!"{symbol}: requested quantity {quantity} exceeds placeholder limit {limit}"
          remediation := s!"Reduce order quantity to at most {limit} for {symbol}" }
    else none

def OptionType.text : OptionType → String
  | ce => "CE"
  | pe => "PE"

section

variable (fmt : FloatFormat)

def checkCircuitFilter (symbol : String) (referencePrice : ℚ) :
    Option ℚ → Option ComplianceViolation
  | none => none
  | some limitPrice =>
    let upper := referencePrice * (1 + placeholderCircuitBandPct)
    let lower := referencePrice * (1 - placeholderCircuitBandPct)
    if lower ≤ limitPrice ∧ limitPrice ≤ upper then none
    else
      let limitText := fmt.plain limitPrice
      let referenceText := fmt.plain referencePrice
      let lowerText := fmt.fixed2 lower
      let upperText := fmt.fixed2 upper
      some
        { rule := .circuitFilter
          detail := s!"{symbol}: limit price {limitText} outside the placeholder " ++
            s!"+/-20% band [{lowerText}, {upperText}] around reference {referenceText}"
          remediation := s!"Set a limit price within [{lowerText}, {upperText}]" }

def nakedViolation (leg : OptionLeg) : ComplianceViolation :=
  let symbol := leg.symbol
  let optionType := leg.optionType.text
  let strike := fmt.plain leg.strike
  { rule := .nakedOptions
    detail := s!"{symbol} {optionType} strike {strike}: sold leg has no same-underlying OTM hedge"
    remediation := "Add a same-underlying, same-type hedge leg at the correct OTM strike, " ++
      "or remove this leg" }

/-- A check without data is not run, and says so. -/
def evaluateCompliance (symbol : String) (quantity : Option ℤ) (referencePrice limitPrice : Option ℚ)
    (optionLegs : Option (List OptionLeg)) : ComplianceVerdict :=
  let position := quantity.bind (checkPositionLimit symbol)
  let circuit := referencePrice.bind fun price ↦ checkCircuitFilter fmt symbol price limitPrice
  let naked := optionLegs.map fun legs ↦
    (scanForNakedOptions legs).nakedLegs.map (nakedViolation fmt)
  let violations := position.toList ++ circuit.toList ++ naked.getD []
  { verdict := if violations = [] then .pass else .block
    violations := violations
    nakedOptionsChecked := optionLegs.isSome
    positionLimitChecked := quantity.isSome
    circuitFilterChecked := limitPrice.isSome ∧ referencePrice.isSome }

theorem checkPositionLimit_rule {symbol : String} {quantity : ℤ} {v : ComplianceViolation}
    (h : checkPositionLimit symbol quantity = some v) : v.rule = .sebiPositionLimit := by
  unfold checkPositionLimit at h
  split at h
  · cases h
  · split at h
    · obtain rfl := Option.some.inj h
      rfl
    · cases h

theorem checkCircuitFilter_rule {symbol : String} {referencePrice : ℚ} {limitPrice : Option ℚ}
    {v : ComplianceViolation} (h : checkCircuitFilter fmt symbol referencePrice limitPrice = some v) :
    v.rule = .circuitFilter := by
  unfold checkCircuitFilter at h
  split at h
  · cases h
  · dsimp only at h
    split at h
    · cases h
    · obtain rfl := Option.some.inj h
      rfl

theorem nakedOptions_violation_iff (symbol : String) (quantity : Option ℤ)
    (referencePrice limitPrice : Option ℚ) (optionLegs : Option (List OptionLeg)) :
    (∃ v ∈ (evaluateCompliance fmt symbol quantity referencePrice limitPrice optionLegs).violations,
      v.rule = .nakedOptions) ↔
      ∃ legs, optionLegs = some legs ∧ ¬ (scanForNakedOptions legs).passed := by
  simp only [evaluateCompliance, List.mem_append, Option.mem_toList, NakedOptionsScanResult.passed,
    decide_eq_true_eq, List.length_eq_zero_iff]
  constructor
  · rintro ⟨v, (hv | hv) | hv, hrule⟩
    · obtain ⟨q, -, hq⟩ := Option.bind_eq_some_iff.mp hv
      cases hrule.symm.trans (checkPositionLimit_rule hq)
    · obtain ⟨price, -, hp⟩ := Option.bind_eq_some_iff.mp hv
      cases hrule.symm.trans (checkCircuitFilter_rule fmt hp)
    · cases optionLegs with
      | none => cases hv
      | some legs =>
        refine ⟨legs, rfl, fun hnil ↦ ?_⟩
        simp [hnil] at hv
  · rintro ⟨legs, rfl, hne⟩
    obtain ⟨leg, rest, hcons⟩ := List.exists_cons_of_ne_nil hne
    exact ⟨nakedViolation fmt leg, .inr (by simp [hcons]), rfl⟩

end

end TradingOS.Risk
