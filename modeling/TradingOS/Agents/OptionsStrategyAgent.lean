import Mathlib.Data.List.Nodup
import TradingOS.Lib.Lists
import TradingOS.Risk.ComplianceChecker

namespace TradingOS.Agents

open Lib Risk

inductive AssetClass
  | equity | fno
  deriving DecidableEq

def Side.isDeclared : Side → Bool
  | .buy | .sell => true
  | .other _ => false

/-- The validated twin of the scanner's leg: its side is one of the two. -/
structure StrategyOptionLeg extends OptionLeg where
  declared : Side.isDeclared side
  deriving DecidableEq

/-- The fields of the strategy that the option nodes read or write; `symbols` is its
`universe`. -/
structure StrategyLogic where
  assetClass : AssetClass
  symbols : List String
  optionLegs : Option (List StrategyOptionLeg)
  deriving DecidableEq

abbrev Date := ℕ

structure OptionInstrument where
  symbol : String
  strike : ℚ
  optionType : OptionType
  deriving DecidableEq

structure OptionChain where
  expiry : Date
  instruments : List OptionInstrument
  deriving DecidableEq

/-- A leg of the model's answer, `none` where reading the field raises. -/
structure RawLeg where
  strike : Option ℚ
  optionType : Option OptionType
  side : Option Side
  quantity : Option ℤ
  deriving DecidableEq

/-- One answer of the model: unusable, or an object with its legs, if it has that key. -/
inductive LlmReply
  | unusable
  | parsed (legs : Option (List RawLeg)) (rationale : String)
  deriving DecidableEq

structure OptionsStrategyProposal where
  legs : List OptionLeg
  rationale : String
  deriving DecidableEq

namespace OptionChain

variable (chain : OptionChain)

def lists (strike : ℚ) (optionType : OptionType) : Bool :=
  chain.instruments.any fun i ↦ i.strike = strike ∧ i.optionType = optionType

/-- A mapping comprehension: of two rows with one strike and type the later one is kept. -/
def symbolLookup (strike : ℚ) (optionType : OptionType) : Option String :=
  (chain.instruments.reverse.find? fun i ↦ i.strike = strike ∧ i.optionType = optionType).map
    (·.symbol)

def parseLeg (underlying : String) (raw : RawLeg) : Option OptionLeg := do
  let strike ← raw.strike
  let optionType ← raw.optionType
  if chain.lists strike optionType then
    let side ← raw.side
    let quantity ← raw.quantity
    return ⟨underlying, optionType, strike, side, quantity⟩
  else none

/-- Every leg carries the underlying as its symbol, which is what the scanner pairs by. -/
def parseLegs (underlying : String) (raw : List RawLeg) : Option (List OptionLeg) :=
  raw.mapM (chain.parseLeg underlying)

def attempt (underlying : String) : LlmReply → Option OptionsStrategyProposal
  | .unusable => none
  | .parsed legs rationale =>
    match chain.parseLegs underlying (legs.getD []) with
    | none => none
    | some legs => if (scanForNakedOptions legs).passed then some ⟨legs, rationale⟩ else none

def maxAttempts : ℕ := 2

def generateOptionsStrategy (underlying : String) (replies : List LlmReply) :
    Option OptionsStrategyProposal :=
  if chain.instruments = [] then none
  else (replies.take maxAttempts).findSome? (chain.attempt underlying)

/-- A contract symbol instead of the underlying; a side that is neither raises. -/
def groundLeg (leg : OptionLeg) : Option StrategyOptionLeg :=
  if h : Side.isDeclared leg.side then
    some
      { symbol := (chain.symbolLookup leg.strike leg.optionType).getD leg.symbol
        optionType := leg.optionType
        strike := leg.strike
        side := leg.side
        quantity := leg.quantity
        declared := h }
  else none

def groundLegs (legs : List OptionLeg) : Option (List StrategyOptionLeg) := legs.mapM chain.groundLeg

end OptionChain

/-- The keys the node returns, `none` for a key it leaves out. -/
structure OptionsUpdate where
  strategyLogic : Option StrategyLogic
  optionExpiry : Option Date
  optionRationale : Option String
  deriving DecidableEq

/-- `chain` is what could be fetched for the underlying. `none`: the node raises. -/
def optionsStrategyNode (strategy : StrategyLogic) (chain : Option OptionChain)
    (replies : List LlmReply) : Option OptionsUpdate :=
  let degraded : OptionsUpdate := ⟨some { strategy with optionLegs := none }, none, none⟩
  if strategy.assetClass ≠ .fno then some ⟨none, none, none⟩
  else
    match strategy.symbols.head? with
    | none => some degraded
    | some underlying =>
      if underlying = "" then some degraded
      else
        match chain with
        | none => some degraded
        | some chain =>
          match chain.generateOptionsStrategy underlying replies with
          | none => some degraded
          | some proposal =>
            (chain.groundLegs proposal.legs).map fun legs ↦
              ⟨some { strategy with optionLegs := some legs }, some chain.expiry,
                some proposal.rationale⟩

theorem strategyLogic_ne_none {strategy : StrategyLogic} {chain : Option OptionChain}
    {replies : List LlmReply} {update : OptionsUpdate} (hfno : strategy.assetClass = .fno)
    (h : optionsStrategyNode strategy chain replies = some update) :
    update.strategyLogic ≠ none := by
  simp only [optionsStrategyNode] at h
  rw [if_neg (not_not.mpr hfno)] at h
  repeat' split at h
  all_goals first
    | (obtain rfl := Option.some.inj h; nofun)
    | (obtain ⟨legs, -, rfl⟩ := Option.map_eq_some_iff.mp h; nofun)

/-- The legs `compliance_node` hands over: none for an empty list. -/
def declaredLegs (strategy : StrategyLogic) : Option (List OptionLeg) :=
  match strategy.optionLegs with
  | none | some [] => none
  | some legs => some (legs.map (·.toOptionLeg))

/-- The verdict of `compliance_node`, for the quantity it has estimated. -/
def complianceNode (fmt : FloatFormat) (strategy : StrategyLogic) (quantity : Option ℤ) :
    ComplianceVerdict :=
  evaluateCompliance fmt (strategy.symbols.head?.getD "UNKNOWN") quantity none none
    (declaredLegs strategy)

def runNakedOptionsCheck (strategy : StrategyLogic) : Bool × List OptionLeg :=
  match declaredLegs strategy with
  | none => (false, [])
  | some legs => (true, (scanForNakedOptions legs).nakedLegs)

def LaterScansClear (fmt : FloatFormat) (strategy : StrategyLogic) (quantity : Option ℤ) : Prop :=
  (∀ v ∈ (complianceNode fmt strategy quantity).violations, v.rule ≠ .nakedOptions) ∧
    (runNakedOptionsCheck strategy).2 = []

theorem laterScansClear_iff (fmt : FloatFormat) (strategy : StrategyLogic) (quantity : Option ℤ) :
    LaterScansClear fmt strategy quantity ↔
      ∀ legs, declaredLegs strategy = some legs → (scanForNakedOptions legs).passed := by
  have hcompliance : (∀ v ∈ (complianceNode fmt strategy quantity).violations,
      v.rule ≠ .nakedOptions) ↔
      ∀ legs, declaredLegs strategy = some legs → (scanForNakedOptions legs).passed := by
    have h := not_congr (nakedOptions_violation_iff fmt (strategy.symbols.head?.getD "UNKNOWN")
      quantity none none (declaredLegs strategy))
    simpa only [complianceNode, not_exists, not_and, not_not, ne_eq] using h
  rw [LaterScansClear, hcompliance, and_iff_left_iff_imp]
  intro h
  simp only [runNakedOptionsCheck]
  cases hlegs : declaredLegs strategy with
  | none => rfl
  | some legs => simpa [NakedOptionsScanResult.passed] using h legs hlegs

section Grounding

variable {chain : OptionChain} {underlying : String}

theorem lists_of_parseLeg {raw : RawLeg} {leg : OptionLeg}
    (h : chain.parseLeg underlying raw = some leg) :
    leg.symbol = underlying ∧ chain.lists leg.strike leg.optionType := by
  simp only [OptionChain.parseLeg] at h
  simp only [Option.bind_eq_bind, Option.bind_eq_some_iff] at h
  obtain ⟨strike, -, optionType, -, h⟩ := h
  split at h
  · next hlists =>
    simp only [Option.bind_eq_some_iff] at h
    obtain ⟨side, -, quantity, -, h⟩ := h
    obtain rfl := Option.some.inj h
    exact ⟨rfl, hlists⟩
  · cases h

theorem mem_of_symbolLookup {strike : ℚ} {optionType : OptionType} {symbol : String}
    (h : chain.symbolLookup strike optionType = some symbol) : ∃ i ∈ chain.instruments,
      i.strike = strike ∧ i.optionType = optionType ∧ i.symbol = symbol := by
  obtain ⟨i, hi, rfl⟩ := Option.map_eq_some_iff.mp h
  have hmem := List.mem_reverse.mp (List.mem_of_find?_eq_some hi)
  have hmatch := List.find?_some hi
  rw [decide_eq_true_eq] at hmatch
  exact ⟨i, hmem, hmatch.1, hmatch.2, rfl⟩

theorem symbolLookup_isSome {strike : ℚ} {optionType : OptionType}
    (h : chain.lists strike optionType) : (chain.symbolLookup strike optionType).isSome := by
  obtain ⟨i, hi, hmatch⟩ := List.any_eq_true.mp h
  rw [OptionChain.symbolLookup, Option.isSome_map, List.find?_isSome]
  exact ⟨i, List.mem_reverse.mpr hi, hmatch⟩

theorem contract_unique (hdistinct : (chain.instruments.map (·.symbol)).Nodup)
    {a b : OptionLeg} {symbol : String}
    (ha : chain.symbolLookup a.strike a.optionType = some symbol)
    (hb : chain.symbolLookup b.strike b.optionType = some symbol) : a.strike = b.strike := by
  obtain ⟨i, hi, hstrike, -, hsym⟩ := mem_of_symbolLookup ha
  obtain ⟨j, hj, hstrike', -, hsym'⟩ := mem_of_symbolLookup hb
  have hij : i = j := List.inj_on_of_nodup_map hdistinct hi hj (hsym.trans hsym'.symm)
  rw [← hstrike, ← hstrike', hij]

theorem groundLeg_eq_some {leg : OptionLeg} {grounded : StrategyOptionLeg}
    (h : chain.groundLeg leg = some grounded) : grounded.optionType = leg.optionType ∧
      grounded.strike = leg.strike ∧ grounded.side = leg.side ∧
      grounded.symbol = (chain.symbolLookup leg.strike leg.optionType).getD leg.symbol := by
  simp only [OptionChain.groundLeg] at h
  split at h
  · obtain rfl := Option.some.inj h
    exact ⟨rfl, rfl, rfl, rfl⟩
  · cases h

variable {raw : List RawLeg} {legs : List OptionLeg} {grounded : List StrategyOptionLeg}

theorem symbolLookup_of_parseLegs (hparse : chain.parseLegs underlying raw = some legs)
    {leg : OptionLeg} (hleg : leg ∈ legs) :
    ∃ symbol, chain.symbolLookup leg.strike leg.optionType = some symbol := by
  obtain ⟨r, -, hr⟩ := (mem_of_mapM hparse).mp hleg
  exact Option.isSome_iff_exists.mp (symbolLookup_isSome (lists_of_parseLeg hr).2)

/-- On contract symbols no sold leg has a hedge: the wing is another contract. -/
theorem not_hasHedge_grounded (hdistinct : (chain.instruments.map (·.symbol)).Nodup)
    (hparse : chain.parseLegs underlying raw = some legs)
    (hground : chain.groundLegs legs = some grounded) {soldLeg : StrategyOptionLeg}
    (hsold : soldLeg ∈ grounded) :
    ¬ hasHedge soldLeg.toOptionLeg (grounded.map (·.toOptionLeg)) := by
  rw [hasHedge_iff]
  rintro ⟨_, hmem, hsymbol, -, htype, hbeyond⟩
  obtain ⟨other, hother, rfl⟩ := List.mem_map.mp hmem
  obtain ⟨a, ha, hga⟩ := (mem_of_mapM hground).mp hsold
  obtain ⟨b, hb, hgb⟩ := (mem_of_mapM hground).mp hother
  obtain ⟨-, hstrikeA, -, hsymA⟩ := groundLeg_eq_some hga
  obtain ⟨-, hstrikeB, -, hsymB⟩ := groundLeg_eq_some hgb
  obtain ⟨symbolA, hlookA⟩ := symbolLookup_of_parseLegs hparse ha
  obtain ⟨symbolB, hlookB⟩ := symbolLookup_of_parseLegs hparse hb
  rw [hlookA, Option.getD_some] at hsymA
  rw [hlookB, Option.getD_some] at hsymB
  have hsame : symbolB = symbolA := by rw [← hsymA, ← hsymB, hsymbol]
  have hstrike : other.strike = soldLeg.strike := by
    rw [hstrikeA, hstrikeB]
    exact contract_unique hdistinct hlookB (hsame ▸ hlookA)
  simp only [OptionLeg.beyond] at hbeyond
  cases htyp : soldLeg.optionType <;> simp [htyp, hstrike] at hbeyond

theorem laterScansClear_grounded_iff (hdistinct : (chain.instruments.map (·.symbol)).Nodup)
    (hparse : chain.parseLegs underlying raw = some legs)
    (hground : chain.groundLegs legs = some grounded) (fmt : FloatFormat) (strategy : StrategyLogic)
    (quantity : Option ℤ) :
    LaterScansClear fmt { strategy with optionLegs := some grounded } quantity ↔
      ∀ leg ∈ legs, leg.side ≠ .sell := by
  have hsides : (∀ leg ∈ grounded, leg.side ≠ .sell) ↔ ∀ leg ∈ legs, leg.side ≠ .sell := by
    constructor
    · intro h leg hleg
      obtain ⟨g, hg⟩ := isSome_of_mapM hground hleg
      rw [← (groundLeg_eq_some hg).2.2.1]
      exact h g ((mem_of_mapM hground).mpr ⟨leg, hleg, hg⟩)
    · intro h g hg
      obtain ⟨leg, hleg, hgl⟩ := (mem_of_mapM hground).mp hg
      rw [(groundLeg_eq_some hgl).2.2.1]
      exact h leg hleg
  have hpassed : (scanForNakedOptions (grounded.map (·.toOptionLeg))).passed ↔
      ∀ leg ∈ grounded, leg.side ≠ .sell := by
    rw [passed_scan_iff, List.forall_mem_map]
    refine forall₂_congr fun g hg ↦ ⟨fun h hsell ↦ ?_, fun h hsell ↦ absurd hsell h⟩
    exact not_hasHedge_grounded hdistinct hparse hground hg (h hsell)
  rw [laterScansClear_iff, ← hsides, ← hpassed]
  cases grounded with
  | nil => exact iff_of_true (fun _ h ↦ by cases h) rfl
  | cons g rest =>
    constructor
    · exact fun h ↦ h _ rfl
    · intro h legs' hlegs'
      obtain rfl := Option.some.inj hlegs'
      exact h

theorem accepted_proposal {replies : List LlmReply} {proposal : OptionsStrategyProposal}
    (h : chain.generateOptionsStrategy underlying replies = some proposal) :
    (∃ raw, chain.parseLegs underlying raw = some proposal.legs) ∧
      (scanForNakedOptions proposal.legs).passed := by
  simp only [OptionChain.generateOptionsStrategy] at h
  split at h
  · cases h
  · obtain ⟨reply, -, hreply⟩ := List.exists_of_findSome?_eq_some h
    simp only [OptionChain.attempt] at hreply
    split at hreply
    · cases hreply
    · split at hreply
      · cases hreply
      · next legs hlegs =>
        split at hreply
        · next hpassed =>
          obtain rfl := Option.some.inj hreply
          exact ⟨⟨_, hlegs⟩, hpassed⟩
        · cases hreply

/-- For every chain with distinct contract symbols and every proposal: what the first scan
rejects the later ones reject, and all agree exactly if the proposal sells nothing, or sells a
leg that has no wing even on the underlying. An accepted proposal stays clear of the later
scans exactly if it sells nothing. -/
theorem scans_agree_iff (hdistinct : (chain.instruments.map (·.symbol)).Nodup) (underlying : String)
    (fmt : FloatFormat) (strategy : StrategyLogic) (quantity : Option ℤ) :
    (∀ raw legs grounded, chain.parseLegs underlying raw = some legs →
      chain.groundLegs legs = some grounded →
      let clear := LaterScansClear fmt { strategy with optionLegs := some grounded } quantity
      (¬ (scanForNakedOptions legs).passed → ¬ clear) ∧
      (((scanForNakedOptions legs).passed ↔ clear) ↔ (∀ leg ∈ legs, leg.side ≠ .sell) ∨
        ∃ leg ∈ legs, leg.side = .sell ∧ ¬ HasWing leg legs)) ∧
    ∀ replies proposal grounded, chain.generateOptionsStrategy underlying replies = some proposal →
      chain.groundLegs proposal.legs = some grounded →
      (LaterScansClear fmt { strategy with optionLegs := some grounded } quantity ↔
        ∀ leg ∈ proposal.legs, leg.side ≠ .sell) := by
  refine ⟨fun raw legs grounded hparse hground ↦ ?_, fun replies proposal grounded hgen hground ↦ ?_⟩
  · intro clear
    have hclear : clear ↔ ∀ leg ∈ legs, leg.side ≠ .sell :=
      laterScansClear_grounded_iff hdistinct hparse hground fmt strategy quantity
    have hpassed := passed_scan_iff legs
    simp only [hasHedge_iff] at hpassed
    have himp : (∀ leg ∈ legs, leg.side ≠ .sell) → (scanForNakedOptions legs).passed :=
      fun h ↦ hpassed.mpr fun leg hleg hsell ↦ absurd hsell (h leg hleg)
    refine ⟨mt fun hc ↦ himp (hclear.mp hc), ?_⟩
    rw [hclear]
    constructor
    · intro hagree
      by_contra hno
      obtain ⟨hsold, hwings⟩ := not_or.mp hno
      refine hsold (hagree.mp (hpassed.mpr fun leg hleg hsell ↦ ?_))
      by_contra hwing
      exact hwings ⟨leg, hleg, hsell, hwing⟩
    · rintro (hnone | ⟨leg, hleg, hsell, hwing⟩)
      · exact iff_of_true (himp hnone) hnone
      · exact iff_of_false (fun h ↦ hwing (hpassed.mp h leg hleg hsell))
          fun h ↦ h leg hleg hsell
  · obtain ⟨⟨raw, hparse⟩, -⟩ := accepted_proposal hgen
    exact laterScansClear_grounded_iff hdistinct hparse hground fmt strategy quantity

end Grounding

def niftyChain : OptionChain where
  expiry := 20240125
  instruments := [⟨"NIFTY24JAN100CE", 100, .ce⟩, ⟨"NIFTY24JAN110CE", 110, .ce⟩]

def niftyStrategy : StrategyLogic := ⟨.fno, ["NIFTY"], none⟩

def bearCallSpread : LlmReply :=
  .parsed (some [⟨some 100, some .ce, some .sell, some 50⟩, ⟨some 110, some .ce, some .buy, some 50⟩])
    "capped at ten points"

theorem scans_agree_longCall :
    (scanForNakedOptions [⟨"NIFTY", .ce, 100, .buy, 50⟩]).passed ↔
      LaterScansClear ⟨toString, toString⟩
        { niftyStrategy with optionLegs := some [⟨⟨"NIFTY24JAN100CE", .ce, 100, .buy, 50⟩, rfl⟩] }
        none := by
  have hdistinct : (niftyChain.instruments.map (·.symbol)).Nodup := by decide
  refine ((scans_agree_iff hdistinct "NIFTY" ⟨toString, toString⟩ niftyStrategy none).1
    [⟨some 100, some .ce, some .buy, some 50⟩] _ _ ?_ ?_).2.mpr (.inl ?_)
  · decide +kernel
  · decide +kernel
  · decide

/-- The spread is accepted, and vetoed once its legs carry their contract symbols. -/
theorem bear_call_spread_vetoed : ∃ updated,
    optionsStrategyNode niftyStrategy (some niftyChain) [bearCallSpread] =
      some ⟨some updated, some 20240125, some "capped at ten points"⟩ ∧
    (complianceNode ⟨toString, toString⟩ updated none).verdict = .block ∧
    ¬ LaterScansClear ⟨toString, toString⟩ updated none := by
  let legs : List StrategyOptionLeg :=
    [⟨⟨"NIFTY24JAN100CE", .ce, 100, .sell, 50⟩, rfl⟩, ⟨⟨"NIFTY24JAN110CE", .ce, 110, .buy, 50⟩, rfl⟩]
  refine ⟨{ niftyStrategy with optionLegs := some legs }, by decide +kernel, by decide +kernel, ?_⟩
  rw [laterScansClear_iff]
  intro h
  exact absurd (h _ rfl) (by decide +kernel)

end TradingOS.Agents
