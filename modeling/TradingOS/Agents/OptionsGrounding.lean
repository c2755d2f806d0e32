import TradingOS.Agents.OptionsStrategyAgent
import TradingOS.Lib.Document
import TradingOS.Lib.Words

namespace TradingOS.Agents.OptionsGrounding

open Lib Risk

/-- The library's reading of a text as JSON, unless it raises, and the text of a value. -/
structure Reading extends Conversions where
  loads : String → Option Document
  str : Document → String

def fence : List Char := "```".toList

/-- The first part of a text that is split at the fences. -/
def beforeFence : List Char → List Char
  | [] => []
  | c :: cs => if fence.isPrefixOf (c :: cs) then [] else c :: beforeFence cs

def extractJson (text : String) : String :=
  let text := strip text.toList
  let text :=
    if fence.isPrefixOf text then
      let inner := beforeFence (text.drop 3)
      if "json".toList.isPrefixOf inner then inner.drop 4 else inner
    else text
  String.ofList (strip text)

def optionTypeOf : Document → Option Risk.OptionType
  | .str s => if s = "CE" then some .ce else if s = "PE" then some .pe else none
  | _ => none

/-- A value that is no text equals neither side. -/
def sideOf : Document → Side
  | .str s => if s = "buy" then .buy else if s = "sell" then .sell else .other s
  | _ => .other ""

section Answers

variable (reading : Reading)

/-- A strike that is not finite is in no chain, and neither is a type that is not one of the two. -/
def rawLegOf (d : Document) : RawLeg where
  strike :=
    match d.item "strike" >>= (·.toFloat reading.toConversions) with
    | .ok (.finite x) => some x
    | _ => none
  optionType := (d.item "option_type").toOption.bind optionTypeOf
  side := (d.item "side").toOption.map sideOf
  quantity := (d.item "quantity" >>= (·.toInt reading.toConversions)).toOption

/-- What an attempt gets to read: `none` when the call raises or its content is null. -/
def readReply (content : Option String) : LlmReply :=
  match content.bind (reading.loads <| extractJson ·) with
  | some (.dict entries) =>
    let rationale := reading.str ((entries.lookup "rationale").getD (.str ""))
    match entries.lookup "legs" with
    | none => .parsed none rationale
    | some (.list legs) => .parsed (some (legs.map (rawLegOf reading))) rationale
    | some _ => .unusable
  | _ => .unusable

def replies (answers : ℕ → Option String) : List LlmReply :=
  (List.range OptionChain.maxAttempts).map fun k ↦ readReply reading (answers k)

/-- How `_fetch_nearest_chain` ends. -/
inductive Fetch
  | noBrokerConfigured
  | failed
  | noExpiry
  | chain (chain : OptionChain)

def Fetch.chain? : Fetch → Option OptionChain
  | chain c => some c
  | _ => none

/-- What the node returns, and the event of its last warning. -/
structure NodeResult where
  update : OptionsUpdate
  reason : Option String

/-- `options_strategy_node` from the texts of the model's answers on. `none`: the node raises. -/
def optionsStrategyNode (strategy : StrategyLogic) (fetch : Fetch) (answers : ℕ → Option String) :
    Option NodeResult :=
  let degraded (reason : String) : Option NodeResult :=
    some ⟨⟨some { strategy with optionLegs := none }, none, none⟩, some reason⟩
  if strategy.assetClass ≠ .fno then some ⟨⟨none, none, none⟩, none⟩
  else
    match strategy.symbols.head? with
    | none => degraded "options_strategy_node_no_underlying"
    | some underlying =>
      if underlying = "" then degraded "options_strategy_node_no_underlying"
      else
        match fetch with
        | .noBrokerConfigured => degraded "options_strategy_node_no_broker_configured"
        | .failed => degraded "options_strategy_node_chain_fetch_failed"
        | .noExpiry => degraded "options_strategy_node_no_real_future_expiry"
        | .chain chain =>
          match chain.generateOptionsStrategy underlying (replies reading answers) with
          | none => degraded <|
            if chain.instruments = [] then "options_strategy_no_chain_data"
            else "options_strategy_no_valid_proposal"
          | some proposal =>
            (chain.groundLegs proposal.legs).map fun legs ↦
              ⟨⟨some { strategy with optionLegs := some legs }, some chain.expiry,
                some proposal.rationale⟩, none⟩

/-- A leg is listed, and can be traded. -/
structure Usable.Leg (chain : OptionChain) (leg : StrategyOptionLeg) : Prop where
  listed : ∃ i ∈ chain.instruments,
    i.symbol = leg.symbol ∧ i.strike = leg.strike ∧ i.optionType = leg.optionType
  side : leg.side = .buy ∨ leg.side = .sell
  quantity : 1 ≤ leg.quantity

/-- The states in which the node may leave an F&O strategy. -/
inductive Usable (strategy : StrategyLogic) (fetch : Fetch) : Option NodeResult → Prop
  | proposal {chain : OptionChain} {legs : List StrategyOptionLeg} {rationale : String}
      (hfetch : fetch = .chain chain) (hlegs : ∀ leg ∈ legs, Usable.Leg chain leg) :
      Usable strategy fetch (some ⟨⟨some { strategy with optionLegs := some legs },
        some chain.expiry, some rationale⟩, none⟩)
  | degraded {reason : String} : Usable strategy fetch
      (some ⟨⟨some { strategy with optionLegs := none }, none, none⟩, some reason⟩)

/-- The legs a reply has. -/
def legsOf : LlmReply → List RawLeg
  | .unusable => []
  | .parsed legs _ => legs.getD []

/-- Its side is one of the two and its quantity at least one. -/
structure Tradable (raw : RawLeg) : Prop where
  side : raw.side = some .buy ∨ raw.side = some .sell
  quantity : ∃ q, raw.quantity = some q ∧ 1 ≤ q

/-- The first of the replies that is parsed, listed and hedged. -/
def firstAccepted (chain : OptionChain) (underlying : String) (replies : List LlmReply) :
    Option LlmReply := replies.find? fun reply ↦ (chain.attempt underlying reply).isSome

/-- The first reply that is accepted has legs that can be traded. -/
def RepliesTradable (strategy : StrategyLogic) (fetch : Fetch) (replies : List LlmReply) : Prop :=
  ∀ chain underlying reply, fetch = .chain chain → strategy.symbols.head? = some underlying →
    underlying ≠ "" → chain.instruments ≠ [] → firstAccepted chain underlying replies = some reply →
      ∀ raw ∈ legsOf reply, Tradable raw

section Legs

variable {chain : OptionChain} {underlying : String} {reply : LlmReply} {raw : RawLeg}
  {leg : OptionLeg} {proposal : OptionsStrategyProposal}

theorem parseLegs_of_attempt (h : chain.attempt underlying reply = some proposal) :
    chain.parseLegs underlying (legsOf reply) = some proposal.legs := by
  cases reply with
  | unusable => cases h
  | parsed legs rationale =>
    simp only [OptionChain.attempt] at h
    split at h
    · cases h
    · next legs' hlegs =>
      split at h
      · obtain rfl := Option.some.inj h
        exact hlegs
      · cases h

theorem fields_of_parseLeg (h : chain.parseLeg underlying raw = some leg) :
    raw.side = some leg.side ∧ raw.quantity = some leg.quantity := by
  simp only [OptionChain.parseLeg, Option.bind_eq_bind, Option.bind_eq_some_iff] at h
  obtain ⟨strike, -, optionType, -, h⟩ := h
  split at h
  · simp only [Option.bind_eq_some_iff] at h
    obtain ⟨side, hside, quantity, hquantity, h⟩ := h
    obtain rfl := Option.some.inj h
    exact ⟨hside, hquantity⟩
  · cases h

theorem tradable_iff (h : chain.parseLeg underlying raw = some leg) :
    Tradable raw ↔ (leg.side = .buy ∨ leg.side = .sell) ∧ 1 ≤ leg.quantity := by
  obtain ⟨hside, hquantity⟩ := fields_of_parseLeg h
  constructor
  · rintro ⟨hraw, q, hq, hpos⟩
    rw [hside, Option.some.injEq, Option.some.injEq] at hraw
    obtain rfl := Option.some.inj (hquantity.symm.trans hq)
    exact ⟨hraw, hpos⟩
  · rintro ⟨hleg, hpos⟩
    exact ⟨by rwa [hside, Option.some.injEq, Option.some.injEq], _, hquantity, hpos⟩

theorem forall_tradable_iff (h : chain.attempt underlying reply = some proposal) :
    (∀ raw ∈ legsOf reply, Tradable raw) ↔
      ∀ leg ∈ proposal.legs, (leg.side = .buy ∨ leg.side = .sell) ∧ 1 ≤ leg.quantity := by
  have hparse := parseLegs_of_attempt h
  constructor
  · intro hraw leg hleg
    obtain ⟨raw, hmem, hraw'⟩ := (mem_of_mapM hparse).mp hleg
    exact (tradable_iff hraw').mp (hraw raw hmem)
  · intro hlegs raw hmem
    obtain ⟨leg, hleg⟩ := isSome_of_mapM hparse hmem
    exact (tradable_iff hleg).mpr (hlegs leg ((mem_of_mapM hparse).mpr ⟨raw, hmem, hleg⟩))

theorem exists_groundLeg_iff :
    (∃ grounded, chain.groundLeg leg = some grounded) ↔ leg.side = .buy ∨ leg.side = .sell := by
  rw [OptionChain.groundLeg]
  cases hside : leg.side with
  | buy => simp [Side.isDeclared]
  | sell => simp [Side.isDeclared]
  | other text => simp [Side.isDeclared]

theorem quantity_groundLeg {grounded : StrategyOptionLeg} (h : chain.groundLeg leg = some grounded) :
    grounded.quantity = leg.quantity := by
  rw [OptionChain.groundLeg] at h
  split at h
  · obtain rfl := Option.some.inj h
    rfl
  · cases h

theorem legs_of_usable {strategy : StrategyLogic} {fetch : Fetch} {result : Option NodeResult}
    (h : Usable strategy fetch result) {legs : List StrategyOptionLeg}
    {expiry : Option Agents.Date} {rationale reason : Option String}
    (hresult : result = some ⟨⟨some { strategy with optionLegs := some legs }, expiry, rationale⟩,
      reason⟩) (hfetch : fetch = .chain chain) : ∀ leg ∈ legs, Usable.Leg chain leg := by
  cases h with
  | proposal hfetch' hlegs =>
    obtain rfl := Fetch.chain.inj (hfetch'.symm.trans hfetch)
    simp only [Option.some.injEq, NodeResult.mk.injEq, OptionsUpdate.mk.injEq,
      StrategyLogic.mk.injEq] at hresult
    obtain ⟨⟨⟨-, -, rfl⟩, -⟩, -⟩ := hresult
    exact hlegs
  | degraded => simp at hresult

/-- A proposal leaves a usable state if the typed legs can be built and their quantities are right:
that they are listed, the parser has seen to. -/
theorem usable_proposal_iff {strategy : StrategyLogic}
    (h : chain.attempt underlying reply = some proposal) :
    Usable strategy (.chain chain) ((chain.groundLegs proposal.legs).map fun legs ↦
      ⟨⟨some { strategy with optionLegs := some legs }, some chain.expiry,
        some proposal.rationale⟩, none⟩) ↔ ∀ raw ∈ legsOf reply, Tradable raw := by
  rw [forall_tradable_iff h]
  constructor
  · intro husable leg hleg
    cases hground : chain.groundLegs proposal.legs with
    | none =>
      rw [hground] at husable
      cases husable
    | some legs =>
      rw [hground] at husable
      obtain ⟨grounded, hgrounded⟩ := isSome_of_mapM hground hleg
      have hgood := legs_of_usable husable rfl rfl grounded
        ((mem_of_mapM hground).mpr ⟨leg, hleg, hgrounded⟩)
      obtain ⟨-, -, hside, -⟩ := groundLeg_eq_some hgrounded
      rw [← hside, ← quantity_groundLeg hgrounded]
      exact ⟨hgood.side, hgood.quantity⟩
  · intro hlegs
    obtain ⟨legs, hground⟩ : ∃ legs, chain.groundLegs proposal.legs = some legs :=
      exists_mapM_eq_some.mpr fun leg hleg ↦ exists_groundLeg_iff.mpr (hlegs leg hleg).1
    rw [hground]
    refine .proposal rfl fun grounded hmem ↦ ?_
    obtain ⟨leg, hleg, hgrounded⟩ := (mem_of_mapM hground).mp hmem
    obtain ⟨htype, hstrike, hside, hsymbol⟩ := groundLeg_eq_some hgrounded
    obtain ⟨symbol, hlookup⟩ := symbolLookup_of_parseLegs (parseLegs_of_attempt h) hleg
    obtain ⟨i, hi, histrike, hitype, hisymbol⟩ := mem_of_symbolLookup hlookup
    refine ⟨⟨i, hi, ?_, ?_, ?_⟩, ?_, ?_⟩
    · rw [hsymbol, hlookup, hisymbol]
      rfl
    · rw [histrike, hstrike]
    · rw [hitype, htype]
    · rw [hside]
      exact (hlegs leg hleg).1
    · rw [quantity_groundLeg hgrounded]
      exact (hlegs leg hleg).2

end Legs

theorem generateOptionsStrategy_eq {chain : OptionChain} {underlying : String}
    (h : chain.instruments ≠ []) (answers : ℕ → Option String) :
    chain.generateOptionsStrategy underlying (replies reading answers) =
      (firstAccepted chain underlying (replies reading answers)).bind
        (chain.attempt underlying) := by
  have hlength : (replies reading answers).length ≤ OptionChain.maxAttempts := by
    rw [replies, List.length_map, List.length_range]
  rw [OptionChain.generateOptionsStrategy, if_neg h, List.take_of_length_le hlength]
  exact findSome?_eq_bind_find? _ _

/-- The older model of the node reads the same answers. -/
theorem update_optionsStrategyNode (strategy : StrategyLogic) (fetch : Fetch)
    (answers : ℕ → Option String) :
    (optionsStrategyNode reading strategy fetch answers).map NodeResult.update =
      Agents.optionsStrategyNode strategy fetch.chain? (replies reading answers) := by
  simp only [optionsStrategyNode, Agents.optionsStrategyNode]
  by_cases hfno : strategy.assetClass = .fno
  · simp only [hfno, ne_eq, not_true_eq_false, if_false]
    cases strategy.symbols.head? with
    | none => rfl
    | some underlying =>
      by_cases hempty : underlying = ""
      · simp [hempty]
      · simp only [hempty, if_false]
        cases fetch with
        | chain chain =>
          simp only [Fetch.chain?]
          cases chain.generateOptionsStrategy underlying (replies reading answers) with
          | none => rfl
          | some proposal =>
            rw [Option.map_map]
            rfl
        | _ => rfl
  · simp [hfno]

/-- For every answer of the model and every chain the node leaves an F&O strategy in a usable state,
without raising, exactly if the first reply it accepts has legs that can be traded. -/
theorem usable_iff (strategy : StrategyLogic) (fetch : Fetch) (answers : ℕ → Option String)
    (hfno : strategy.assetClass = .fno) :
    Usable strategy fetch (optionsStrategyNode reading strategy fetch answers) ↔
      RepliesTradable strategy fetch (replies reading answers) := by
  rw [optionsStrategyNode, RepliesTradable]
  dsimp only
  rw [if_neg (not_not.mpr hfno)]
  cases hunderlying : strategy.symbols.head? with
  | none => exact iff_of_true .degraded fun _ _ _ _ h ↦ by cases h
  | some underlying =>
    dsimp only
    by_cases hempty : underlying = ""
    · rw [if_pos hempty]
      refine iff_of_true .degraded fun _ _ _ _ h hne ↦ ?_
      obtain rfl := Option.some.inj h
      exact absurd hempty hne
    rw [if_neg hempty]
    cases fetch with
    | chain chain =>
      dsimp only
      by_cases hinstruments : chain.instruments = []
      · have hnone : chain.generateOptionsStrategy underlying (replies reading answers) = none :=
          if_pos hinstruments
        rw [hnone]
        refine iff_of_true .degraded fun _ _ _ hfetch _ _ hne ↦ ?_
        obtain rfl := Fetch.chain.inj hfetch
        exact absurd hinstruments hne
      rw [generateOptionsStrategy_eq reading hinstruments]
      cases hfirst : firstAccepted chain underlying (replies reading answers) with
      | none =>
        refine iff_of_true .degraded fun _ _ _ hfetch hhead _ _ hreply ↦ ?_
        obtain rfl := Fetch.chain.inj hfetch
        obtain rfl := Option.some.inj hhead
        rw [hfirst] at hreply
        cases hreply
      | some reply =>
        have haccepted : (chain.attempt underlying reply).isSome :=
          List.find?_some (p := fun reply ↦ (chain.attempt underlying reply).isSome) hfirst
        obtain ⟨proposal, hproposal⟩ := Option.isSome_iff_exists.mp haccepted
        rw [Option.bind_some, hproposal]
        refine (usable_proposal_iff hproposal).trans ⟨fun hlegs _ _ reply' hfetch hhead _ _ hreply ↦ ?_,
          fun h ↦ h chain underlying reply rfl rfl hempty hinstruments hfirst⟩
        obtain rfl := Fetch.chain.inj hfetch
        obtain rfl := Option.some.inj hhead
        obtain rfl := Option.some.inj (hfirst.symm.trans hreply)
        exact hlegs
    | _ => exact iff_of_true .degraded fun _ _ _ h ↦ by cases h

end Answers

namespace Nifty

/-- An answer with one call of the chain. -/
def legText (side quantity : String) : String :=
  "\x7b\"legs\": [\x7b\"strike\": 100, \"option_type\": \"CE\", \"side\": \"" ++ side ++
    "\", \"quantity\": " ++ quantity ++ "\x7d]\x7d"

def legDocument (side : String) (quantity : ℤ) : Document :=
  .dict [("legs", .list [.dict [("strike", .int 100), ("option_type", .str "CE"),
    ("side", .str side), ("quantity", .int quantity)]])]

def reading : Reading where
  floatOfText _ := none
  floatOfInt n := some (.finite n)
  intOfText _ := none
  loads text :=
    if text = legText "buy" "50" then some (legDocument "buy" 50)
    else if text = legText "long" "50" then some (legDocument "long" 50)
    else if text = legText "buy" "0" then some (legDocument "buy" 0)
    else none
  str _ := ""

def node (side quantity : String) : Option NodeResult :=
  optionsStrategyNode reading niftyStrategy (.chain niftyChain) fun _ ↦ some (legText side quantity)

theorem usable_buy : Usable niftyStrategy (.chain niftyChain) (node "buy" "50") := by
  refine (usable_iff reading niftyStrategy (.chain niftyChain) _ rfl).mpr ?_
  intro chain underlying reply hfetch hhead _ _ hfirst
  obtain rfl := Fetch.chain.inj hfetch
  obtain rfl := Option.some.inj hhead
  have hreply : firstAccepted niftyChain "NIFTY" (replies reading fun _ ↦ some (legText "buy" "50")) =
      some (.parsed (some [⟨some 100, some .ce, some .buy, some 50⟩]) "") := by decide +kernel
  obtain rfl := Option.some.inj (hreply.symm.trans hfirst)
  intro raw hraw
  obtain rfl := List.mem_singleton.mp hraw
  exact ⟨.inl rfl, 50, rfl, by decide⟩

/-- A side that the scanner takes for no sale makes the node raise, and a quantity of zero goes
through. -/
theorem long_side_raises :
    node "long" "50" = none ∧ ¬ Usable niftyStrategy (.chain niftyChain) (node "long" "50") ∧
      ¬ Usable niftyStrategy (.chain niftyChain) (node "buy" "0") := by
  have hlong : node "long" "50" = none :=
    Option.isSome_eq_false_iff.mp (by decide +kernel) |> Option.isNone_iff_eq_none.mp
  refine ⟨hlong, ?_, ?_⟩
  · rw [hlong]
    intro h
    cases h
  · have hbuy : (node "buy" "0").map NodeResult.update = some ⟨some { niftyStrategy with
        optionLegs := some [⟨⟨"NIFTY24JAN100CE", .ce, 100, .buy, 0⟩, rfl⟩] }, some 20240125,
        some ""⟩ := by decide +kernel
    obtain ⟨result, hresult, hupdate⟩ := Option.map_eq_some_iff.mp hbuy
    obtain ⟨update, reason⟩ := result
    obtain rfl : update = _ := hupdate
    intro h
    have hleg := legs_of_usable h hresult rfl _ List.mem_cons_self
    have hquantity := hleg.quantity
    simp at hquantity

end Nifty

end TradingOS.Agents.OptionsGrounding
