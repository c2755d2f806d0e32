import TradingOS.Brokers.OrderPayloads
import TradingOS.Lib.Fallible
import TradingOS.Live.OrderStatus

namespace TradingOS.Brokers.OrderBook

open Live (OrderStatus)
open OrderPayloads (Side)

/-- An order as a broker's order book lists it. The two brokers name the symbol differently. The
filled quantity is `none` where the row has no such key, and `some none` where it is a null. -/
structure RawOrder where
  orderId : Option String := none
  status : Option String := none
  transactionType : Option String := none
  orderType : Option String := none
  quantity : Option ℤ := none
  filledQuantity : Option (Option ℤ) := none
  averagePrice : Option ℚ := none
  price : Option ℚ := none
  statusMessage : Option String := none
  tradingSymbol : Option String := none
  instrumentToken : Option String := none
  tradingsymbol : Option String := none
  deriving DecidableEq

structure OrderResponse where
  brokerOrderId : String
  status : OrderStatus
  symbol : String
  side : Side
  orderType : OrderPayloads.OrderType
  quantity : ℤ
  filledQuantity : ℤ
  averagePrice : Option ℚ
  limitPrice : Option ℚ
  rejectionReason : Option String
  raw : RawOrder
  deriving DecidableEq

inductive OrderError
  | http (text : String)
  | key (name : String)
  | unmappedStatus (text : String)
  | validation (field : String)
  | type
  deriving DecidableEq

/-- Python's `str.lower` and `repr`. -/
structure Texts where
  lower : String → String
  repr : String → String

def required {α : Type} (name : String) : Option α → Except OrderError α
  | some a => .ok a
  | none => .error (.key name)

def sideOf : String → Except OrderError Side
  | "BUY" => .ok .buy
  | "SELL" => .ok .sell
  | _ => .error (.validation "side")

def orderTypeOf : String → Except OrderError OrderPayloads.OrderType
  | "MARKET" => .ok .market
  | "LIMIT" => .ok .limit
  | "SL" => .ok .sl
  | "SL-M" => .ok .slM
  | _ => .error (.validation "order_type")

/-- What `x or None` makes of a price and of a text. -/
def priceOrNone (x : Option ℚ) : Option ℚ := x.filter (· ≠ 0)

def textOrNone (s : Option String) : Option String := s.filter (· ≠ "")

def notNull {α : Type} (field : String) : Option α → Except OrderError α
  | some a => .ok a
  | none => .error (.validation field)

namespace RawOrder

variable (raw : RawOrder)

/-- The status of the row in a broker's table, or the error that the broker's adapter raises. -/
def mappedStatus (texts : Texts) (broker : String) (statusMap : List (String × OrderStatus)) :
    Except OrderError OrderStatus := do
  let status ← required "status" raw.status
  match statusMap.lookup (texts.lower status) with
  | some mapped => return mapped
  | none =>
    .error (.unmappedStatus ("Unmapped " ++ broker ++ " order status " ++ texts.repr status ++
      " for order " ++ raw.orderId.getD "None"))

/-- `raw.get("filled_quantity", 0)`. -/
def filled : Option ℤ := raw.filledQuantity.getD (some 0)

/-- The response of the row's remaining fields, as both adapters build it. -/
def response (status : OrderStatus) (symbol : Except OrderError String) :
    Except OrderError OrderResponse := do
  let side ← required "transaction_type" raw.transactionType
  let orderType ← required "order_type" raw.orderType
  let orderId ← required "order_id" raw.orderId
  let symbol ← symbol
  let quantity ← required "quantity" raw.quantity
  let side ← sideOf side
  let orderType ← orderTypeOf orderType
  let filledQuantity ← notNull "filled_quantity" raw.filled
  return {
    brokerOrderId := orderId
    status, symbol, side, orderType, quantity, filledQuantity
    averagePrice := priceOrNone raw.averagePrice
    limitPrice := priceOrNone raw.price
    rejectionReason := textOrNone raw.statusMessage
    raw }

end RawOrder

namespace UpstoxAdapter

def statusMap : List (String × OrderStatus) := [
  ("complete", .filled),
  ("open", .opened),
  ("open pending", .pending),
  ("trigger pending", .opened),
  ("validation pending", .pending),
  ("modify pending", .opened),
  ("put order req received", .pending),
  ("after market order req received", .pending),
  ("cancelled", .cancelled),
  ("cancel pending", .opened),
  ("not cancelled", .opened),
  ("rejected", .rejected)]

def symbol (raw : RawOrder) : Except OrderError String :=
  match textOrNone raw.tradingSymbol with
  | some symbol => .ok symbol
  | none => required "instrument_token" raw.instrumentToken

def parseOrder (texts : Texts) (raw : RawOrder) : Except OrderError OrderResponse := do
  let status ← raw.mappedStatus texts "Upstox" statusMap
  raw.response status (symbol raw)

end UpstoxAdapter

namespace KiteConnectAdapter

def statusMap : List (String × OrderStatus) := [
  ("complete", .filled),
  ("open", .opened),
  ("cancelled", .cancelled),
  ("rejected", .rejected),
  ("put order req received", .pending),
  ("validation pending", .pending),
  ("open pending", .pending),
  ("amo req received", .pending),
  ("modify validation pending", .opened),
  ("modify pending", .opened),
  ("modified", .opened),
  ("trigger pending", .opened),
  ("cancel pending", .opened)]

/-- An open order of which a part is filled has a status of its own. A null is compared only there. -/
def withPartialFill (status : OrderStatus) (filledQuantity : Option ℤ) (quantity : ℤ) :
    Except OrderError OrderStatus :=
  if status = .opened then
    match filledQuantity with
    | none => .error .type
    | some n => .ok (if 0 < n ∧ n < quantity then .partiallyFilled else status)
  else .ok status

def parseOrder (texts : Texts) (raw : RawOrder) : Except OrderError OrderResponse := do
  let status ← raw.mappedStatus texts "Kite" statusMap
  let quantity ← required "quantity" raw.quantity
  let status ← withPartialFill status raw.filled quantity
  raw.response status (required "tradingsymbol" raw.tradingsymbol)

end KiteConnectAdapter

/-- The broker that an order is placed with. -/
inductive Adapter
  | upstox
  | kite
  deriving DecidableEq

/-- What a request for the order book comes back with. -/
inductive BookAnswer
  | failed (text : String)
  | data (rows : List RawOrder)
  deriving DecidableEq

namespace Adapter

def parseOrder (texts : Texts) : Adapter → RawOrder → Except OrderError OrderResponse
  | upstox => UpstoxAdapter.parseOrder texts
  | kite => KiteConnectAdapter.parseOrder texts

def getOrderBook (texts : Texts) (broker : Adapter) :
    BookAnswer → Except OrderError (List OrderResponse)
  | .failed text => .error (.http text)
  | .data rows => rows.mapM (broker.parseOrder texts)

end Adapter

/-- A part of the order is filled. -/
def RawOrder.PartlyFilled (raw : RawOrder) : Prop :=
  0 < raw.filled.getD 0 ∧ raw.filled.getD 0 < raw.quantity.getD 0

instance : DecidablePred RawOrder.PartlyFilled := fun _ ↦ inferInstanceAs (Decidable (_ ∧ _))

/-- Rows of two brokers that tell the same of an order. -/
structure RawOrder.SameOrder (raw raw' : RawOrder) : Prop where
  status : raw.status = raw'.status
  quantity : raw.quantity = raw'.quantity
  filledQuantity : raw.filledQuantity = raw'.filledQuantity

/-- The order is reported the same by both, and while it is live, by the part that is filled. -/
structure SameState (raw : RawOrder) (mapped : OrderStatus) (upstox kite : OrderResponse) : Prop where
  status : upstox.status = kite.status
  partly : mapped.isTerminal = false → ∀ response ∈ [upstox, kite],
    (response.status = .partiallyFilled ↔ raw.PartlyFilled)

section Statuses

open Lib

variable {texts : Texts} {raw raw' : RawOrder} {mapped : OrderStatus} {upstox kite : OrderResponse}

theorem mappedStatus_eq_ok {broker : String} {statusMap : List (String × OrderStatus)} :
    raw.mappedStatus texts broker statusMap = .ok mapped ↔
      ∃ status, raw.status = some status ∧ statusMap.lookup (texts.lower status) = some mapped := by
  rw [RawOrder.mappedStatus]
  cases raw.status with
  | none => simp [required, bind, Except.bind]
  | some status =>
    rw [required, bind_eq_ok]
    cases hmapped : statusMap.lookup (texts.lower status) <;> simp [hmapped, pure, Except.pure]

theorem status_of_response {status : OrderStatus} {symbol : Except OrderError String}
    {response : OrderResponse} (h : raw.response status symbol = .ok response) :
    response.status = status := by
  simp only [RawOrder.response, bind_eq_ok] at h
  obtain ⟨_, _, _, _, _, _, _, _, _, _, _, _, _, _, _, _, h⟩ := h
  obtain rfl := Except.ok.inj h
  rfl

theorem mem_of_lookup {statusMap : List (String × OrderStatus)} {status : String}
    (h : statusMap.lookup status = some mapped) : (status, mapped) ∈ statusMap := by
  obtain ⟨before, after, rfl, -⟩ := List.lookup_eq_some_iff.mp h
  exact List.mem_append_right _ List.mem_cons_self

/-- A status that both brokers know means the same to both. -/
theorem statusMaps_agree {status : String} {mapped' : OrderStatus}
    (h : UpstoxAdapter.statusMap.lookup status = some mapped)
    (h' : KiteConnectAdapter.statusMap.lookup status = some mapped') : mapped = mapped' := by
  have hagree : ∀ e ∈ UpstoxAdapter.statusMap, ∀ e' ∈ KiteConnectAdapter.statusMap,
      e.1 = e'.1 → e.2 = e'.2 := by decide
  exact hagree _ (mem_of_lookup h) _ (mem_of_lookup h') rfl

theorem mapped_ne_partiallyFilled {status : String}
    (h : UpstoxAdapter.statusMap.lookup status = some mapped) : mapped ≠ .partiallyFilled := by
  have hall : ∀ e ∈ UpstoxAdapter.statusMap, e.2 ≠ .partiallyFilled := by decide
  exact hall _ (mem_of_lookup h)

theorem upstox_status (h : UpstoxAdapter.parseOrder texts raw = .ok upstox) :
    raw.mappedStatus texts "Upstox" UpstoxAdapter.statusMap = .ok upstox.status := by
  obtain ⟨mapped, hmapped, hresponse⟩ := bind_eq_ok.mp h
  rw [hmapped, status_of_response hresponse]

theorem status_of_withPartialFill {status : OrderStatus} {filled : Option ℤ} {quantity : ℤ}
    (h : KiteConnectAdapter.withPartialFill mapped filled quantity = .ok status) :
    status = if mapped = .opened ∧ 0 < filled.getD 0 ∧ filled.getD 0 < quantity then .partiallyFilled
      else mapped := by
  unfold KiteConnectAdapter.withPartialFill at h
  by_cases hopened : mapped = .opened
  · rw [if_pos hopened] at h
    cases filled with
    | none => cases h
    | some n =>
      rw [← Except.ok.inj h]
      simp [hopened]
  · rw [if_neg hopened] at h
    rw [if_neg fun hboth ↦ hopened hboth.1, Except.ok.inj h]

theorem kite_status (h : KiteConnectAdapter.parseOrder texts raw = .ok kite) :
    ∃ mapped, raw.mappedStatus texts "Kite" KiteConnectAdapter.statusMap = .ok mapped ∧
      kite.status = if mapped = .opened ∧ raw.PartlyFilled then .partiallyFilled else mapped := by
  obtain ⟨mapped, hmapped, hrest⟩ := bind_eq_ok.mp h
  obtain ⟨quantity, hquantity, hrest⟩ := bind_eq_ok.mp hrest
  obtain ⟨status, hpartial, hresponse⟩ := bind_eq_ok.mp hrest
  refine ⟨mapped, hmapped, ?_⟩
  have hsome : raw.quantity = some quantity := by
    cases hraw : raw.quantity with
    | none => simp [required, hraw] at hquantity
    | some q => simpa [required, hraw] using hquantity
  have hpartly : raw.PartlyFilled ↔ 0 < raw.filled.getD 0 ∧ raw.filled.getD 0 < quantity := by
    rw [RawOrder.PartlyFilled, hsome, Option.getD_some]
  simp only [status_of_response hresponse, status_of_withPartialFill hpartial, hpartly]

/-- The brokers report an order in the same state exactly if it has ended or no part of it is filled.
Their statuses alone differ for an open order of which a part is filled. -/
theorem reported_alike_iff {status : String} (hsame : raw.SameOrder raw')
    (hstatus : raw.status = some status)
    (hlookup : UpstoxAdapter.statusMap.lookup (texts.lower status) = some mapped)
    (hu : UpstoxAdapter.parseOrder texts raw = .ok upstox)
    (hk : KiteConnectAdapter.parseOrder texts raw' = .ok kite) :
    (SameState raw mapped upstox kite ↔ mapped.isTerminal ∨ ¬ raw.PartlyFilled) ∧
      (upstox.status = kite.status ↔ ¬ (mapped = .opened ∧ raw.PartlyFilled)) := by
  obtain rfl : upstox.status = mapped :=
    Except.ok.inj ((upstox_status hu).symm.trans (mappedStatus_eq_ok.mpr ⟨status, hstatus, hlookup⟩))
  obtain ⟨mapped, hmapped, hkite⟩ := kite_status hk
  obtain ⟨status', hstatus', hlookup'⟩ := mappedStatus_eq_ok.mp hmapped
  obtain rfl : status = status' :=
    Option.some.inj (hstatus.symm.trans (hsame.status.trans hstatus'))
  obtain rfl := statusMaps_agree hlookup hlookup'
  have hpartly : raw'.PartlyFilled ↔ raw.PartlyFilled := by
    rw [RawOrder.PartlyFilled, RawOrder.PartlyFilled, RawOrder.filled, RawOrder.filled, hsame.quantity,
      hsame.filledQuantity]
  have hne := mapped_ne_partiallyFilled hlookup
  simp only [hpartly] at hkite
  have hagree : upstox.status = kite.status ↔ ¬ (upstox.status = .opened ∧ raw.PartlyFilled) := by
    rw [hkite]
    split
    · next h => exact iff_of_false hne (not_not.mpr h)
    · next h => exact iff_of_true rfl h
  refine ⟨?_, hagree⟩
  constructor
  · intro hstate
    by_contra hlive
    rw [not_or, not_not, Bool.not_eq_true] at hlive
    exact hne ((hstate.partly hlive.1 upstox (by simp)).mpr hlive.2)
  · intro hor
    have hnone (hlive : upstox.status.isTerminal = false) : ¬ raw.PartlyFilled :=
      hor.resolve_left (by simp [hlive])
    have heq : upstox.status = kite.status := hagree.mpr fun ⟨hopened, hfilled⟩ ↦
      hnone (by rw [hopened]; rfl) hfilled
    refine ⟨heq, fun hlive response hmem ↦ ?_⟩
    have hresponse : response.status = upstox.status := by
      obtain rfl | rfl : response = upstox ∨ response = kite := by simpa using hmem
      · rfl
      · exact heq.symm
    rw [hresponse]
    exact iff_of_false hne (hnone hlive)

end Statuses

/-- An open order for ten, of which four are filled. -/
def fourOfTen : RawOrder where
  orderId := some "240924000000001"
  status := some "open"
  transactionType := some "BUY"
  orderType := some "LIMIT"
  quantity := some 10
  filledQuantity := some (some 4)
  price := some 1500
  tradingSymbol := some "INFY"
  tradingsymbol := some "INFY"

def asWritten : Texts := ⟨id, id⟩

theorem open_to_upstox_partly_filled_to_kite : ∃ upstox kite,
    UpstoxAdapter.parseOrder asWritten fourOfTen = .ok upstox ∧
      KiteConnectAdapter.parseOrder asWritten fourOfTen = .ok kite ∧
      upstox.status = .opened ∧ kite.status = .partiallyFilled ∧
      ¬ SameState fourOfTen .opened upstox kite :=
  ⟨_, _, rfl, rfl, rfl, rfl, fun h ↦ nomatch h.status⟩

/-- The same order before its first fill. -/
def unfilled : RawOrder := { fourOfTen with filledQuantity := none }

theorem unfilled_alike : ∃ upstox kite,
    UpstoxAdapter.parseOrder asWritten unfilled = .ok upstox ∧
      KiteConnectAdapter.parseOrder asWritten unfilled = .ok kite ∧
      SameState unfilled .opened upstox kite :=
  ⟨_, _, rfl, rfl, (@reported_alike_iff asWritten unfilled unfilled .opened _ _ "open"
    ⟨rfl, rfl, rfl⟩ rfl rfl rfl rfl).1.mpr (.inr (by decide))⟩

end TradingOS.Brokers.OrderBook
