import Mathlib.Data.Rat.Defs
import TradingOS.Brokers.CircuitBreaker

namespace TradingOS.Brokers.OrderPayloads

inductive Side
  | buy | sell
  deriving DecidableEq

inductive OrderType
  | market | limit | sl | slM
  deriving DecidableEq

inductive ProductType
  | intraday | delivery
  deriving DecidableEq

inductive Validity
  | day | ioc
  deriving DecidableEq

structure OrderRequest where
  symbol : String
  side : Side
  orderType : OrderType
  quantity : ℕ
  product : ProductType := .intraday
  limitPrice : Option ℚ := none
  triggerPrice : Option ℚ := none
  validity : Validity := .day
  tag : Option String := none
  quantity_pos : 0 < quantity
  tag_length : ∀ t ∈ tag, t.length ≤ 40

/-- An empty tag is not sent. -/
def OrderRequest.sentTag (order : OrderRequest) : Option String := order.tag.filter (· ≠ "")

structure KitePayload where
  tradingsymbol : String
  exchange : String
  transactionType : Side
  orderType : OrderType
  quantity : ℕ
  product : String
  validity : Validity
  price : Option ℚ
  triggerPrice : Option ℚ
  tag : Option String
  deriving DecidableEq

structure UpstoxPayload where
  quantity : ℕ
  product : String
  validity : Validity
  price : ℚ
  instrumentToken : String
  orderType : OrderType
  transactionType : Side
  disclosedQuantity : ℕ
  triggerPrice : ℚ
  isAmo : Bool
  tag : Option String
  deriving DecidableEq

def kiteProductCode : ProductType → String
  | .intraday => "MIS"
  | .delivery => "CNC"

def upstoxProductCode : ProductType → String
  | .intraday => "I"
  | .delivery => "D"

/-- `KiteConnectAdapter.build_order_payload`. -/
def buildOrderPayload (order : OrderRequest) : KitePayload where
  tradingsymbol := order.symbol
  exchange := "NSE"
  transactionType := order.side
  orderType := order.orderType
  quantity := order.quantity
  product := kiteProductCode order.product
  validity := order.validity
  price := order.limitPrice
  triggerPrice := order.triggerPrice
  tag := order.sentTag

/-- The body that `UpstoxAdapter.place_order` sends. -/
def upstoxPayload (order : OrderRequest) : UpstoxPayload where
  quantity := order.quantity
  product := upstoxProductCode order.product
  validity := order.validity
  price := order.limitPrice.getD 0
  instrumentToken := order.symbol
  orderType := order.orderType
  transactionType := order.side
  disclosedQuantity := 0
  triggerPrice := order.triggerPrice.getD 0
  isAmo := false
  tag := order.sentTag

/-- What an order means at either broker; a price of zero is none. -/
structure Terms where
  side : Side
  orderType : OrderType
  quantity : ℕ
  product : ProductType
  validity : Validity
  price : ℚ
  triggerPrice : ℚ
  deriving DecidableEq

def KitePayload.Means (k : KitePayload) (terms : Terms) : Prop :=
  k.transactionType = terms.side ∧ k.orderType = terms.orderType ∧ k.quantity = terms.quantity ∧
    k.product = kiteProductCode terms.product ∧ k.validity = terms.validity ∧
    k.price.getD 0 = terms.price ∧ k.triggerPrice.getD 0 = terms.triggerPrice

def UpstoxPayload.Means (u : UpstoxPayload) (terms : Terms) : Prop :=
  u.transactionType = terms.side ∧ u.orderType = terms.orderType ∧ u.quantity = terms.quantity ∧
    u.product = upstoxProductCode terms.product ∧ u.validity = terms.validity ∧
    u.price = terms.price ∧ u.triggerPrice = terms.triggerPrice

/-- An instrument of the exchange under both brokers' names: a trading symbol has no bar in it,
and an instrument key joins a segment and an identifier by one. -/
structure Instrument where
  tradingsymbol : String
  segment : String
  identifier : String
  plain : '|' ∉ tradingsymbol.toList
  deriving DecidableEq

def Instrument.instrumentKey (x : Instrument) : String := x.segment ++ "|" ++ x.identifier

/-- Kite reads a trading symbol of its exchange. -/
def KitePayload.Designates (k : KitePayload) (x : Instrument) : Prop :=
  k.exchange = "NSE" ∧ k.tradingsymbol = x.tradingsymbol

/-- Upstox reads an instrument key. -/
def UpstoxPayload.Designates (u : UpstoxPayload) (x : Instrument) : Prop :=
  u.instrumentToken = x.instrumentKey

/-- The two requests are one order. -/
def SameOrder (listed : List Instrument) (k : KitePayload) (u : UpstoxPayload) : Prop :=
  (∃ x ∈ listed, k.Designates x ∧ u.Designates x) ∧ ∃ terms, k.Means terms ∧ u.Means terms

def OrderRequest.terms (order : OrderRequest) : Terms where
  side := order.side
  orderType := order.orderType
  quantity := order.quantity
  product := order.product
  validity := order.validity
  price := order.limitPrice.getD 0
  triggerPrice := order.triggerPrice.getD 0

theorem kiteProductCode_injective : kiteProductCode.Injective := by
  rintro (_ | _) (_ | _) h
  all_goals first | rfl | exact absurd h (by decide)

theorem upstoxProductCode_injective : upstoxProductCode.Injective := by
  rintro (_ | _) (_ | _) h
  all_goals first | rfl | exact absurd h (by decide)

/-- Both requests mean the order's own terms and no others. -/
theorem means_buildOrderPayload {order : OrderRequest} {terms : Terms} :
    (buildOrderPayload order).Means terms ↔ order.terms = terms := by
  obtain ⟨side, orderType, quantity, product, validity, price, triggerPrice⟩ := terms
  simp [KitePayload.Means, buildOrderPayload, OrderRequest.terms, kiteProductCode_injective.eq_iff]

theorem means_upstoxPayload {order : OrderRequest} {terms : Terms} :
    (upstoxPayload order).Means terms ↔ order.terms = terms := by
  obtain ⟨side, orderType, quantity, product, validity, price, triggerPrice⟩ := terms
  simp [UpstoxPayload.Means, upstoxPayload, OrderRequest.terms, upstoxProductCode_injective.eq_iff]

/-- One symbol is never an instrument's name at both brokers. -/
theorem not_designates_both (order : OrderRequest) (x : Instrument) :
    ¬ ((buildOrderPayload order).Designates x ∧ (upstoxPayload order).Designates x) := by
  rintro ⟨⟨-, hkite⟩, hupstox⟩
  have hbar : '|' ∈ x.instrumentKey.toList := by simp [Instrument.instrumentKey]
  have hsame : x.tradingsymbol = x.instrumentKey := hkite.symm.trans hupstox
  exact x.plain (hsame ▸ hbar)

inductive BrokerRequest
  | zerodha (payload : KitePayload)
  | upstox (payload : UpstoxPayload)
  deriving DecidableEq

end OrderPayloads

open OrderPayloads

namespace BrokerCircuitBreaker

variable (b : BrokerCircuitBreaker)

/-- The requests that `place_order` sends, with the reply of the primary if it is asked. -/
def sends (order : OrderRequest) (reply : Reply) (now : ℕ) : List BrokerRequest :=
  match b.placeOrder order.symbol now with
  | (_, .queue) => []
  | (_, .fallback) => [.upstox (upstoxPayload order)]
  | (b, .primary) =>
    .zerodha (buildOrderPayload order) ::
      match (b.onPrimaryReply order.symbol reply now).2 with
      | .rerouted .fallback => [.upstox (upstoxPayload order)]
      | _ => []

/-- The circuit is open, or opens on the reply of the primary, and there is a fallback. -/
def FailsOver (reply : Reply) (now : ℕ) : Prop :=
  b.hasFallback ∧
    ((b.maybeHalfOpen now).state = .opened ∨ (b.maybeHalfOpen now).trips reply)

/-- What goes to the fallback is the order the primary is offered. -/
def KeepsOrder (listed : List Instrument) (order : OrderRequest) (reply : Reply) (now : ℕ) : Prop :=
  ∀ u, .upstox u ∈ b.sends order reply now → SameOrder listed (buildOrderPayload order) u

@[simp] theorem hasFallback_maybeHalfOpen (now : ℕ) :
    (b.maybeHalfOpen now).hasFallback = b.hasFallback := by
  rw [maybeHalfOpen]
  split <;> rfl

theorem mem_sends_upstox {order : OrderRequest} {reply : Reply} {now : ℕ} {u : UpstoxPayload} :
    .upstox u ∈ b.sends order reply now ↔ u = upstoxPayload order ∧ b.FailsOver reply now := by
  by_cases hopen : (b.maybeHalfOpen now).state = .opened
  · cases hfallback : b.hasFallback <;>
      simp [sends, placeOrder, routeToFallbackOrQueue, FailsOver, hopen, hfallback]
  · simp only [sends, placeOrder, if_neg hopen, onPrimaryReply_outcome, hasFallback_maybeHalfOpen]
    by_cases hresponse : reply = .response
    · subst hresponse
      have htrips : (b.maybeHalfOpen now).trips .response = false := by
        simp [trips, Reply.isServerError]
      simp [FailsOver, hopen, htrips]
    · cases htrips : (b.maybeHalfOpen now).trips reply <;> cases hfallback : b.hasFallback <;>
        simp [FailsOver, hopen, htrips, hfallback, hresponse]

/-- No order that fails over is kept. -/
theorem keepsOrder_iff (listed : List Instrument) (order : OrderRequest) (reply : Reply) (now : ℕ) :
    b.KeepsOrder listed order reply now ↔ ¬ b.FailsOver reply now := by
  simp only [KeepsOrder, mem_sends_upstox]
  constructor
  · intro hkeeps hfails
    obtain ⟨⟨x, -, hx⟩, -⟩ := hkeeps _ ⟨rfl, hfails⟩
    exact not_designates_both order x hx
  · exact fun hfails u hu ↦ absurd hu.2 hfails

def infosys : Instrument := ⟨"INFY", "NSE_EQ", "INE009A01021", by decide +kernel⟩

def buyInfosys : OrderRequest where
  symbol := "INFY"
  side := .buy
  orderType := .market
  quantity := 10
  quantity_pos := by decide
  tag_length := by simp

/-- On the third server error a market order for INFY goes to the fallback as the key `INFY`. -/
theorem not_keepsOrder_buyInfosys :
    ¬ { init true with consecutiveFailures := 2 }.KeepsOrder [infosys] buyInfosys
      (.httpStatus 503) 0 := by
  intro hkeeps
  obtain ⟨⟨x, hx, -, hkey⟩, -⟩ := hkeeps (upstoxPayload buyInfosys) (by decide +kernel)
  obtain rfl := List.mem_singleton.mp hx
  have hne : (upstoxPayload buyInfosys).instrumentToken ≠ infosys.instrumentKey := by decide +kernel
  exact hne hkey

end BrokerCircuitBreaker

end TradingOS.Brokers
