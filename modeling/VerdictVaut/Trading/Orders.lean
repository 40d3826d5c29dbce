import VerdictVaut.Trading.Execution

set_option autoImplicit false

namespace VerdictVaut

open Relational Relational.Tx VerdictVaut.Core

def OrderStatus.text : OrderStatus → String
  | .opened => "OPEN"
  | .partiallyFilled => "PARTIALLY_FILLED"
  | .filled => "FILLED"
  | .cancelled => "CANCELLED"
  | .expired => "EXPIRED"
  | .rejected => "REJECTED"

/-- `decimalPlaces() > scale`. -/
def exceedsScale (value : ℚ) (scale : Nat) : Bool := decide ((value * 10 ^ scale).den ≠ 1)

def orderPriceMaxDecimals : Nat := 6

def orderQuantityMaxDecimals : Nat := 18

namespace OrderRiskValidator

structure Input where
  userId : Nat
  marketId : Nat
  outcomeId : Nat
  side : OrderSide
  price : ℚ
  quantity : ℚ

def restingExposure (orders : Table Order) (marketId outcomeId : Nat) : ℚ :=
  sumWhere
    (fun order => decide (order.marketId = marketId) && decide (order.outcomeId = outcomeId) &&
      decide (order.side = .buy) && order.isExecutable)
    (fun order => order.remainingQuantity * order.price.getD 0) orders.rows

/-- A configured cap; `null` is unlimited. The message ends with the cap itself. -/
def checkCap (cap : Option ℚ) (value : ℚ) (message : String) : Tx Core Fault Unit :=
  match cap with
  | some limit => throwIf (limit < value) (.limitExceeded message limit)
  | none => pure ()

def checkMarketExposure (input : Input) : Tx Core Fault Unit := do
  if input.side ≠ .buy then pure ()
  else do
    let market ← getOrThrow marketsField input.marketId
    let currentExposure ← read fun c => restingExposure c.exchange.orders input.marketId input.outcomeId
    checkCap market.maxExposure (currentExposure + input.quantity * input.price)
      "This order would push open BUY exposure on this market/outcome above its configured cap of "

def validate (input : Input) : Tx Core Fault Unit := do
  let riskLimit ← read fun c => (c.riskLimits.find? fun limit => decide (limit.userId = input.userId)).map Prod.snd
  checkCap (riskLimit.bind RiskLimit.maxOrderQuantity) input.quantity
    "Order quantity exceeds your configured maximum of "
  checkCap (riskLimit.bind RiskLimit.maxOrderNotional) (input.quantity * input.price)
    "Order notional exceeds your configured maximum of "
  let position ← find? positionsField
    (ExecutionCoordinator.isPosition input.userId input.marketId input.outcomeId)
  let held := (position.map fun found => found.2.quantity).getD 0
  checkCap (if input.side = .buy then riskLimit.bind RiskLimit.maxPositionSize else none) (held + input.quantity)
    "Resulting position would exceed your configured maximum of "
  checkMarketExposure input

end OrderRiskValidator

namespace PositionReservations

structure ReserveShares where
  userId : Nat
  marketId : Nat
  outcomeId : Nat
  input : Reserved.ReserveInput

def reserve (request : ReserveShares) : Tx Core Fault (Nat × Bool) := do
  throwIf (request.input.amount ≤ 0) (.invalidPositionReservationAmount request.input.amount)
  let (positionId, position) ← upsert positionsField
    (ExecutionCoordinator.isPosition request.userId request.marketId request.outcomeId)
    (ExecutionCoordinator.emptyPosition request.userId request.marketId request.outcomeId)
  zoom sharesField (Reserved.earmark positionId position request.input)

end PositionReservations

namespace OrdersService

structure CreateOrderDto where
  marketId : Nat
  outcomeId : Nat
  side : OrderSide
  type : OrderType
  price : Option ℚ
  quantity : ℚ
  clientOrderId : Option String

/-- What `create` has read and computed when it opens its transaction. -/
structure Placement where
  userId : Nat
  marketId : Nat
  outcomeId : Nat
  side : OrderSide
  price : ℚ
  quantity : ℚ
  clientOrderId : String
  settlementAssetSymbol : Option String
  deriving DecidableEq

def checkMarketOpen (now : Time) (market : Market) : Tx Core Fault Unit := do
  throwIf (market.status ≠ .opened) (.badRequest "Market is not open for trading")
  throwIf ((market.closeTime.any fun closeTime => decide (closeTime ≤ now)) = true)
    (.badRequest "Market has passed its close time")

def checkTrader (userId : Nat) : Tx Core Fault Unit := do
  let user ← read fun c => c.users.get? userId
  let user ← orThrow user (.db .recordNotFound)
  throwIf (user.status ≠ .active) (.forbidden "Account must be verified (ACTIVE) to trade")

def checkListing (now : Time) (marketId outcomeId : Nat) : Tx Core Fault Unit := do
  let market ← read fun c => c.exchange.markets.get? marketId
  let market ← orThrow market (.notFound "Market not found")
  checkMarketOpen now market
  let outcome ← read fun c => c.exchange.outcomes.get? outcomeId
  throwIf ((outcome.map MarketOutcome.marketId) ≠ some marketId)
    (.badRequest "Outcome does not belong to this market")

def checkAmounts (dto : CreateOrderDto) : Tx Core Fault ℚ := do
  -- the checks on the amounts of the request; returns its price
  throwIf (dto.quantity ≤ 0) (.badRequest "quantity must be greater than zero")
  throwIf (exceedsScale dto.quantity orderQuantityMaxDecimals = true)
    (.badRequest "quantity supports at most 18 decimal places")
  let price ← orThrow dto.price (.badRequest "price is required for LIMIT orders")
  throwIf (price ≤ 0 ∨ 1 ≤ price)
    (.badRequest "price must be a probability strictly between 0 and 1")
  throwIf (exceedsScale price orderPriceMaxDecimals = true)
    (.badRequest "price supports at most 6 decimal places")
  pure price

def fundingSymbol (side : OrderSide) : Tx Core Fault (Option String) :=
  -- which currency a BUY order will be funded in
  match side with
  | .buy => do
    let (_, asset) ← settlementAsset
    pure (some asset.symbol)
  | .sell => pure none

/-- The part of `create` before its transaction: plain reads and the checks on the request. -/
def prepare (now : Time) (userId : Nat) (dto : CreateOrderDto) (randomUUID : String) :
    Tx Core Fault Placement := do
  checkTrader userId
  throwIf (dto.type = .market) (.badRequest
    "MARKET orders are not supported yet — only LIMIT orders can be placed until a matching engine exists to execute them immediately.")
  checkListing now dto.marketId dto.outcomeId
  let price ← checkAmounts dto
  let symbol ← fundingSymbol dto.side
  pure
    { userId := userId
      marketId := dto.marketId
      outcomeId := dto.outcomeId
      side := dto.side
      price := price
      quantity := dto.quantity
      clientOrderId := dto.clientOrderId.getD randomUUID
      settlementAssetSymbol := symbol }

def orderRow (placement : Placement) (sequence : Nat) : Order where
  userId := placement.userId
  marketId := placement.marketId
  outcomeId := placement.outcomeId
  side := placement.side
  type := .limit
  price := some placement.price
  quantity := placement.quantity
  filledQuantity := 0
  remainingQuantity := placement.quantity
  status := .opened
  clientOrderId := placement.clientOrderId
  sequence := sequence

def Placement.matchesRow (placement : Placement) (order : Order) : Prop :=
  order.marketId = placement.marketId ∧ order.outcomeId = placement.outcomeId ∧
    order.side = placement.side ∧ order.price = some placement.price ∧
    order.quantity = placement.quantity

instance (placement : Placement) (order : Order) : Decidable (placement.matchesRow order) :=
  inferInstanceAs (Decidable (_ ∧ _))

def fundOrder (fees : FeeCalculator) (placement : Placement) (orderId : Nat) : Tx Core Fault Unit := do
  -- the reservation behind a new order: cash for a BUY, shares for a SELL
  match placement.side with
  | .buy => do
    let feeBuffer := fees.estimateBuyReserveFee
      { marketId := placement.marketId, outcomeId := placement.outcomeId, price := placement.price,
        quantity := placement.quantity }
    let requiredFunds := placement.quantity * placement.price + feeBuffer
    let symbol ← orThrow placement.settlementAssetSymbol (.db .recordNotFound)
    let _ ← zoom ledgerField (Ledger.reserve
      { userId := placement.userId
        assetSymbol := symbol
        input :=
          { amount := requiredFunds
            referenceType := .order
            referenceId := orderId
            idempotencyKey := ⟨"order-reserve", [orderId]⟩ } })
    pure ()
  | .sell => do
    let _ ← PositionReservations.reserve
      { userId := placement.userId
        marketId := placement.marketId
        outcomeId := placement.outcomeId
        input :=
          { amount := placement.quantity
            referenceType := .order
            referenceId := orderId
            idempotencyKey := ⟨"order-reserve", [orderId]⟩ } }
    pure ()

/-- The funding transaction of `create`; `sequence` is what the column's sequence hands out. -/
def create (fees : FeeCalculator) (now : Time) (placement : Placement) (sequence : Nat) :
    Tx Core Fault Nat := do
  let (orderId, alreadyExisted) ← createIdempotent "clientOrderId"
    (do
      let currentMarket ← getOrThrow marketsField placement.marketId
      checkMarketOpen now currentMarket
      OrderRiskValidator.validate
        { userId := placement.userId, marketId := placement.marketId, outcomeId := placement.outcomeId,
          side := placement.side, price := placement.price, quantity := placement.quantity }
      Tx.create ordersField (orderRow placement sequence))
    (do
      let (i, _) ← findOrThrow ordersField fun order =>
        decide (order.userId = placement.userId) && decide (order.clientOrderId = placement.clientOrderId)
      pure i)
    (.staleSnapshotConflict "clientOrderId")
  if alreadyExisted then do
    let order ← getOrThrow ordersField orderId
    throwIf (¬ placement.matchesRow order) (.conflict
      "clientOrderId was already used for a different order; use a new clientOrderId for a new order.")
    pure orderId
  else do
    fundOrder fees placement orderId
    pure orderId

def cancel (userId orderId : Nat) : Tx Core Fault Unit := do
  let order ← read fun c => c.exchange.orders.get? orderId
  let order ← orThrow order (.notFound "Order not found")
  throwIf (order.userId ≠ userId) (.notFound "Order not found")
  throwIf (order.isExecutable = false)
    (.badRequest ("Cannot cancel an order in status " ++ order.status.text))
  update ordersField orderId { order with status := .cancelled }
  ExecutionCoordinator.releaseOrder orderId order.side

def expireOrder (orderId : Nat) (order : Order) : Tx Core Fault Unit := do
  match ← read fun c => c.exchange.orders.get? orderId with
  | some current =>
    if current.status = order.status then do
      update ordersField orderId { current with status := .expired }
      ExecutionCoordinator.releaseOrder orderId order.side
    else pure ()
  | none => pure ()

def expireOrders : List (Nat × Order) → Tx Core Fault Unit
  | [] => pure ()
  | (orderId, order) :: rest => do
    expireOrder orderId order
    expireOrders rest

def expireRestingOrdersForMarket (marketId : Nat) : Tx Core Fault Nat := do
  let restingOrders ← read fun c => c.exchange.orders.findMany fun order =>
    decide (order.marketId = marketId) && order.isExecutable
  expireOrders restingOrders
  pure restingOrders.length

end OrdersService

end VerdictVaut
