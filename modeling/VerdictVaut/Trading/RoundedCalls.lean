import VerdictVaut.Ledger.Rounded
import VerdictVaut.Markets.Lifecycle
import VerdictVaut.Trading.MatchAndExecute

set_option autoImplicit false

-- the calls of trading with the rounding of `Prisma.Decimal` and of the columns, each beside its exact counterpart
namespace VerdictVaut.Rounded

open Relational Relational.Tx VerdictVaut.Core

def postInSettlementCurrency (input : String → Ledger.PostTransactionInput) :
    Tx Core Fault Ledger.PostTransactionResult := do
  let (_, asset) ← settlementAsset
  zoom ledgerField (postTransaction (input asset.symbol))

namespace PriceTimePriority

def matchEligible (marketId outcomeId : Nat) (incoming : MatchCandidate) :
    ℚ → List MatchCandidate → List ExecutionInstruction
  | _, [] => []
  | remaining, resting :: rest =>
    if remaining ≤ 0 then []
    else if resting.remainingQuantity ≤ 0 then matchEligible marketId outcomeId incoming remaining rest
    else if VerdictVaut.PriceTimePriority.crosses incoming resting then
      let executionQuantity := min remaining resting.remainingQuantity
      VerdictVaut.PriceTimePriority.instruction marketId outcomeId incoming resting executionQuantity ::
        matchEligible marketId outcomeId incoming (Decimal.minus remaining executionQuantity) rest
    else []

def matchCandidates (marketId outcomeId : Nat) (incoming : MatchCandidate)
    (restingOpposite : List MatchCandidate) : List ExecutionInstruction :=
  matchEligible marketId outcomeId incoming incoming.remainingQuantity
    (VerdictVaut.PriceTimePriority.eligible incoming restingOpposite)

end PriceTimePriority

namespace CompleteSetMintEngine

def instruction (marketId outcomeAId outcomeBId : Nat) (incoming resting : MatchCandidate)
    (executionQuantity : ℚ) : MintInstruction :=
  let priceB := resting.price
  { idempotencyKey := VerdictVaut.CompleteSetMintEngine.mintKey resting.orderId incoming.orderId
    marketId := marketId
    outcomeAId := outcomeAId
    outcomeBId := outcomeBId
    buyOrderAId := incoming.orderId
    buyOrderBId := resting.orderId
    buyerAUserId := incoming.userId
    buyerBUserId := resting.userId
    priceA := Decimal.minus 1 priceB
    priceB := priceB
    quantity := executionQuantity }

def matchEligible (marketId outcomeAId outcomeBId : Nat) (incoming : MatchCandidate) :
    ℚ → List MatchCandidate → List MintInstruction
  | _, [] => []
  | remaining, resting :: rest =>
    if remaining ≤ 0 then []
    else if resting.remainingQuantity ≤ 0 then
      matchEligible marketId outcomeAId outcomeBId incoming remaining rest
    else if Decimal.plus incoming.price resting.price < 1 then []
    else
      let executionQuantity := min remaining resting.remainingQuantity
      instruction marketId outcomeAId outcomeBId incoming resting executionQuantity ::
        matchEligible marketId outcomeAId outcomeBId incoming (Decimal.minus remaining executionQuantity) rest

def matchCandidates (marketId outcomeAId outcomeBId : Nat) (incoming : MatchCandidate)
    (restingComplementary : List MatchCandidate) : List MintInstruction :=
  matchEligible marketId outcomeAId outcomeBId incoming incoming.remainingQuantity
    (VerdictVaut.CompleteSetMintEngine.eligible incoming restingComplementary)

end CompleteSetMintEngine

namespace ExecutionCoordinator

def consumeFrom {H : Type} [Holder H] (field : Field Core (Reserved H)) (orderId : Nat) (amount : ℚ)
    (missing : Fault) : Tx Core Fault Unit := do
  let reservation ← zoom field (Reserved.findActiveByReference .order orderId)
  let (reservationId, _) ← orThrow reservation missing
  zoom field (consume reservationId amount)

def consumeBuyer (orderId : Nat) (amount : ℚ) (cannot : String) : Tx Core Fault Unit :=
  consumeFrom fundsField orderId amount (.noActiveFundReservation orderId cannot)

def consumeSeller (orderId : Nat) (amount : ℚ) : Tx Core Fault Unit :=
  consumeFrom sharesField orderId amount (.noActivePositionReservation orderId)

def consumeReservations (buyOrderId sellOrderId : Nat) (executedQuantity executionPrice : ℚ) :
    Tx Core Fault Unit := do
  consumeBuyer buyOrderId (Decimal.times executedQuantity executionPrice) "cannot execute"
  consumeSeller sellOrderId executedQuantity

def tradePostings (instruction : ExecutionInstruction) (executedQuantity executionPrice : ℚ)
    (feeResult : FillFeeResult) : List Ledger.Posting :=
  let cost := Decimal.times executedQuantity executionPrice
  let buyerDebit := Decimal.plus cost feeResult.buyerFee
  let sellerCredit := Decimal.minus cost feeResult.sellerFee
  let totalFee := Decimal.plus feeResult.buyerFee feeResult.sellerFee
  [{ account := .user instruction.buyerUserId, amount := -buyerDebit },
    { account := .user instruction.sellerUserId, amount := sellerCredit }] ++
  (if totalFee ≠ 0 then [{ account := .house .feeRevenue, amount := totalFee }] else [])

def postTradeLedger (fillId : Nat) (instruction : ExecutionInstruction)
    (executedQuantity executionPrice : ℚ) (feeResult : FillFeeResult) : Tx Core Fault Unit := do
  let _ ← postInSettlementCurrency fun symbol =>
    { assetSymbol := symbol
      type := .trade
      referenceType := .fill
      referenceId := fillId
      idempotencyKey := ⟨"trade", [fillId]⟩
      postings := tradePostings instruction executedQuantity executionPrice feeResult }
  pure ()

def updateOrder (orderId : Nat) (order : Order) (executedQuantity : ℚ) : Tx Core Fault Unit := do
  let newFilled := Decimal.plus order.filledQuantity executedQuantity
  let newRemaining := Decimal.minus order.remainingQuantity executedQuantity
  match ← read fun c => c.exchange.orders.get? orderId with
  | some current =>
    if current.remainingQuantity = order.remainingQuantity then do
      let filled ← write newFilled
      let remaining ← write newRemaining
      update ordersField orderId
        { current with
          filledQuantity := filled
          remainingQuantity := remaining
          status := if newRemaining = 0 then .filled else .partiallyFilled }
    else fail (.orderChangedMidExecution orderId)
  | none => fail (.orderChangedMidExecution orderId)

def increaseBuyerPosition (userId marketId outcomeId : Nat) (executedQuantity price : ℚ) :
    Tx Core Fault Unit := do
  let (positionId, position) ← upsert positionsField
    (VerdictVaut.ExecutionCoordinator.isPosition userId marketId outcomeId)
    (VerdictVaut.ExecutionCoordinator.emptyPosition userId marketId outcomeId)
  let newQuantity := Decimal.plus position.quantity executedQuantity
  let quantity ← write newQuantity
  update positionsField positionId
    { position with
      quantity := quantity
      avgPrice := VerdictVaut.ExecutionCoordinator.averagePrice position executedQuantity price newQuantity }

def updatePositions (instruction : ExecutionInstruction) (executedQuantity executionPrice : ℚ) :
    Tx Core Fault Unit := do
  increaseBuyerPosition instruction.buyerUserId instruction.marketId instruction.outcomeId
    executedQuantity executionPrice
  let (positionId, sellerPosition) ← findOrThrow positionsField
    (VerdictVaut.ExecutionCoordinator.isPosition instruction.sellerUserId instruction.marketId instruction.outcomeId)
  let quantity ← write (Decimal.minus sellerPosition.quantity executedQuantity)
  update positionsField positionId
    { sellerPosition with
      quantity := quantity
      realizedPnl := VerdictVaut.ExecutionCoordinator.realizedAfter sellerPosition executedQuantity executionPrice }

def releaseOrder (orderId : Nat) (side : OrderSide) : Tx Core Fault Unit :=
  match side with
  | .buy => zoom fundsField (releaseByReference .order orderId)
  | .sell => zoom sharesField (releaseByReference .order orderId)

def releaseReservationIfOrderNowFilled (orderId : Nat) (order : Order) (executedQuantity : ℚ) :
    Tx Core Fault Unit :=
  if Decimal.minus order.remainingQuantity executedQuantity ≠ 0 then pure () else releaseOrder orderId order.side

def settleFill (fillId : Nat) (instruction : ExecutionInstruction) (buyOrder sellOrder : Order)
    (executedQuantity : ℚ) (feeResult : FillFeeResult) : Tx Core Fault Unit := do
  consumeReservations instruction.buyOrderId instruction.sellOrderId executedQuantity instruction.price
  postTradeLedger fillId instruction executedQuantity instruction.price feeResult
  updateOrder instruction.buyOrderId buyOrder executedQuantity
  updateOrder instruction.sellOrderId sellOrder executedQuantity
  updatePositions instruction executedQuantity instruction.price
  releaseReservationIfOrderNowFilled instruction.buyOrderId buyOrder executedQuantity
  releaseReservationIfOrderNowFilled instruction.sellOrderId sellOrder executedQuantity

def executeFill (fees : FeeCalculator) (instruction : ExecutionInstruction) (buyOrder sellOrder : Order)
    (executedQuantity : ℚ) : Tx Core Fault (Option Nat) := do
  let feeResult := fees.calculateFillFee (VerdictVaut.ExecutionCoordinator.fillFeeContext instruction executedQuantity)
  throwIf (feeResult.buyerFee < 0 ∨ feeResult.sellerFee < 0)
    (.negativeFeeLeg feeResult.buyerFee feeResult.sellerFee)
  let totalFee := Decimal.plus feeResult.buyerFee feeResult.sellerFee
  let (fillId, alreadyExisted) ← createOnce fillsField "idempotencyKey"
    (VerdictVaut.ExecutionCoordinator.fillRow instruction executedQuantity totalFee)
    (fun fill => decide (fill.idempotencyKey = instruction.idempotencyKey))
    (.staleSnapshotConflict "idempotencyKey")
  if alreadyExisted then pure (some fillId)
  else do
    settleFill fillId instruction buyOrder sellOrder executedQuantity feeResult
    pure (some fillId)

def applyExecution (fees : FeeCalculator) (now : Time) (instruction : ExecutionInstruction) :
    Tx Core Fault (Option Nat) := do
  let buyOrder ← getOrThrow ordersField instruction.buyOrderId
  let sellOrder ← getOrThrow ordersField instruction.sellOrderId
  let market ← getOrThrow marketsField instruction.marketId
  let executedQuantity := VerdictVaut.ExecutionCoordinator.minRemaining instruction.quantity buyOrder sellOrder
  if market.isExecutable now = false then pure none
  else if buyOrder.isExecutable = false ∨ sellOrder.isExecutable = false then pure none
  else if executedQuantity ≤ 0 then pure none
  else executeFill fees instruction buyOrder sellOrder executedQuantity

def mintPostings (instruction : MintInstruction) (executedQuantity : ℚ) : List Ledger.Posting :=
  let costA := Decimal.times executedQuantity instruction.priceA
  let costB := Decimal.times executedQuantity instruction.priceB
  [{ account := .user instruction.buyerAUserId, amount := -costA },
    { account := .user instruction.buyerBUserId, amount := -costB },
    { account := .market instruction.marketId, amount := Decimal.plus costA costB }]

def postMintLedger (mintId : Nat) (instruction : MintInstruction) (executedQuantity : ℚ) :
    Tx Core Fault Unit := do
  let _ ← postInSettlementCurrency fun symbol =>
    { assetSymbol := symbol
      type := .mint
      referenceType := .completeSetMint
      referenceId := mintId
      idempotencyKey := ⟨"mint", [mintId]⟩
      postings := mintPostings instruction executedQuantity }
  pure ()

def settleMint (mintId : Nat) (instruction : MintInstruction) (buyOrderA buyOrderB : Order)
    (executedQuantity : ℚ) : Tx Core Fault Unit := do
  consumeBuyer instruction.buyOrderAId (Decimal.times executedQuantity instruction.priceA) "cannot mint"
  consumeBuyer instruction.buyOrderBId (Decimal.times executedQuantity instruction.priceB) "cannot mint"
  postMintLedger mintId instruction executedQuantity
  updateOrder instruction.buyOrderAId buyOrderA executedQuantity
  updateOrder instruction.buyOrderBId buyOrderB executedQuantity
  increaseBuyerPosition instruction.buyerAUserId instruction.marketId instruction.outcomeAId
    executedQuantity instruction.priceA
  increaseBuyerPosition instruction.buyerBUserId instruction.marketId instruction.outcomeBId
    executedQuantity instruction.priceB
  releaseReservationIfOrderNowFilled instruction.buyOrderAId buyOrderA executedQuantity
  releaseReservationIfOrderNowFilled instruction.buyOrderBId buyOrderB executedQuantity

def executeMint (instruction : MintInstruction) (buyOrderA buyOrderB : Order) (executedQuantity : ℚ) :
    Tx Core Fault (Option Nat) := do
  let (mintId, alreadyExisted) ← createOnce mintsField "idempotencyKey"
    (VerdictVaut.ExecutionCoordinator.mintRow instruction executedQuantity)
    (fun mint => decide (mint.idempotencyKey = instruction.idempotencyKey))
    (.staleSnapshotConflict "idempotencyKey")
  if alreadyExisted then pure (some mintId)
  else do
    settleMint mintId instruction buyOrderA buyOrderB executedQuantity
    pure (some mintId)

def applyMintExecution (now : Time) (instruction : MintInstruction) : Tx Core Fault (Option Nat) := do
  let buyOrderA ← getOrThrow ordersField instruction.buyOrderAId
  let buyOrderB ← getOrThrow ordersField instruction.buyOrderBId
  let market ← getOrThrow marketsField instruction.marketId
  let executedQuantity := VerdictVaut.ExecutionCoordinator.minRemaining instruction.quantity buyOrderA buyOrderB
  if market.isExecutable now = false then pure none
  else if buyOrderA.isExecutable = false ∨ buyOrderB.isExecutable = false then pure none
  else if executedQuantity ≤ 0 then pure none
  else executeMint instruction buyOrderA buyOrderB executedQuantity

def readInstructions (incoming : VerdictVaut.ExecutionCoordinator.Incoming) : Tx Core Fault (List ExecutionInstruction) :=
  read fun c => PriceTimePriority.matchCandidates incoming.marketId incoming.outcomeId incoming.candidate
    (VerdictVaut.ExecutionCoordinator.restingCandidates incoming c.exchange.orders)

def readMintInstructions (incoming : VerdictVaut.ExecutionCoordinator.MintIncoming) :
    Tx Core Fault (List MintInstruction) :=
  read fun c => CompleteSetMintEngine.matchCandidates incoming.marketId incoming.outcomeAId incoming.outcomeBId
    incoming.candidate
    (OrderBook.getRestingCandidates c.exchange.orders incoming.marketId incoming.outcomeBId .buy
      (.gte (Decimal.minus 1 incoming.candidate.price)))

def applyExecutions (fees : FeeCalculator) (clock : Nat → Time) :
    Nat → List ExecutionInstruction → Tx Core Fault Unit
  | _, [] => pure ()
  | k, instruction :: rest => do
    let _ ← runTransaction ledgerField (applyExecution fees (clock k) instruction)
    applyExecutions fees clock (k + 1) rest

def applyMintExecutions (clock : Nat → Time) : Nat → List MintInstruction → Tx Core Fault Unit
  | _, [] => pure ()
  | k, instruction :: rest => do
    let _ ← runTransaction ledgerField (applyMintExecution (clock k) instruction)
    applyMintExecutions clock (k + 1) rest

def attemptComplementaryMint (clock : Nat → Time) (k orderId marketId : Nat) : Tx Core Fault Unit := do
  match ← VerdictVaut.ExecutionCoordinator.readMintIncoming orderId marketId with
  | none => pure ()
  | some incoming => do
    let instructions ← readMintInstructions incoming
    applyMintExecutions clock k instructions

def matchAndExecute (fees : FeeCalculator) (clock : Nat → Time) (orderId : Nat) : Tx Core Fault Unit := do
  match ← VerdictVaut.ExecutionCoordinator.readIncoming (clock 0) orderId with
  | none => pure ()
  | some incoming => do
    let instructions ← readInstructions incoming
    applyExecutions fees clock 1 instructions
    if incoming.candidate.side = .buy then
      attemptComplementaryMint clock (instructions.length + 1) orderId incoming.marketId
    else pure ()

end ExecutionCoordinator

namespace OrderRiskValidator

/-- `restingBuys.reduce(…)`, in the order in which the rows are read. -/
def restingExposure (orders : Table Order) (marketId outcomeId : Nat) : ℚ :=
  ((orders.rows.filter fun order => decide (order.marketId = marketId) && decide (order.outcomeId = outcomeId) &&
    decide (order.side = .buy) && order.isExecutable).map
      fun order => Decimal.times order.remainingQuantity (order.price.getD 0)).foldl Decimal.plus 0

def checkMarketExposure (input : VerdictVaut.OrderRiskValidator.Input) : Tx Core Fault Unit := do
  if input.side ≠ .buy then pure ()
  else do
    let market ← getOrThrow marketsField input.marketId
    let currentExposure ← read fun c => restingExposure c.exchange.orders input.marketId input.outcomeId
    VerdictVaut.OrderRiskValidator.checkCap market.maxExposure
      (Decimal.plus currentExposure (Decimal.times input.quantity input.price))
      "This order would push open BUY exposure on this market/outcome above its configured cap of "

def validate (input : VerdictVaut.OrderRiskValidator.Input) : Tx Core Fault Unit := do
  let riskLimit ← read fun c => (c.riskLimits.find? fun limit => decide (limit.userId = input.userId)).map Prod.snd
  VerdictVaut.OrderRiskValidator.checkCap (riskLimit.bind RiskLimit.maxOrderQuantity) input.quantity
    "Order quantity exceeds your configured maximum of "
  VerdictVaut.OrderRiskValidator.checkCap (riskLimit.bind RiskLimit.maxOrderNotional)
    (Decimal.times input.quantity input.price) "Order notional exceeds your configured maximum of "
  let position ← find? positionsField
    (VerdictVaut.ExecutionCoordinator.isPosition input.userId input.marketId input.outcomeId)
  let held := (position.map fun found => found.2.quantity).getD 0
  VerdictVaut.OrderRiskValidator.checkCap (if input.side = .buy then riskLimit.bind RiskLimit.maxPositionSize else none)
    (Decimal.plus held input.quantity) "Resulting position would exceed your configured maximum of "
  checkMarketExposure input

end OrderRiskValidator

namespace PositionReservations

def reserve (request : VerdictVaut.PositionReservations.ReserveShares) : Tx Core Fault (Nat × Bool) := do
  throwIf (request.input.amount ≤ 0) (.invalidPositionReservationAmount request.input.amount)
  let (positionId, position) ← upsert positionsField
    (VerdictVaut.ExecutionCoordinator.isPosition request.userId request.marketId request.outcomeId)
    (VerdictVaut.ExecutionCoordinator.emptyPosition request.userId request.marketId request.outcomeId)
  zoom sharesField (earmark positionId position request.input)

end PositionReservations

namespace OrdersService

open VerdictVaut.OrdersService (Placement checkMarketOpen orderRow)

def fundOrder (fees : FeeCalculator) (placement : Placement) (orderId : Nat) : Tx Core Fault Unit := do
  match placement.side with
  | .buy => do
    let feeBuffer := fees.estimateBuyReserveFee
      { marketId := placement.marketId, outcomeId := placement.outcomeId, price := placement.price,
        quantity := placement.quantity }
    let requiredFunds := Decimal.plus (Decimal.times placement.quantity placement.price) feeBuffer
    let symbol ← orThrow placement.settlementAssetSymbol (.db .recordNotFound)
    let _ ← zoom ledgerField (reserve
      { userId := placement.userId
        assetSymbol := symbol
        input :=
          { amount := requiredFunds
            referenceType := .order
            referenceId := orderId
            idempotencyKey := ⟨"order-reserve", [orderId]⟩ } })
    pure ()
  | .sell => do
    let _ ← PositionReservations.reserve
      { userId := placement.userId
        marketId := placement.marketId
        outcomeId := placement.outcomeId
        input :=
          { amount := placement.quantity
            referenceType := .order
            referenceId := orderId
            idempotencyKey := ⟨"order-reserve", [orderId]⟩ } }
    pure ()

def create (fees : FeeCalculator) (now : Time) (placement : Placement) (sequence : Nat) :
    Tx Core Fault Nat := do
  let (orderId, alreadyExisted) ← createIdempotent "clientOrderId"
    (do
      let currentMarket ← getOrThrow marketsField placement.marketId
      checkMarketOpen now currentMarket
      OrderRiskValidator.validate
        { userId := placement.userId, marketId := placement.marketId, outcomeId := placement.outcomeId,
          side := placement.side, price := placement.price, quantity := placement.quantity }
      let quantity ← write placement.quantity
      Tx.create ordersField (orderRow { placement with quantity := quantity } sequence))
    (do
      let (i, _) ← findOrThrow ordersField fun order =>
        decide (order.userId = placement.userId) && decide (order.clientOrderId = placement.clientOrderId)
      pure i)
    (.staleSnapshotConflict "clientOrderId")
  if alreadyExisted then do
    let order ← getOrThrow ordersField orderId
    throwIf (¬ placement.matchesRow order) (.conflict
      "clientOrderId was already used for a different order; use a new clientOrderId for a new order.")
    pure orderId
  else do
    fundOrder fees placement orderId
    pure orderId

def cancel (userId orderId : Nat) : Tx Core Fault Unit := do
  let order ← read fun c => c.exchange.orders.get? orderId
  let order ← orThrow order (.notFound "Order not found")
  throwIf (order.userId ≠ userId) (.notFound "Order not found")
  throwIf (order.isExecutable = false)
    (.badRequest ("Cannot cancel an order in status " ++ order.status.text))
  update ordersField orderId { order with status := .cancelled }
  ExecutionCoordinator.releaseOrder orderId order.side

def expireOrder (orderId : Nat) (order : Order) : Tx Core Fault Unit := do
  match ← read fun c => c.exchange.orders.get? orderId with
  | some current =>
    if current.status = order.status then do
      update ordersField orderId { current with status := .expired }
      ExecutionCoordinator.releaseOrder orderId order.side
    else pure ()
  | none => pure ()

def expireOrders : List (Nat × Order) → Tx Core Fault Unit
  | [] => pure ()
  | (orderId, order) :: rest => do
    expireOrder orderId order
    expireOrders rest

def expireRestingOrdersForMarket (marketId : Nat) : Tx Core Fault Nat := do
  let restingOrders ← read fun c => c.exchange.orders.findMany fun order =>
    decide (order.marketId = marketId) && order.isExecutable
  expireOrders restingOrders
  pure restingOrders.length

/-- A call of `create` with nothing else running; `clock` has the times that it reads, in order. -/
def place (clock : Nat → Time) (userId : Nat) (dto : VerdictVaut.OrdersService.CreateOrderDto) (randomUUID : String)
    (sequence : Nat) : Tx Core Fault Nat := do
  let placement ← VerdictVaut.OrdersService.prepare (clock 0) userId dto randomUUID
  let orderId ← runTransaction ledgerField (create zeroFeeCalculator (clock 1) placement sequence)
  ExecutionCoordinator.matchAndExecute zeroFeeCalculator (fun k => clock (k + 2)) orderId
  pure orderId

end OrdersService

namespace MarketsService

def close (marketId : Nat) : Tx Core Fault Nat := do
  VerdictVaut.MarketsService.transitionStatus marketId [.opened, .paused] .closed
  OrdersService.expireRestingOrdersForMarket marketId

end MarketsService

namespace SettlementService

open VerdictVaut.SettlementService (payoutInput settlementRow)

def computeSettlementPayout (quantity payoutPerShare : ℚ) : ℚ := Decimal.times quantity payoutPerShare

def postPayout (positionId : Nat) (position : Position) (payoutAmount : ℚ) :
    Tx Core Fault (Option Nat) := do
  if payoutAmount = 0 then pure none
  else do
    let result ← postInSettlementCurrency (payoutInput positionId position payoutAmount)
    pure (some result.transactionId)

def settleOnePosition (now : Time) (positionId : Nat) : Tx Core Fault Bool := do
  let position ← getOrThrow positionsField positionId
  if position.settledAt.isSome then pure false
  else do
    throwIf (position.reservedQuantity ≠ 0) (.positionStillReserved positionId position.reservedQuantity)
    let (_, rate) ← findOrThrow settlementsField fun settlement =>
      decide (settlement.marketId = position.marketId) && decide (settlement.outcomeId = position.outcomeId)
    let payoutAmount := computeSettlementPayout position.quantity rate.payoutPerShare
    let ledgerTransactionId ← postPayout positionId position payoutAmount
    let amount ← write payoutAmount
    let (_, alreadyExisted) ← createOnce positionSettlementsField "idempotencyKey"
      (settlementRow positionId position rate.payoutPerShare amount ledgerTransactionId)
      (fun settlement => decide (settlement.idempotencyKey = ⟨"settlement", [positionId]⟩))
      (.staleSnapshotConflict "idempotencyKey")
    if alreadyExisted then pure false
    else do
      let current ← getOrThrow positionsField positionId
      throwIf (current.settledAt.isSome = true) (.positionChangedMidSettlement positionId)
      update positionsField positionId { current with settledAt := some now }
      pure true

end SettlementService

end VerdictVaut.Rounded
