import VerdictVaut.Ledger.Decimal
import VerdictVaut.Trading.Matching

set_option autoImplicit false

namespace VerdictVaut

open Relational Relational.Tx VerdictVaut.Core

def avgPricePlaces : Nat := 6

namespace ExecutionCoordinator

def consumeFrom {H : Type} [Holder H] (field : Field Core (Reserved H)) (orderId : Nat) (amount : ℚ)
    (missing : Fault) : Tx Core Fault Unit := do
  -- the active reservation behind an order, drawn down; on the funds or on the shares
  let reservation ← zoom field (Reserved.findActiveByReference .order orderId)
  let (reservationId, _) ← orThrow reservation missing
  zoom field (Reserved.consume reservationId amount)

def consumeBuyer (orderId : Nat) (amount : ℚ) (cannot : String) : Tx Core Fault Unit :=
  consumeFrom fundsField orderId amount (.noActiveFundReservation orderId cannot)

def consumeSeller (orderId : Nat) (amount : ℚ) : Tx Core Fault Unit :=
  consumeFrom sharesField orderId amount (.noActivePositionReservation orderId)

def consumeReservations (buyOrderId sellOrderId : Nat) (executedQuantity executionPrice : ℚ) :
    Tx Core Fault Unit := do
  consumeBuyer buyOrderId (executedQuantity * executionPrice) "cannot execute"
  consumeSeller sellOrderId executedQuantity

def tradePostings (instruction : ExecutionInstruction) (executedQuantity executionPrice : ℚ)
    (feeResult : FillFeeResult) : List Ledger.Posting :=
  let cost := executedQuantity * executionPrice
  let buyerDebit := cost + feeResult.buyerFee
  let sellerCredit := cost - feeResult.sellerFee
  let totalFee := feeResult.buyerFee + feeResult.sellerFee
  [{ account := .user instruction.buyerUserId, amount := -buyerDebit },
    { account := .user instruction.sellerUserId, amount := sellerCredit }] ++
  (if totalFee ≠ 0 then [{ account := .house .feeRevenue, amount := totalFee }] else [])

def postTradeLedger (fillId : Nat) (instruction : ExecutionInstruction)
    (executedQuantity executionPrice : ℚ) (feeResult : FillFeeResult) : Tx Core Fault Unit := do
  let _ ← postInSettlementCurrency fun symbol =>
    { assetSymbol := symbol
      type := .trade
      referenceType := .fill
      referenceId := fillId
      idempotencyKey := ⟨"trade", [fillId]⟩
      postings := tradePostings instruction executedQuantity executionPrice feeResult }
  pure ()

/-- The compare-and-set on `remainingQuantity` that `updateOrders` makes for each of the two orders. -/
def updateOrder (orderId : Nat) (order : Order) (executedQuantity : ℚ) : Tx Core Fault Unit := do
  let newFilled := order.filledQuantity + executedQuantity
  let newRemaining := order.remainingQuantity - executedQuantity
  match ← read fun c => c.exchange.orders.get? orderId with
  | some current =>
    if current.remainingQuantity = order.remainingQuantity then
      update ordersField orderId
        { current with
          filledQuantity := newFilled
          remainingQuantity := newRemaining
          status := if newRemaining = 0 then .filled else .partiallyFilled }
    else fail (.orderChangedMidExecution orderId)
  | none => fail (.orderChangedMidExecution orderId)

def isPosition (userId marketId outcomeId : Nat) (position : Position) : Bool :=
  decide (position.userId = userId) && decide (position.marketId = marketId) &&
  decide (position.outcomeId = outcomeId)

def emptyPosition (userId marketId outcomeId : Nat) : Position where
  userId := userId
  marketId := marketId
  outcomeId := outcomeId
  quantity := 0
  reservedQuantity := 0
  avgPrice := 0
  realizedPnl := 0
  settledAt := none

-- the cost basis is what `Decimal`s compute and the columns keep; no other figure is read off it

def averagePrice (position : Position) (executedQuantity price newQuantity : ℚ) : ℚ :=
  let newAvgPrice :=
    if position.quantity = 0 then price
    else Decimal.dividedBy
      (Decimal.plus (Decimal.times position.quantity position.avgPrice) (Decimal.times executedQuantity price)) newQuantity
  Decimals.toPlaces avgPricePlaces newAvgPrice

def realizedAfter (position : Position) (executedQuantity executionPrice : ℚ) : ℚ :=
  let realizedPnlDelta := Decimal.times (Decimal.minus executionPrice position.avgPrice) executedQuantity
  Decimal.column (Decimal.plus position.realizedPnl realizedPnlDelta)

def increaseBuyerPosition (userId marketId outcomeId : Nat) (executedQuantity price : ℚ) :
    Tx Core Fault Unit := do
  let (positionId, position) ← upsert positionsField (isPosition userId marketId outcomeId)
    (emptyPosition userId marketId outcomeId)
  let newQuantity := position.quantity + executedQuantity
  update positionsField positionId
    { position with
      quantity := newQuantity
      avgPrice := averagePrice position executedQuantity price newQuantity }

def updatePositions (instruction : ExecutionInstruction) (executedQuantity executionPrice : ℚ) :
    Tx Core Fault Unit := do
  increaseBuyerPosition instruction.buyerUserId instruction.marketId instruction.outcomeId
    executedQuantity executionPrice
  let (positionId, sellerPosition) ← findOrThrow positionsField
    (isPosition instruction.sellerUserId instruction.marketId instruction.outcomeId)
  update positionsField positionId
    { sellerPosition with
      quantity := sellerPosition.quantity - executedQuantity
      realizedPnl := realizedAfter sellerPosition executedQuantity executionPrice }

/-- The release of an order's own reservation, by its side, that cancelling, expiring and filling
share. -/
def releaseOrder (orderId : Nat) (side : OrderSide) : Tx Core Fault Unit :=
  match side with
  | .buy => zoom fundsField (Reserved.releaseByReference .order orderId)
  | .sell => zoom sharesField (Reserved.releaseByReference .order orderId)

def releaseReservationIfOrderNowFilled (orderId : Nat) (order : Order) (executedQuantity : ℚ) :
    Tx Core Fault Unit :=
  if order.remainingQuantity - executedQuantity ≠ 0 then pure () else releaseOrder orderId order.side

def fillRow (instruction : ExecutionInstruction) (executedQuantity fee : ℚ) : Fill where
  marketId := instruction.marketId
  outcomeId := instruction.outcomeId
  buyOrderId := instruction.buyOrderId
  sellOrderId := instruction.sellOrderId
  makerOrderId := instruction.makerOrderId
  takerOrderId := instruction.takerOrderId
  buyerUserId := instruction.buyerUserId
  sellerUserId := instruction.sellerUserId
  price := instruction.price
  quantity := executedQuantity
  fee := fee
  idempotencyKey := instruction.idempotencyKey

def fillFeeContext (instruction : ExecutionInstruction) (executedQuantity : ℚ) : FillFeeContext where
  marketId := instruction.marketId
  outcomeId := instruction.outcomeId
  price := instruction.price
  quantity := executedQuantity
  makerUserId :=
    if instruction.makerOrderId = instruction.buyOrderId then instruction.buyerUserId
    else instruction.sellerUserId
  takerUserId :=
    if instruction.takerOrderId = instruction.buyOrderId then instruction.buyerUserId
    else instruction.sellerUserId

def settleFill (fillId : Nat) (instruction : ExecutionInstruction) (buyOrder sellOrder : Order)
    (executedQuantity : ℚ) (feeResult : FillFeeResult) : Tx Core Fault Unit := do
  -- what follows the insertion of the fill's row
  consumeReservations instruction.buyOrderId instruction.sellOrderId executedQuantity instruction.price
  postTradeLedger fillId instruction executedQuantity instruction.price feeResult
  updateOrder instruction.buyOrderId buyOrder executedQuantity
  updateOrder instruction.sellOrderId sellOrder executedQuantity
  updatePositions instruction executedQuantity instruction.price
  releaseReservationIfOrderNowFilled instruction.buyOrderId buyOrder executedQuantity
  releaseReservationIfOrderNowFilled instruction.sellOrderId sellOrder executedQuantity

/-- `applyExecution` once the fresh-state checks have passed. -/
def executeFill (fees : FeeCalculator) (instruction : ExecutionInstruction) (buyOrder sellOrder : Order)
    (executedQuantity : ℚ) : Tx Core Fault (Option Nat) := do
  let feeResult := fees.calculateFillFee (fillFeeContext instruction executedQuantity)
  throwIf (feeResult.buyerFee < 0 ∨ feeResult.sellerFee < 0)
    (.negativeFeeLeg feeResult.buyerFee feeResult.sellerFee)
  let totalFee := feeResult.buyerFee + feeResult.sellerFee
  let (fillId, alreadyExisted) ← createOnce fillsField "idempotencyKey"
    (fillRow instruction executedQuantity totalFee)
    (fun fill => decide (fill.idempotencyKey = instruction.idempotencyKey))
    (.staleSnapshotConflict "idempotencyKey")
  if alreadyExisted then pure (some fillId)
  else do
    settleFill fillId instruction buyOrder sellOrder executedQuantity feeResult
    pure (some fillId)

def minRemaining (quantity : ℚ) (a b : Order) : ℚ :=
  min (min quantity a.remainingQuantity) b.remainingQuantity

/-- One instruction, re-validated against the current rows. `none` is the stale case. -/
def applyExecution (fees : FeeCalculator) (now : Time) (instruction : ExecutionInstruction) :
    Tx Core Fault (Option Nat) := do
  let buyOrder ← getOrThrow ordersField instruction.buyOrderId
  let sellOrder ← getOrThrow ordersField instruction.sellOrderId
  let market ← getOrThrow marketsField instruction.marketId
  let executedQuantity := minRemaining instruction.quantity buyOrder sellOrder
  if market.isExecutable now = false then pure none
  else if buyOrder.isExecutable = false ∨ sellOrder.isExecutable = false then pure none
  else if executedQuantity ≤ 0 then pure none
  else executeFill fees instruction buyOrder sellOrder executedQuantity

def mintRow (instruction : MintInstruction) (executedQuantity : ℚ) : CompleteSetMint where
  marketId := instruction.marketId
  outcomeAId := instruction.outcomeAId
  outcomeBId := instruction.outcomeBId
  buyOrderAId := instruction.buyOrderAId
  buyOrderBId := instruction.buyOrderBId
  buyerAUserId := instruction.buyerAUserId
  buyerBUserId := instruction.buyerBUserId
  priceA := instruction.priceA
  priceB := instruction.priceB
  quantity := executedQuantity
  idempotencyKey := instruction.idempotencyKey

def mintPostings (instruction : MintInstruction) (executedQuantity : ℚ) : List Ledger.Posting :=
  let costA := executedQuantity * instruction.priceA
  let costB := executedQuantity * instruction.priceB
  [{ account := .user instruction.buyerAUserId, amount := -costA },
    { account := .user instruction.buyerBUserId, amount := -costB },
    { account := .market instruction.marketId, amount := costA + costB }]

def postMintLedger (mintId : Nat) (instruction : MintInstruction) (executedQuantity : ℚ) :
    Tx Core Fault Unit := do
  let _ ← postInSettlementCurrency fun symbol =>
    { assetSymbol := symbol
      type := .mint
      referenceType := .completeSetMint
      referenceId := mintId
      idempotencyKey := ⟨"mint", [mintId]⟩
      postings := mintPostings instruction executedQuantity }
  pure ()

def settleMint (mintId : Nat) (instruction : MintInstruction) (buyOrderA buyOrderB : Order)
    (executedQuantity : ℚ) : Tx Core Fault Unit := do
  consumeBuyer instruction.buyOrderAId (executedQuantity * instruction.priceA) "cannot mint"
  consumeBuyer instruction.buyOrderBId (executedQuantity * instruction.priceB) "cannot mint"
  postMintLedger mintId instruction executedQuantity
  updateOrder instruction.buyOrderAId buyOrderA executedQuantity
  updateOrder instruction.buyOrderBId buyOrderB executedQuantity
  increaseBuyerPosition instruction.buyerAUserId instruction.marketId instruction.outcomeAId
    executedQuantity instruction.priceA
  increaseBuyerPosition instruction.buyerBUserId instruction.marketId instruction.outcomeBId
    executedQuantity instruction.priceB
  releaseReservationIfOrderNowFilled instruction.buyOrderAId buyOrderA executedQuantity
  releaseReservationIfOrderNowFilled instruction.buyOrderBId buyOrderB executedQuantity

/-- `applyMintExecution` once the fresh-state checks have passed. -/
def executeMint (instruction : MintInstruction) (buyOrderA buyOrderB : Order) (executedQuantity : ℚ) :
    Tx Core Fault (Option Nat) := do
  let (mintId, alreadyExisted) ← createOnce mintsField "idempotencyKey"
    (mintRow instruction executedQuantity)
    (fun mint => decide (mint.idempotencyKey = instruction.idempotencyKey))
    (.staleSnapshotConflict "idempotencyKey")
  if alreadyExisted then pure (some mintId)
  else do
    settleMint mintId instruction buyOrderA buyOrderB executedQuantity
    pure (some mintId)

def applyMintExecution (now : Time) (instruction : MintInstruction) : Tx Core Fault (Option Nat) := do
  let buyOrderA ← getOrThrow ordersField instruction.buyOrderAId
  let buyOrderB ← getOrThrow ordersField instruction.buyOrderBId
  let market ← getOrThrow marketsField instruction.marketId
  let executedQuantity := minRemaining instruction.quantity buyOrderA buyOrderB
  if market.isExecutable now = false then pure none
  else if buyOrderA.isExecutable = false ∨ buyOrderB.isExecutable = false then pure none
  else if executedQuantity ≤ 0 then pure none
  else executeMint instruction buyOrderA buyOrderB executedQuantity

end ExecutionCoordinator

end VerdictVaut
