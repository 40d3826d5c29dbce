import VerdictVaut.Trading.Orders

set_option autoImplicit false

namespace VerdictVaut

open Relational Relational.Tx VerdictVaut.Core

def MarketStatus.text : MarketStatus → String
  | .draft => "DRAFT"
  | .opened => "OPEN"
  | .paused => "PAUSED"
  | .closed => "CLOSED"
  | .resolving => "RESOLVING"
  | .resolved => "RESOLVED"
  | .cancelled => "CANCELLED"

namespace MarketsService

structure CreateMarketDto where
  slug : String
  categorySlug : String
  closeTime : Option Time
  outcomes : List String

def createOutcomes (marketId : Nat) : List String → Tx Core Fault Unit
  | [] => pure ()
  | key :: rest => do
    let _ ← Tx.create outcomesField { marketId := marketId, key := key }
    createOutcomes marketId rest

/-- The DTO's `ArrayMinSize(2)` is the first check. -/
def create (dto : CreateMarketDto) : Tx Core Fault Nat := do
  throwIf (dto.outcomes.length < 2) (.badRequest "outcomes must contain at least 2 elements")
  let category ← read fun c => c.exchange.categories.find? fun category => decide (category.slug = dto.categorySlug)
  let (categoryId, _) ← orThrow category (.badRequest ("Unknown category '" ++ dto.categorySlug ++ "'"))
  throwIf (¬ dto.outcomes.Nodup) (.badRequest "Outcome keys must be unique within a market")
  let marketId ← Tx.create marketsField
    { slug := dto.slug, categoryId := categoryId, status := .draft, closeTime := dto.closeTime,
      maxExposure := none }
  createOutcomes marketId dto.outcomes
  pure marketId

def expectedStatus (marketId : Nat) (current : MarketStatus) (allowedFrom : List MarketStatus) : Fault :=
  .conflict ("Market " ++ toString marketId ++ " is in status " ++ current.text ++ ", expected one of: " ++
    ", ".intercalate (allowedFrom.map MarketStatus.text))

def transitionStatus (marketId : Nat) (allowedFrom : List MarketStatus) (nextStatus : MarketStatus) :
    Tx Core Fault Unit := do
  let current ← read fun c => c.exchange.markets.get? marketId
  let current ← orThrow current (.notFound "Market not found")
  throwIf (current.status ∉ allowedFrom) (expectedStatus marketId current.status allowedFrom)
  update marketsField marketId { current with status := nextStatus }

def openMarket (marketId : Nat) : Tx Core Fault Unit := transitionStatus marketId [.draft] .opened

def pause (marketId : Nat) : Tx Core Fault Unit := transitionStatus marketId [.opened] .paused

def resume (marketId : Nat) : Tx Core Fault Unit := transitionStatus marketId [.paused] .opened

def cancel (marketId : Nat) : Tx Core Fault Unit := transitionStatus marketId [.draft] .cancelled

def close (marketId : Nat) : Tx Core Fault Nat := do
  transitionStatus marketId [.opened, .paused] .closed
  OrdersService.expireRestingOrdersForMarket marketId

end MarketsService

namespace ResolutionService

def assertAuthorized (userId : Nat) : Tx Core Fault Unit := do
  let user ← read fun c => c.users.get? userId
  let user ← orThrow user (.forbidden "Unknown user")
  throwIf (user.role ≠ .superAdmin) (.forbidden "Only a SUPER_ADMIN may resolve or settle a market")

def createSettlements (marketId winningOutcomeId : Nat) : List Nat → Tx Core Fault Unit
  | [] => pure ()
  | outcomeId :: rest => do
    let _ ← Tx.create settlementsField
      { marketId := marketId, outcomeId := outcomeId,
        payoutPerShare := if outcomeId = winningOutcomeId then 1 else 0 }
    createSettlements marketId winningOutcomeId rest

/-- The transaction of `resolve`: the decision and the payout rate of every outcome. -/
def resolve (now : Time) (marketId resolverId winningOutcomeId : Nat) : Tx Core Fault Unit := do
  let current ← read fun c => c.exchange.markets.get? marketId
  let current ← orThrow current (.notFound "Market not found")
  let outcomes ← read fun c => c.exchange.outcomes.findMany fun outcome => decide (outcome.marketId = marketId)
  throwIf (winningOutcomeId ∉ outcomes.map Prod.fst) (.badRequest
    ("Outcome " ++ toString winningOutcomeId ++ " does not belong to market " ++ toString marketId))
  let stillResting ← read fun c => (c.exchange.orders.findMany fun order =>
    decide (order.marketId = marketId) && order.isExecutable).length
  throwIf (0 < stillResting) (.conflict
    ("Market " ++ toString marketId ++ " still has " ++ toString stillResting ++
      " resting order(s) — it must be fully closed before resolution"))
  throwIf (current.status ≠ .closed) (.conflict
    ("Market " ++ toString marketId ++ " is in status " ++ current.status.text ++
      ", expected CLOSED — it may already be resolving/resolved, or was never closed"))
  update marketsField marketId { current with status := .resolving }
  let _ ← Tx.create resolutionsField
    { marketId := marketId, winningOutcomeId := winningOutcomeId, resolverId := resolverId,
      resolvedAt := now, settledAt := none }
  createSettlements marketId winningOutcomeId (outcomes.map Prod.fst)

end ResolutionService

namespace SettlementService

def computeSettlementPayout (quantity payoutPerShare : ℚ) : ℚ := quantity * payoutPerShare

def payoutPostings (position : Position) (payoutAmount : ℚ) : List Ledger.Posting :=
  [{ account := .user position.userId, amount := payoutAmount },
    { account := .market position.marketId, amount := -payoutAmount }]

def payoutInput (positionId : Nat) (position : Position) (payoutAmount : ℚ) (assetSymbol : String) :
    Ledger.PostTransactionInput where
  assetSymbol := assetSymbol
  type := .settlement
  referenceType := .position
  referenceId := positionId
  idempotencyKey := ⟨"settlement-payout", [positionId]⟩
  postings := payoutPostings position payoutAmount

def postPayout (positionId : Nat) (position : Position) (payoutAmount : ℚ) :
    Tx Core Fault (Option Nat) := do
  if payoutAmount = 0 then pure none
  else do
    let result ← postInSettlementCurrency (payoutInput positionId position payoutAmount)
    pure (some result.transactionId)

def settlementRow (positionId : Nat) (position : Position) (payoutPerShare payoutAmount : ℚ)
    (ledgerTransactionId : Option Nat) : PositionSettlement where
  positionId := positionId
  marketId := position.marketId
  outcomeId := position.outcomeId
  userId := position.userId
  quantity := position.quantity
  payoutPerShare := payoutPerShare
  payoutAmount := payoutAmount
  ledgerTransactionId := ledgerTransactionId
  idempotencyKey := ⟨"settlement", [positionId]⟩

def settleOnePosition (now : Time) (positionId : Nat) : Tx Core Fault Bool := do
  let position ← getOrThrow positionsField positionId
  if position.settledAt.isSome then pure false
  else do
    throwIf (position.reservedQuantity ≠ 0) (.positionStillReserved positionId position.reservedQuantity)
    let (_, rate) ← findOrThrow settlementsField fun settlement =>
      decide (settlement.marketId = position.marketId) && decide (settlement.outcomeId = position.outcomeId)
    let payoutAmount := computeSettlementPayout position.quantity rate.payoutPerShare
    let ledgerTransactionId ← postPayout positionId position payoutAmount
    let (_, alreadyExisted) ← createOnce positionSettlementsField "idempotencyKey"
      (settlementRow positionId position rate.payoutPerShare payoutAmount ledgerTransactionId)
      (fun settlement => decide (settlement.idempotencyKey = ⟨"settlement", [positionId]⟩))
      (.staleSnapshotConflict "idempotencyKey")
    if alreadyExisted then pure false
    else do
      let current ← getOrThrow positionsField positionId
      throwIf (current.settledAt.isSome = true) (.positionChangedMidSettlement positionId)
      update positionsField positionId { current with settledAt := some now }
      pure true

/-- `market.updateMany({ where: { id, status: RESOLVING } })`. -/
def markResolved (marketId : Nat) : Tx Core Fault Unit := do
  match ← read fun c => c.exchange.markets.get? marketId with
  | some market =>
    if market.status = .resolving then update marketsField marketId { market with status := .resolved }
    else pure ()
  | none => pure ()

/-- `marketResolution.updateMany({ where: { marketId, settledAt: null } })`. -/
def markSettled (now : Time) (marketId : Nat) : Tx Core Fault Unit := do
  match ← find? resolutionsField fun resolution =>
      decide (resolution.marketId = marketId) && resolution.settledAt.isNone with
  | some (i, resolution) => update resolutionsField i { resolution with settledAt := some now }
  | none => pure ()

def finalizeResolved (now : Time) (marketId : Nat) : Tx Core Fault Bool := do
  markResolved marketId
  markSettled now marketId
  let refreshed ← getOrThrow marketsField marketId
  pure (decide (refreshed.status = .resolved))

/-- `settleMarket`'s first look at the market: whether there is anything left to do. -/
def awaitingSettlement (marketId : Nat) : Tx Core Fault Bool := do
  let market ← getOrThrow marketsField marketId
  if market.status = .resolved then pure false
  else do
    throwIf (market.status ≠ .resolving) (.badRequest
      ("Market " ++ toString marketId ++ " is not awaiting settlement (status=" ++ market.status.text ++
        ") — resolve it first"))
    pure true

def unsettled (positions : Table Position) (marketId : Nat) : List Nat :=
  (positions.findMany fun position => decide (position.marketId = marketId) && position.settledAt.isNone).map Prod.fst

structure SettleMarketResult where
  settledCount : Nat
  remaining : Nat
  resolved : Bool

def settleEach (clock : Nat → Time) : Nat → List Nat → Tx Core Fault Nat
  -- the loop over the positions: each is its own transaction, at its own time
  | _, [] => pure 0
  | k, positionId :: rest => do
    let didSettle ← runTransaction ledgerField (settleOnePosition (clock k) positionId)
    let others ← settleEach clock (k + 1) rest
    pure (if didSettle then others + 1 else others)

def finishPass (now : Time) (marketId remaining : Nat) : Tx Core Fault Bool :=
  -- the end of a pass: the market is finished only if no position is left
  if remaining = 0 then runTransaction ledgerField (finalizeResolved now marketId) else pure false

/-- One uninterrupted pass of `settleMarket`: `clock k` is the time its `k`-th transaction reads. -/
def settleMarket (clock : Nat → Time) (marketId : Nat) : Tx Core Fault SettleMarketResult := do
  let awaiting ← awaitingSettlement marketId
  if awaiting then do
    let positions ← read fun c => unsettled c.exchange.positions marketId
    let settledCount ← settleEach clock 0 positions
    let remaining ← read fun c => (unsettled c.exchange.positions marketId).length
    let resolved ← finishPass (clock positions.length) marketId remaining
    pure { settledCount := settledCount, remaining := remaining, resolved := resolved }
  else pure { settledCount := 0, remaining := 0, resolved := true }

end SettlementService

end VerdictVaut
