import VerdictVaut.Trading.Core
import Mathlib.Data.List.Sort

set_option autoImplicit false

namespace VerdictVaut

open Relational

structure MatchCandidate where
  orderId : Nat
  userId : Nat
  side : OrderSide
  price : ℚ
  remainingQuantity : ℚ
  sequence : Nat
  deriving DecidableEq

structure ExecutionInstruction where
  idempotencyKey : IdempotencyKey
  marketId : Nat
  outcomeId : Nat
  buyOrderId : Nat
  sellOrderId : Nat
  makerOrderId : Nat
  takerOrderId : Nat
  buyerUserId : Nat
  sellerUserId : Nat
  price : ℚ
  quantity : ℚ
  deriving DecidableEq

structure MintInstruction where
  idempotencyKey : IdempotencyKey
  marketId : Nat
  outcomeAId : Nat
  outcomeBId : Nat
  buyOrderBId : Nat
  buyOrderAId : Nat
  buyerAUserId : Nat
  buyerBUserId : Nat
  priceA : ℚ
  priceB : ℚ
  quantity : ℚ
  deriving DecidableEq

def comparedTo (a b : ℚ) : Int := if a < b then -1 else if b < a then 1 else 0

def compareSequence (a b : MatchCandidate) : Int :=
  if a.sequence < b.sequence then -1 else if b.sequence < a.sequence then 1 else 0

namespace PriceTimePriority

def comparePriority (incoming a b : MatchCandidate) : Int :=
  let priceCmp := if incoming.side = .buy then comparedTo a.price b.price else comparedTo b.price a.price
  if priceCmp ≠ 0 then priceCmp else compareSequence a b

def crosses (incoming resting : MatchCandidate) : Prop :=
  if incoming.side = .buy then resting.price ≤ incoming.price else incoming.price ≤ resting.price

instance (incoming resting : MatchCandidate) : Decidable (crosses incoming resting) :=
  inferInstanceAs (Decidable (if incoming.side = .buy then resting.price ≤ incoming.price
    else incoming.price ≤ resting.price))

def fillKey (makerOrderId takerOrderId : Nat) : IdempotencyKey := ⟨"fill", [makerOrderId, takerOrderId]⟩

def instruction (marketId outcomeId : Nat) (incoming resting : MatchCandidate)
    (executionQuantity : ℚ) : ExecutionInstruction :=
  let isIncomingBuy := decide (incoming.side = .buy)
  { idempotencyKey := fillKey resting.orderId incoming.orderId
    marketId := marketId
    outcomeId := outcomeId
    buyOrderId := if isIncomingBuy then incoming.orderId else resting.orderId
    sellOrderId := if isIncomingBuy then resting.orderId else incoming.orderId
    makerOrderId := resting.orderId
    takerOrderId := incoming.orderId
    buyerUserId := if isIncomingBuy then incoming.userId else resting.userId
    sellerUserId := if isIncomingBuy then resting.userId else incoming.userId
    price := resting.price
    quantity := executionQuantity }

def matchEligible (marketId outcomeId : Nat) (incoming : MatchCandidate) :
    ℚ → List MatchCandidate → List ExecutionInstruction
  -- the loop over the sorted candidates, from the quantity still to execute
  | _, [] => []
  | remaining, resting :: rest =>
    if remaining ≤ 0 then []
    else if resting.remainingQuantity ≤ 0 then matchEligible marketId outcomeId incoming remaining rest
    else if crosses incoming resting then
      let executionQuantity := min remaining resting.remainingQuantity
      instruction marketId outcomeId incoming resting executionQuantity ::
        matchEligible marketId outcomeId incoming (remaining - executionQuantity) rest
    else []

def eligible (incoming : MatchCandidate) (restingOpposite : List MatchCandidate) : List MatchCandidate :=
  ((restingOpposite.filter fun resting => decide (resting.side ≠ incoming.side)).filter
    fun resting => decide (resting.userId ≠ incoming.userId)).insertionSort
      fun a b => comparePriority incoming a b ≤ 0

def matchCandidates (marketId outcomeId : Nat) (incoming : MatchCandidate)
    (restingOpposite : List MatchCandidate) : List ExecutionInstruction :=
  matchEligible marketId outcomeId incoming incoming.remainingQuantity (eligible incoming restingOpposite)

end PriceTimePriority

namespace CompleteSetMintEngine

def comparePriority (a b : MatchCandidate) : Int :=
  let priceCmp := comparedTo b.price a.price
  if priceCmp ≠ 0 then priceCmp else compareSequence a b

def mintKey (restingOrderId incomingOrderId : Nat) : IdempotencyKey :=
  ⟨"mint", [restingOrderId, incomingOrderId]⟩

def instruction (marketId outcomeAId outcomeBId : Nat) (incoming resting : MatchCandidate)
    (executionQuantity : ℚ) : MintInstruction :=
  let priceB := resting.price
  { idempotencyKey := mintKey resting.orderId incoming.orderId
    marketId := marketId
    outcomeAId := outcomeAId
    outcomeBId := outcomeBId
    buyOrderAId := incoming.orderId
    buyOrderBId := resting.orderId
    buyerAUserId := incoming.userId
    buyerBUserId := resting.userId
    priceA := 1 - priceB
    priceB := priceB
    quantity := executionQuantity }

def matchEligible (marketId outcomeAId outcomeBId : Nat) (incoming : MatchCandidate) :
    ℚ → List MatchCandidate → List MintInstruction
  | _, [] => []
  | remaining, resting :: rest =>
    if remaining ≤ 0 then []
    else if resting.remainingQuantity ≤ 0 then
      matchEligible marketId outcomeAId outcomeBId incoming remaining rest
    else if incoming.price + resting.price < 1 then []
    else
      let executionQuantity := min remaining resting.remainingQuantity
      instruction marketId outcomeAId outcomeBId incoming resting executionQuantity ::
        matchEligible marketId outcomeAId outcomeBId incoming (remaining - executionQuantity) rest

def eligible (incoming : MatchCandidate) (restingComplementary : List MatchCandidate) :
    List MatchCandidate :=
  ((restingComplementary.filter fun resting => decide (resting.side = .buy)).filter
    fun resting => decide (resting.userId ≠ incoming.userId)).insertionSort
      fun a b => comparePriority a b ≤ 0

def matchCandidates (marketId outcomeAId outcomeBId : Nat) (incoming : MatchCandidate)
    (restingComplementary : List MatchCandidate) : List MintInstruction :=
  matchEligible marketId outcomeAId outcomeBId incoming incoming.remainingQuantity
    (eligible incoming restingComplementary)

end CompleteSetMintEngine

namespace OrderBook

inductive CrossingBound
  | lte (price : ℚ)
  | gte (price : ℚ)
  deriving DecidableEq

def CrossingBound.admits : CrossingBound → ℚ → Bool
  | .lte bound, price => decide (price ≤ bound)
  | .gte bound, price => decide (bound ≤ price)

def candidate (orderId : Nat) (order : Order) : Option MatchCandidate :=
  order.price.map fun price =>
    { orderId := orderId
      userId := order.userId
      side := order.side
      price := price
      remainingQuantity := order.remainingQuantity
      sequence := order.sequence }

/-- The query's `orderBy`. -/
def precedes (side : OrderSide) (a b : MatchCandidate) : Bool :=
  let priceCmp := if side = .sell then comparedTo a.price b.price else comparedTo b.price a.price
  if priceCmp ≠ 0 then decide (priceCmp < 0) else decide (a.sequence ≤ b.sequence)

def getRestingCandidates (orders : Table Order) (marketId outcomeId : Nat) (side : OrderSide)
    (crossingBound : CrossingBound) : List MatchCandidate :=
  let resting := orders.findMany fun order =>
    decide (order.marketId = marketId) && decide (order.outcomeId = outcomeId) &&
    decide (order.side = side) && order.isExecutable && order.price.any crossingBound.admits
  (resting.filterMap fun (orderId, order) => candidate orderId order).insertionSort
    fun a b => precedes side a b = true

end OrderBook

end VerdictVaut
