import VerdictVaut.Trading.Execution

set_option autoImplicit false

namespace VerdictVaut.ExecutionCoordinator

open Relational Relational.Tx VerdictVaut.Core

/-- What `matchAndExecuteExclusive` has read of the incoming order when it queries the book. -/
structure Incoming where
  marketId : Nat
  outcomeId : Nat
  candidate : MatchCandidate

def readIncoming (now : Time) (orderId : Nat) : Tx Core Fault (Option Incoming) := do
  let incomingOrder ← getOrThrow ordersField orderId
  if incomingOrder.isExecutable = false then pure none
  else
    match OrderBook.candidate orderId incomingOrder with
    | none => pure none
    | some candidate => do
      let market ← getOrThrow marketsField incomingOrder.marketId
      if market.isExecutable now = false then pure none
      else
        pure (some
          { marketId := incomingOrder.marketId, outcomeId := incomingOrder.outcomeId, candidate := candidate })

def crossingBound (incoming : MatchCandidate) : OrderBook.CrossingBound :=
  if incoming.side = .buy then .lte incoming.price else .gte incoming.price

def restingCandidates (incoming : Incoming) (orders : Table Order) : List MatchCandidate :=
  OrderBook.getRestingCandidates orders incoming.marketId incoming.outcomeId incoming.candidate.side.opposite
    (crossingBound incoming.candidate)

def readInstructions (incoming : Incoming) : Tx Core Fault (List ExecutionInstruction) :=
  read fun c => PriceTimePriority.matchCandidates incoming.marketId incoming.outcomeId incoming.candidate
    (restingCandidates incoming c.exchange.orders)

/-- What `attemptComplementaryMint` has read when it queries the complementary book. -/
structure MintIncoming where
  marketId : Nat
  outcomeAId : Nat
  outcomeBId : Nat
  candidate : MatchCandidate

def readMintIncoming (orderId marketId : Nat) : Tx Core Fault (Option MintIncoming) := do
  let outcomes ← read fun c =>
    (c.exchange.outcomes.findMany fun outcome => decide (outcome.marketId = marketId)).map Prod.fst
  if outcomes.length ≠ 2 then pure none
  else do
    let current ← getOrThrow ordersField orderId
    match OrderBook.candidate orderId current with
    | none => pure none
    | some candidate =>
      if current.isExecutable = false ∨ current.remainingQuantity ≤ 0 then pure none
      else
        match outcomes.find? fun outcomeId => decide (outcomeId ≠ current.outcomeId) with
        | none => pure none
        | some complementaryOutcomeId =>
          pure (some
            { marketId := marketId, outcomeAId := current.outcomeId, outcomeBId := complementaryOutcomeId,
              candidate := candidate })

def readMintInstructions (incoming : MintIncoming) : Tx Core Fault (List MintInstruction) :=
  read fun c => CompleteSetMintEngine.matchCandidates incoming.marketId incoming.outcomeAId incoming.outcomeBId
    incoming.candidate
    (OrderBook.getRestingCandidates c.exchange.orders incoming.marketId incoming.outcomeBId .buy
      (.gte (1 - incoming.candidate.price)))

def applyExecutions (fees : FeeCalculator) (clock : Nat → Time) :
    Nat → List ExecutionInstruction → Tx Core Fault Unit
  -- the two loops over instructions: each is its own transaction, at its own time
  | _, [] => pure ()
  | k, instruction :: rest => do
    let _ ← runTransaction ledgerField (applyExecution fees (clock k) instruction)
    applyExecutions fees clock (k + 1) rest

def applyMintExecutions (clock : Nat → Time) : Nat → List MintInstruction → Tx Core Fault Unit
  | _, [] => pure ()
  | k, instruction :: rest => do
    let _ ← runTransaction ledgerField (applyMintExecution (clock k) instruction)
    applyMintExecutions clock (k + 1) rest

def attemptComplementaryMint (clock : Nat → Time) (k orderId marketId : Nat) : Tx Core Fault Unit := do
  match ← readMintIncoming orderId marketId with
  | none => pure ()
  | some incoming => do
    let instructions ← readMintInstructions incoming
    applyMintExecutions clock k instructions

/-- `matchAndExecute` with nothing else running: `clock k` is the time its `k`-th transaction reads. -/
def matchAndExecute (fees : FeeCalculator) (clock : Nat → Time) (orderId : Nat) : Tx Core Fault Unit := do
  match ← readIncoming (clock 0) orderId with
  | none => pure ()
  | some incoming => do
    let instructions ← readInstructions incoming
    applyExecutions fees clock 1 instructions
    if incoming.candidate.side = .buy then
      attemptComplementaryMint clock (instructions.length + 1) orderId incoming.marketId
    else pure ()

end VerdictVaut.ExecutionCoordinator
