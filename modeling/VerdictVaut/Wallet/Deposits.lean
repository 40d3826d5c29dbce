import VerdictVaut.Wallet.Types

set_option autoImplicit false

namespace VerdictVaut.DepositsService

open Relational Relational.Tx Db

structure ObservedTransactionInput where
  userId : Nat
  assetSymbol : String
  assetNetworkId : Nat
  walletAddressId : Nat
  txHash : String
  eventIndex : Option Nat
  amount : ℚ
  confirmations : Int
  requiredConfirmations : Int
  destinationTag : Option String
  deriving DecidableEq

def ObservedTransactionInput.isConfirmed (input : ObservedTransactionInput) : Bool :=
  decide (input.requiredConfirmations ≤ input.confirmations)

def isEvent (input : ObservedTransactionInput) (deposit : Deposit) : Bool :=
  decide (deposit.assetNetworkId = input.assetNetworkId) && decide (deposit.txHash = input.txHash) &&
    decide (deposit.eventIndex = input.eventIndex.getD 0)

def tagValid (input : ObservedTransactionInput) (assetNetwork : AssetNetwork) (walletAddress : WalletAddress) : Bool :=
  !assetNetwork.memoRequired ||
    (input.destinationTag.isSome && decide (input.destinationTag = walletAddress.destinationTag))

def tagMismatch (input : ObservedTransactionInput) (walletAddress : WalletAddress) : String :=
  "Destination tag mismatch: observed " ++ input.destinationTag.getD "(none)" ++ ", expected " ++
    walletAddress.destinationTag.getD "(none)"

def depositRow (now : Time) (input : ObservedTransactionInput) (assetNetwork : AssetNetwork)
    (walletAddress : WalletAddress) : Deposit where
  userId := input.userId
  assetId := assetNetwork.assetId
  assetNetworkId := input.assetNetworkId
  walletAddressId := input.walletAddressId
  txHash := input.txHash
  eventIndex := input.eventIndex.getD 0
  amount := input.amount
  confirmations := input.confirmations
  requiredConfirmations := input.requiredConfirmations
  status :=
    if tagValid input assetNetwork walletAddress = false then .failed
    else if input.isConfirmed then .confirmed
    else .pending
  destinationTag := input.destinationTag
  failureReason :=
    if tagValid input assetNetwork walletAddress then none else some (tagMismatch input walletAddress)
  ledgerTransactionId := none
  lastCheckedAt := some now
  confirmedAt := if tagValid input assetNetwork walletAddress && input.isConfirmed then some now else none
  creditedAt := none

/-- `deposit.upsert`: an existing row keeps its status. -/
def upsertDeposit (now : Time) (input : ObservedTransactionInput) (assetNetwork : AssetNetwork)
    (walletAddress : WalletAddress) : Tx Db Fault (Nat × Deposit) := do
  match ← find? depositsField (isEvent input) with
  | some (depositId, existing) => do
    let row := { existing with
      confirmations := input.confirmations
      destinationTag := input.destinationTag.or existing.destinationTag
      lastCheckedAt := some now }
    update depositsField depositId row
    pure (depositId, row)
  | none => do
    let row := depositRow now input assetNetwork walletAddress
    let depositId ← create depositsField row
    pure (depositId, row)

def creditInput (depositId userId : Nat) (amount : ℚ) (assetSymbol : String) : Ledger.PostTransactionInput where
  assetSymbol := assetSymbol
  type := .deposit
  referenceType := .deposit
  referenceId := depositId
  idempotencyKey := ⟨"deposit", [depositId]⟩
  postings :=
    [{ account := .user userId, amount := amount },
      { account := .house .externalChain, amount := -amount }]

def creditDeposit (now : Time) (depositId userId : Nat) (amount : ℚ) (assetSymbol : String) :
    Tx Db Fault Bool := do
  let result ← zoom ledgerField (Ledger.postTransaction (creditInput depositId userId amount assetSymbol))
  let statusUpdate ← updateMany depositsField depositId (fun deposit => decide (deposit.status ≠ .credited))
    fun deposit => { deposit with
      status := .credited
      creditedAt := some now
      ledgerTransactionId := some result.transactionId }
  if result.alreadyPosted then pure false else pure statusUpdate

def advanceDeposit (now : Time) (input : ObservedTransactionInput) (assetNetwork : AssetNetwork)
    (walletAddress : WalletAddress) (depositId : Nat) (upserted : Deposit) : Tx Db Fault Unit := do
  -- the two guarded updates: the only places where a row that was already there changes its status
  if tagValid input assetNetwork walletAddress = false then do
    let _ ← updateMany depositsField depositId
      (fun deposit => decide (deposit.status = .pending) || decide (deposit.status = .confirmed))
      fun deposit => { deposit with
        status := .failed
        failureReason := some (tagMismatch input walletAddress) }
    pure ()
  else if input.isConfirmed && decide (upserted.status = .pending) then do
    let _ ← updateMany depositsField depositId (fun deposit => decide (deposit.status = .pending))
      fun deposit => { deposit with status := .confirmed, confirmedAt := some now }
    pure ()
  else pure ()

def creditWhenFinal (now : Time) (input : ObservedTransactionInput) (assetNetwork : AssetNetwork)
    (walletAddress : WalletAddress) (depositId : Nat) (upserted : Deposit) : Tx Db Fault Bool :=
  if input.isConfirmed && tagValid input assetNetwork walletAddress then
    creditDeposit now depositId upserted.userId upserted.amount input.assetSymbol
  else pure false

structure Recorded where
  depositId : Nat
  deposit : Deposit
  justCredited : Bool
  justFailed : Bool

def recordObservedTransaction (now : Time) (input : ObservedTransactionInput) : Tx Db Fault Recorded := do
  let assetNetwork ← getOrThrow assetNetworksField input.assetNetworkId
  let walletAddress ← getOrThrow walletAddressesField input.walletAddressId
  let previous ← find? depositsField (isEvent input)
  let (depositId, upserted) ← upsertDeposit now input assetNetwork walletAddress
  advanceDeposit now input assetNetwork walletAddress depositId upserted
  let justCredited ← creditWhenFinal now input assetNetwork walletAddress depositId upserted
  let deposit ← getOrThrow depositsField depositId
  pure
    { depositId := depositId
      deposit := deposit
      justCredited := justCredited
      justFailed := !tagValid input assetNetwork walletAddress &&
        decide (previous.map (fun found => found.2.status) ≠ some .failed) }

def rejectIfNotCredited (now : Time) (depositId : Nat) (reason : String) : Tx Db Fault (Deposit × Bool) := do
  let justRejected ← updateMany depositsField depositId
    (fun deposit => decide (deposit.status = .pending) || decide (deposit.status = .confirmed))
    fun deposit => { deposit with status := .rejected, failureReason := some reason, lastCheckedAt := some now }
  let deposit ← getOrThrow depositsField depositId
  pure (deposit, justRejected)

end VerdictVaut.DepositsService
