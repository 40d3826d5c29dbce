import VerdictVaut.Trading.Orders

set_option autoImplicit false

namespace VerdictVaut

open Relational Relational.Tx

inductive NetworkFamily
  | bitcoin | evm | solana | xrpl
  deriving DecidableEq, Repr

inductive DepositStatus
  | pending | confirmed | credited | rejected | failed
  deriving DecidableEq, Repr

inductive WithdrawalStatus
  | requested | validated | riskReview | approved | pendingManualBroadcast | broadcasting | broadcast
  | confirming | confirmed | credited | rejected | failed | cancelled | executionAmbiguous
  deriving DecidableEq, Repr

def WithdrawalStatus.text : WithdrawalStatus → String
  | .requested => "REQUESTED"
  | .validated => "VALIDATED"
  | .riskReview => "RISK_REVIEW"
  | .approved => "APPROVED"
  | .pendingManualBroadcast => "PENDING_MANUAL_BROADCAST"
  | .broadcasting => "BROADCASTING"
  | .broadcast => "BROADCAST"
  | .confirming => "CONFIRMING"
  | .confirmed => "CONFIRMED"
  | .credited => "CREDITED"
  | .rejected => "REJECTED"
  | .failed => "FAILED"
  | .cancelled => "CANCELLED"
  | .executionAmbiguous => "EXECUTION_AMBIGUOUS"

inductive WithdrawalComplianceDecision
  | pass | blocked | deferred
  deriving DecidableEq, Repr

structure Network where
  code : String
  family : NetworkFamily
  deriving DecidableEq

instance : RowSpec Network where
  check _ := true
  clash a b := uniqueOn ["code"] (a.code = b.code)
  clash_symm a b := by simp only [uniqueOn, eq_comm]

structure AssetNetwork where
  assetId : Nat
  networkId : Nat
  memoRequired : Bool
  withdrawalMinAmount : ℚ
  isActive : Bool
  deriving DecidableEq

instance : RowSpec AssetNetwork where
  check assetNetwork := decide (0 ≤ assetNetwork.withdrawalMinAmount)
  clash a b := uniqueOn ["assetId", "networkId"] (a.assetId = b.assetId ∧ a.networkId = b.networkId)
  clash_symm a b := by simp only [uniqueOn, eq_comm]

structure WalletAddress where
  assetNetworkId : Nat
  address : String
  destinationTag : Option String
  deriving DecidableEq

instance : RowSpec WalletAddress where
  check _ := true
  clash a b := uniqueOn ["assetNetworkId", "address"] (a.assetNetworkId = b.assetNetworkId ∧ a.address = b.address)
  clash_symm a b := by simp only [uniqueOn, eq_comm]

structure Deposit where
  userId : Nat
  assetId : Nat
  assetNetworkId : Nat
  walletAddressId : Nat
  txHash : String
  eventIndex : Nat
  amount : ℚ
  confirmations : Int
  requiredConfirmations : Int
  status : DepositStatus
  destinationTag : Option String
  failureReason : Option String
  ledgerTransactionId : Option Nat
  lastCheckedAt : Option Time
  confirmedAt : Option Time
  creditedAt : Option Time
  deriving DecidableEq

instance : RowSpec Deposit where
  check deposit :=
    decide (0 < deposit.amount) &&
    decide (0 ≤ deposit.confirmations ∧ 0 ≤ deposit.requiredConfirmations) &&
    decide ((deposit.status = .credited ∧ deposit.ledgerTransactionId ≠ none ∧ deposit.creditedAt ≠ none) ∨
      (deposit.status ≠ .credited ∧ deposit.ledgerTransactionId = none ∧ deposit.creditedAt = none))
  clash a b := uniqueOn ["assetNetworkId", "txHash", "eventIndex"]
    (a.assetNetworkId = b.assetNetworkId ∧ a.txHash = b.txHash ∧ a.eventIndex = b.eventIndex)
  clash_symm a b := by simp only [uniqueOn, eq_comm]

structure Withdrawal where
  userId : Nat
  assetNetworkId : Nat
  destinationAddress : String
  destinationTag : Option String
  amount : ℚ
  fee : ℚ
  status : WithdrawalStatus
  clientWithdrawalId : String
  txHash : Option String
  custodyReference : Option String
  broadcastByAdminId : Option Nat
  broadcastAt : Option Time
  confirmedAt : Option Time
  failureReason : Option String
  complianceDecision : WithdrawalComplianceDecision
  complianceNote : Option String
  createdAt : Time
  deriving DecidableEq

def Withdrawal.isOnChain (w : Withdrawal) : Bool :=
  decide (w.status ∈ [WithdrawalStatus.broadcast, .confirming, .confirmed, .credited])

instance : RowSpec Withdrawal where
  check w :=
    decide (0 < w.amount) && decide (0 ≤ w.fee) && decide (w.fee < w.amount) &&
    (!w.isOnChain || w.txHash.isSome)
  clash a b := (uniqueOn ["userId", "clientWithdrawalId"]
      (a.userId = b.userId ∧ a.clientWithdrawalId = b.clientWithdrawalId)).or
    (uniqueOn ["txHash"] (a.txHash = b.txHash ∧ a.txHash ≠ none))
  clash_symm a b := by
    have same : (a.txHash = b.txHash ∧ a.txHash ≠ none) ↔ (b.txHash = a.txHash ∧ b.txHash ≠ none) := by
      constructor <;> rintro ⟨same, some⟩ <;> exact ⟨same.symm, same ▸ some⟩
    simp only [uniqueOn, same, @eq_comm _ a.userId, @eq_comm _ a.clientWithdrawalId]

structure Wallet where
  networks : Table Network
  assetNetworks : Table AssetNetwork
  walletAddresses : Table WalletAddress
  deposits : Table Deposit
  withdrawals : Table Withdrawal

structure Db where
  core : Core
  wallet : Wallet

namespace Db

def ledgerField : Field Db Ledger where
  get db := db.core.ledger
  set l db := { db with core := { db.core with ledger := l } }

def fundsField : Field Db (Reserved LedgerAccount) where
  get db := db.core.ledger.funds
  set t db := { db with core := { db.core with ledger := { db.core.ledger with funds := t } } }

def assetNetworksField : Field Db (Table AssetNetwork) where
  get db := db.wallet.assetNetworks
  set t db := { db with wallet := { db.wallet with assetNetworks := t } }

def walletAddressesField : Field Db (Table WalletAddress) where
  get db := db.wallet.walletAddresses
  set t db := { db with wallet := { db.wallet with walletAddresses := t } }

def depositsField : Field Db (Table Deposit) where
  get db := db.wallet.deposits
  set t db := { db with wallet := { db.wallet with deposits := t } }

def withdrawalsField : Field Db (Table Withdrawal) where
  get db := db.wallet.withdrawals
  set t db := { db with wallet := { db.wallet with withdrawals := t } }

@[simp] theorem ledgerField_get (db : Db) : ledgerField.get db = db.core.ledger := rfl

@[simp] theorem ledgerField_set (db : Db) (l : Ledger) :
    ledgerField.set l db = { db with core := { db.core with ledger := l } } := rfl

@[simp] theorem fundsField_get (db : Db) : fundsField.get db = db.core.ledger.funds := rfl

@[simp] theorem fundsField_set (db : Db) (t : Reserved LedgerAccount) : fundsField.set t db =
    { db with core := { db.core with ledger := { db.core.ledger with funds := t } } } := rfl

@[simp] theorem assetNetworksField_get (db : Db) : assetNetworksField.get db = db.wallet.assetNetworks := rfl

@[simp] theorem walletAddressesField_get (db : Db) : walletAddressesField.get db = db.wallet.walletAddresses := rfl

@[simp] theorem depositsField_get (db : Db) : depositsField.get db = db.wallet.deposits := rfl

@[simp] theorem depositsField_set (db : Db) (t : Table Deposit) :
    depositsField.set t db = { db with wallet := { db.wallet with deposits := t } } := rfl

@[simp] theorem withdrawalsField_get (db : Db) : withdrawalsField.get db = db.wallet.withdrawals := rfl

@[simp] theorem withdrawalsField_set (db : Db) (t : Table Withdrawal) :
    withdrawalsField.set t db = { db with wallet := { db.wallet with withdrawals := t } } := rfl

end Db

structure ChainTransactionOutput where
  address : String
  amount : ℚ
  deriving DecidableEq

inductive ChainStatus
  | notFound | pending | confirmed | failed
  deriving DecidableEq, Repr

/-- `destinationTag` is `none` where the chain has no tags, `some none` where the transaction carried none. -/
structure ObservedChainTransaction where
  amount : ℚ
  destinationAddress : Option String
  outputs : Option (List ChainTransactionOutput)
  destinationTag : Option (Option String)
  deriving DecidableEq

structure ChainTransactionStatus extends ObservedChainTransaction where
  status : ChainStatus
  confirmations : Int
  deriving DecidableEq

inductive WithdrawalExecutionResult
  | broadcast (txHash : String) (providerReference : Option String)
  | awaitingManualBroadcast (providerReference : Option String)
  | ambiguous (providerReference : Option String) (reason : String)
  deriving DecidableEq, Repr

/-- What the wallet services are given: the fee schedule, the address and tag validators, and the
platform's `toLowerCase`. -/
structure WalletConfig where
  calculateWithdrawalFee : String → String → ℚ → ℚ
  validDestinationAddress : NetworkFamily → String → Bool
  validDestinationTag : NetworkFamily → String → Bool
  toLowerCase : String → String

end VerdictVaut
