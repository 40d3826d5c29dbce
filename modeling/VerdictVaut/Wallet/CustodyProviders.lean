import VerdictVaut.Wallet.Evm
import VerdictVaut.Wallet.Rounded

set_option autoImplicit false

-- `custody/providers`: the status of a broadcast transaction as each chain reports it, and what `recordConfirmation` makes of it
namespace VerdictVaut

/-- The value of the text that `rawUnitsToDecimalString` gives. -/
def unitsToDecimal (rawUnits : Int) (decimals : Nat) : ℚ := (rawUnits : ℚ) / 10 ^ decimals

namespace EvmCustodyProvider

structure Transaction where
  recipient : Option String
  value : Int
  blockNumber : Option Int
  deriving DecidableEq

structure Receipt extends EvmTransactionReceipt where
  logs : List EvmLog
  deriving DecidableEq

/-- The replies to `eth_getTransactionByHash`, `eth_blockNumber` and `eth_getTransactionReceipt`. -/
structure Replies where
  transaction : Option Transaction
  currentBlock : Int
  receipt : Option Receipt
  deriving DecidableEq

def isTransfer (network : AssetNetworkContext) (log : EvmLog) : Bool :=
  decide (network.contractAddress.map toLowerCase = some (toLowerCase log.address)) &&
    decide (log.topics.head? = some ERC20_TRANSFER_TOPIC)

def transferLog (network : AssetNetworkContext) (receipt : Option Receipt) : Option EvmLog :=
  receipt.bind fun receipt => receipt.logs.find? (isTransfer network)

def report (status : ChainStatus) (confirmations : Int) (amount : ℚ) (destinationAddress : Option String) :
    ChainTransactionStatus where
  status := status
  confirmations := confirmations
  amount := amount
  destinationAddress := destinationAddress
  outputs := none
  destinationTag := none

def getTransactionStatus (network : AssetNetworkContext) (replies : Replies) : Except ChainFault ChainTransactionStatus :=
  match replies.transaction with
  | none => .ok (report .notFound 0 0 none)
  | some tx =>
    match tx.blockNumber with
    | none => .ok (report .pending 0 (unitsToDecimal tx.value network.assetDecimals) none)
    | some blockNumber =>
      let confirmations := max (replies.currentBlock - blockNumber + 1) 0
      if replies.receipt.any fun receipt => decide (receipt.status ≠ "0x1") then .ok (report .failed confirmations 0 none)
      else if network.isNative then
        .ok (report .confirmed confirmations (unitsToDecimal tx.value network.assetDecimals) tx.recipient)
      else
        match transferLog network replies.receipt with
        | none => .ok (report .confirmed confirmations 0 none)
        | some log =>
          -- `BigInt(log.data)` and `topicToAddress(log.topics[2])`
          match log.data, log.topics[2]? with
          | none, _ => .error .syntaxError
          | some _, none => .error .typeError
          | some units, some topic =>
            .ok (report .confirmed confirmations (unitsToDecimal units network.assetDecimals) (some (topicToAddress topic)))

end EvmCustodyProvider

namespace XrpCustodyProvider

/-- The reply to `tx`; an amount that is no string of drops is an issued currency. -/
structure Transaction where
  destination : String
  amount : Option Int
  deliveredAmount : Option (Option Int)
  destinationTag : Option Nat
  transactionResult : String
  validated : Bool
  ledgerIndex : Int

inductive Lookup
  | error (code : String)
  | ok (tx : Transaction)

/-- The sequence of `server_info`, if it gives one. -/
structure Replies where
  tx : Lookup
  validatedLedger : Option Int

def getTransactionStatus (network : AssetNetworkContext) (replies : Replies) : Except ChainFault ChainTransactionStatus :=
  match replies.tx with
  | .error code =>
    if code = "txnNotFound" then
      .ok { status := .notFound, confirmations := 0, amount := 0, destinationAddress := none, outputs := none,
            destinationTag := none }
    else .error .requestFailed
  | .ok tx =>
    let destinationTag := tx.destinationTag.map fun tag => Nat.repr tag
    let amount := ((tx.deliveredAmount.getD tx.amount).map fun drops => unitsToDecimal drops network.assetDecimals).getD 0
    let reported (status : ChainStatus) (confirmations : Int) (amount : ℚ) : ChainTransactionStatus :=
      { status := status, confirmations := confirmations, amount := amount, destinationAddress := some tx.destination,
        outputs := none, destinationTag := some destinationTag }
    if !tx.validated then .ok (reported .pending 0 amount)
    else if tx.transactionResult ≠ "tesSUCCESS" then .ok (reported .failed 0 0)
    else
      let currentLedger := replies.validatedLedger.getD tx.ledgerIndex
      .ok (reported .confirmed (max (currentLedger - tx.ledgerIndex + 1) 0) amount)

end XrpCustodyProvider

namespace BitcoinCustodyProvider

structure Output where
  value : Int
  scriptpubkeyAddress : Option String

structure Transaction where
  vout : List Output
  confirmed : Bool
  blockHeight : Option Int

/-- The reply to `/tx/:hash`, which is `none` for a 404, and the height of the tip. -/
structure Replies where
  tx : Option Transaction
  tipHeight : Int

def outputs (network : AssetNetworkContext) (tx : Transaction) : List ChainTransactionOutput :=
  tx.vout.filterMap fun output => do
    let address ← output.scriptpubkeyAddress
    if address = "" then none
    else pure { address := address, amount := unitsToDecimal output.value network.assetDecimals }

def getTransactionStatus (network : AssetNetworkContext) (replies : Replies) : ChainTransactionStatus :=
  match replies.tx with
  | none =>
    { status := .notFound, confirmations := 0, amount := 0, destinationAddress := none, outputs := none, destinationTag := none }
  | some tx =>
    let totalOut := (tx.vout.map Output.value).sum
    let reported (status : ChainStatus) (confirmations : Int) : ChainTransactionStatus :=
      { status := status, confirmations := confirmations, amount := unitsToDecimal totalOut network.assetDecimals,
        destinationAddress := none, outputs := some (outputs network tx), destinationTag := none }
    if !tx.confirmed then reported .pending 0
    else reported .confirmed (max (replies.tipHeight - tx.blockHeight.getD replies.tipHeight + 1) 0)

end BitcoinCustodyProvider

namespace Rounded

open Relational Relational.Tx Db WithdrawalsService

def observedAmount (config : WalletConfig) (w : Withdrawal) (chain : ObservedChainTransaction) : Except ChainMismatch ℚ :=
  -- the amount that counts; the outputs to the recorded address are added up one by one
  match chain.outputs with
  | none => .ok chain.amount
  | some outputs =>
    let paid := outputs.filter fun output => destinationsMatch config output.address w.destinationAddress
    if paid = [] then .error .noOutput
    else .ok (sumAmounts (paid.map ChainTransactionOutput.amount))

def findChainMismatch (config : WalletConfig) (w : Withdrawal) (chain : ObservedChainTransaction) : Option ChainMismatch :=
  if (chain.destinationAddress.any fun address =>
      decide (address ≠ "") && !destinationsMatch config address w.destinationAddress) then some .destination
  else if (chain.destinationTag.any fun tag => decide (w.destinationTag ≠ tag)) then some .destinationTag
  else
    match observedAmount config w chain with
    | .error mismatch => some mismatch
    | .ok observed =>
      let expectedNet := Decimal.minus w.amount w.fee
      if withdrawalReconcileAmountTolerance < |Decimal.minus observed expectedNet| then some (.amount observed expectedNet)
      else none

def verifyConfirmation (config : WalletConfig) (withdrawalId : Nat) (observedChain : Option ObservedChainTransaction) :
    Tx Db Fault Bool := do
  match observedChain with
  | none => pure true
  | some chain => do
    let current ← getWithdrawal withdrawalId
    if statusIn [.broadcast, .confirming] current then pure (findChainMismatch config current chain).isNone
    else pure true

end Rounded

end VerdictVaut
