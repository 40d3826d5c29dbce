import VerdictVaut.Wallet.Adapters
import VerdictVaut.Shared.Fallible

set_option autoImplicit false

namespace VerdictVaut

open Fallible

/-- `eth_*` replies with their hex numbers read; a log's data need not be a number at all. -/
structure EvmTransaction where
  hash : String
  recipient : Option String
  value : Int
  deriving DecidableEq

structure EvmBlock where
  number : Int
  transactions : List EvmTransaction
  deriving DecidableEq

structure EvmLog where
  address : String
  topics : List String
  data : Option Int
  blockNumber : Int
  transactionHash : String
  logIndex : Nat
  removed : Bool
  deriving DecidableEq

structure EvmTransactionReceipt where
  status : String
  deriving DecidableEq

structure GetLogsFilter where
  address : Option String
  fromBlock : Int
  toBlock : Int
  transferTopic : String
  recipients : List String
  deriving DecidableEq

structure EvmRpc where
  blockNumber : Except ChainFault Int
  getBlockByNumber : Int → Except ChainFault (Option EvmBlock)
  getTransactionReceipt : String → Except ChainFault (Option EvmTransactionReceipt)
  getLogs : GetLogsFilter → Except ChainFault (List EvmLog)

def ERC20_TRANSFER_TOPIC : String := "0xddf252ad1be2c89b69c2b068fc378daa952ba7f163c4a11628f55a4df523b3ef"

def toLowerCase (s : String) : String :=
  String.ofList (s.toList.map Char.toLower)

def withoutHexMark : List Char → List Char
  | '0' :: 'x' :: digits => digits
  | chars => chars

def addressToTopic (address : String) : String :=
  String.ofList ('0' :: 'x' :: (withoutHexMark (toLowerCase address).toList).leftpad 64 '0')

def topicToAddress (topic : String) : String :=
  toLowerCase (String.ofList ('0' :: 'x' :: topic.toList.drop (topic.toList.length - 40)))

/-- `byLowercaseAddress(watched).get(address)`: a later entry of the same address replaces an earlier one. -/
def byLowercaseAddress (watched : List WatchedAddress) (address : String) : Option WatchedAddress :=
  watched.reverse.find? fun w => decide (toLowerCase w.address = address)

def nativeMatch (watched : List WatchedAddress) (tx : EvmTransaction) : Option WatchedAddress :=
  match tx.recipient with
  | none => none
  | some address => if address = "" then none else byLowercaseAddress watched (toLowerCase address)

def mapNativeBlockToDeposits (block : EvmBlock) (watched : List WatchedAddress) (currentBlock : Int) (decimals : Nat) :
    List RawChainDeposit :=
  block.transactions.filterMap fun tx =>
    match nativeMatch watched tx with
    | none => none
    | some found =>
      if tx.value = 0 then none
      else some
        { walletAddressId := found.walletAddressId
          txHash := tx.hash
          eventIndex := 0
          amount := rawUnitsToDecimalString tx.value decimals
          confirmations := max (currentBlock - block.number + 1) 0
          destinationTag := none }

def mapTransferLogToDeposit (log : EvmLog) (watched : List WatchedAddress) (currentBlock : Int) (decimals : Nat)
    (expectedContractAddress : String) : Except ChainFault (Option RawChainDeposit) :=
  if log.removed then .ok none
  else if toLowerCase log.address ≠ toLowerCase expectedContractAddress then .ok none
  else match log.topics[2]? with
    | none => .ok none
    | some recipient =>
      match byLowercaseAddress watched (topicToAddress recipient), log.data with
      | none, _ => .ok none
      | some _, none => .error .syntaxError
      | some found, some units => .ok (some
          { walletAddressId := found.walletAddressId
            txHash := log.transactionHash
            eventIndex := log.logIndex
            amount := rawUnitsToDecimalString units decimals
            confirmations := max (currentBlock - log.blockNumber + 1) 0
            destinationTag := none })

namespace EvmDepositAdapter

def INITIAL_BACKFILL_BLOCKS : Int := 2000

def LOG_SCAN_MAX_BLOCK_RANGE : Int := 500

def NATIVE_SCAN_MAX_BLOCK_RANGE : Int := 50

def REORG_SAFETY_MARGIN_BLOCKS : Int := 12

def requiredDepth (requiredConfirmations : Int) : Int :=
  max REORG_SAFETY_MARGIN_BLOCKS (requiredConfirmations - 1)

def fromBlock (cursor : Option Int) (currentBlock : Int) : Int :=
  -- without a cursor a scan starts at most this far back; block numbers are never negative
  max (cursor.getD (currentBlock - INITIAL_BACKFILL_BLOCKS) + 1) 0

def toBlock (isNative : Bool) (cursor : Option Int) (currentBlock requiredConfirmations : Int) : Int :=
  min (currentBlock - requiredDepth requiredConfirmations)
    (fromBlock cursor currentBlock +
      (if isNative then NATIVE_SCAN_MAX_BLOCK_RANGE else LOG_SCAN_MAX_BLOCK_RANGE) - 1)

def blockRange (first last : Int) : List Int :=
  (List.range (last + 1 - first).toNat).map fun (i : Nat) => first + i

def scanNative (rpc : EvmRpc) (first last currentBlock : Int) (addresses : List WatchedAddress) (decimals : Nat) :
    Except ChainFault (List RawChainDeposit) := do
  let candidates ← (blockRange first last).mapM fun number => do
    match ← rpc.getBlockByNumber number with
    | none => pure []
    | some block => pure (mapNativeBlockToDeposits block addresses currentBlock decimals)
  let confirmed ← candidates.flatten.mapM fun candidate => do
    match ← rpc.getTransactionReceipt candidate.txHash with
    | none => pure []
    | some receipt => pure (if receipt.status = "0x1" then [candidate] else [])
  pure confirmed.flatten

def logsFilter (first last : Int) (addresses : List WatchedAddress) (contractAddress : Option String) : GetLogsFilter where
  address := contractAddress
  fromBlock := first
  toBlock := last
  transferTopic := ERC20_TRANSFER_TOPIC
  recipients := addresses.map fun a => addressToTopic a.address

def scanToken (rpc : EvmRpc) (first last currentBlock : Int) (addresses : List WatchedAddress)
    (contractAddress : Option String) (decimals : Nat) : Except ChainFault (List RawChainDeposit) := do
  let logs ← rpc.getLogs (logsFilter first last addresses contractAddress)
  let mapped ← logs.mapM fun log =>
    match contractAddress with
    -- a token network without a contract: `toLowerCase` of `null`, unless the log is skipped first
    | none => if log.removed then .ok none else .error .typeError
    | some contract => mapTransferLogToDeposit log addresses currentBlock decimals contract
  pure (mapped.filterMap fun found => found)

def scanBlocks (rpc : EvmRpc) (network : AssetNetworkContext) (first last currentBlock : Int)
    (addresses : List WatchedAddress) : Except ChainFault (List RawChainDeposit) :=
  -- an asset network is either native or a token, so a scan takes one of the two paths
  if network.isNative then scanNative rpc first last currentBlock addresses network.assetDecimals
  else scanToken rpc first last currentBlock addresses network.contractAddress network.assetDecimals

def scanForDeposits (rpc : EvmRpc) (network : AssetNetworkContext) (addresses : List WatchedAddress) (cursor : Option Int)
    (requiredConfirmations : Int) : Except ChainFault (List RawChainDeposit × Int) := do
  let currentBlock ← rpc.blockNumber
  let first := fromBlock cursor currentBlock
  let last := toBlock network.isNative cursor currentBlock requiredConfirmations
  if last < first then pure ([], cursor.getD (first - 1))
  else
    let deposits ← scanBlocks rpc network first last currentBlock addresses
    pure (deposits, last)

end EvmDepositAdapter

end VerdictVaut
