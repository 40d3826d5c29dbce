import VerdictVaut.Ledger.Decimal
import VerdictVaut.System.Platform
import VerdictVaut.Wallet.Crediting
import VerdictVaut.Wallet.Emitted
import VerdictVaut.Wallet.Scanned

set_option autoImplicit false

namespace VerdictVaut

open Relational Relational.Tx Fallible EvmDepositAdapter

/-- Complete replies: a node with this tip answers whatever it is asked below the safety margin, as the chain has it. -/
structure EvmRpc.Answers (rpc : EvmRpc) (chain : EvmChain) (currentBlock : Int) : Prop where
  tip : rpc.blockNumber = .ok currentBlock
  blocks : ∀ n, 0 ≤ n → n ≤ currentBlock - REORG_SAFETY_MARGIN_BLOCKS → rpc.getBlockByNumber n = .ok (some (chain.block n))
  receipts : ∀ n, 0 ≤ n → n ≤ currentBlock - REORG_SAFETY_MARGIN_BLOCKS → ∀ tx ∈ (chain.block n).transactions,
    ∃ receipt, rpc.getTransactionReceipt tx.hash = .ok (some receipt) ∧
      (receipt.status = "0x1" ↔ chain.succeeded tx.hash = true)
  logs : ∀ filter, 0 ≤ filter.fromBlock → filter.toBlock ≤ currentBlock - REORG_SAFETY_MARGIN_BLOCKS →
    ∃ found, rpc.getLogs filter = .ok found ∧ ∀ log, log ∈ found ↔
      ∃ n, (filter.fromBlock ≤ n ∧ n ≤ filter.toBlock) ∧ log ∈ chain.logs n ∧ filter.Matches log

structure EvmChain.Distinct (chain : EvmChain) : Prop where
  -- a hash names one transaction of the chain, a hash and an index one log
  transactions : ∀ n m, ∀ tx ∈ (chain.block n).transactions, ∀ tx' ∈ (chain.block m).transactions,
    tx.hash = tx'.hash → n = m ∧ tx = tx'
  logs : ∀ n m, ∀ log ∈ chain.logs n, ∀ log' ∈ chain.logs m,
    log.transactionHash = log'.transactionHash → log.logIndex = log'.logIndex → n = m ∧ log = log'

section Scans

variable (chain : EvmChain) (network : AssetNetworkContext) (addresses : List WatchedAddress)

def Asked (n : Int) (log : EvmLog) : Prop :=
  -- the logs of a block that a scan asks for
  log ∈ chain.logs n ∧ (logsFilter n n addresses network.contractAddress).Matches log

def Emits (currentBlock n : Int) (d : RawChainDeposit) : Prop :=
  -- what a scan that sees this tip reports of a block
  if network.isNative then
    d ∈ mapNativeBlockToDeposits (chain.block n) addresses currentBlock network.assetDecimals ∧
      chain.succeeded d.txHash = true
  else ∃ log contract, Asked chain network addresses n log ∧ network.contractAddress = some contract ∧
    mapTransferLogToDeposit log addresses currentBlock network.assetDecimals contract = .ok (some d)

def Illegible (n : Int) : Prop :=
  -- a block with a transfer to a watched address whose amount is not a number
  network.isNative = false ∧ ∃ log contract, Asked chain network addresses n log ∧ network.contractAddress = some contract ∧
    ∃ fault, mapTransferLogToDeposit log addresses 0 network.assetDecimals contract = .error fault

end Scans

section Blocks

variable {chain : EvmChain} {network : AssetNetworkContext} {addresses : List WatchedAddress} {rpc : EvmRpc}
  {currentBlock first last n : Int} {d : RawChainDeposit}

theorem mapNativeBlockToDeposits_origin {block : EvmBlock} {decimals : Nat}
    (member : d ∈ mapNativeBlockToDeposits block addresses currentBlock decimals) :
    ∃ tx ∈ block.transactions, ∃ found ∈ addresses, d = ⟨found.walletAddressId, tx.hash, 0,
      rawUnitsToDecimalString tx.value decimals, max (currentBlock - block.number + 1) 0, none⟩ := by
  obtain ⟨tx, inside, made⟩ := List.mem_filterMap.mp member
  split at made
  next => cases made
  next found matched =>
    split at made
    next => cases made
    next =>
      cases made
      refine ⟨tx, inside, found, ?_, rfl⟩
      unfold nativeMatch at matched
      split at matched
      next => cases matched
      next =>
        split at matched
        next => cases matched
        next => exact List.mem_reverse.mp (List.mem_of_find?_eq_some matched)

theorem scanNative_mem (answers : rpc.Answers chain currentBlock) (start : 0 ≤ first)
    (safe : last ≤ currentBlock - REORG_SAFETY_MARGIN_BLOCKS) (decimals : Nat) :
    ∃ deposits, scanNative rpc first last currentBlock addresses decimals = .ok deposits ∧
      ∀ d, d ∈ deposits ↔ ∃ n, (first ≤ n ∧ n ≤ last) ∧
        d ∈ mapNativeBlockToDeposits (chain.block n) addresses currentBlock decimals ∧ chain.succeeded d.txHash = true := by
  refine ⟨_, bind_eq_ok.mpr ⟨_, mapM_eq_map (fun n =>
      mapNativeBlockToDeposits (chain.block n) addresses currentBlock decimals) fun n member => ?_,
    bind_eq_ok.mpr ⟨_, mapM_eq_map (fun d => if chain.succeeded d.txHash then [d] else []) fun d member => ?_, rfl⟩⟩, ?_⟩
  case refine_1 =>
    obtain ⟨low, high⟩ := mem_blockRange.mp member
    rw [answers.blocks n (by omega) (by omega)]
    rfl
  case refine_2 =>
    obtain ⟨block, listed, emitted⟩ := List.mem_flatten.mp member
    obtain ⟨n, inside, rfl⟩ := List.mem_map.mp listed
    obtain ⟨low, high⟩ := mem_blockRange.mp inside
    obtain ⟨tx, among, found, -, rfl⟩ := mapNativeBlockToDeposits_origin emitted
    obtain ⟨receipt, answered, success⟩ := answers.receipts n (by omega) (by omega) tx among
    rw [answered]
    simp only [bind, Except.bind, pure, Except.pure, success]
  case refine_3 =>
    intro d
    simp only [List.mem_flatten, List.mem_map, mem_blockRange]
    constructor
    next =>
      rintro ⟨_, ⟨d', ⟨_, ⟨n, range, rfl⟩, emitted⟩, rfl⟩, member⟩
      split at member
      next succeeded =>
        obtain rfl := List.mem_singleton.mp member
        exact ⟨n, range, emitted, succeeded⟩
      next => cases member
    next =>
      rintro ⟨n, range, emitted, succeeded⟩
      exact ⟨_, ⟨d, ⟨_, ⟨n, range, rfl⟩, emitted⟩, rfl⟩, by rw [if_pos succeeded]; exact List.mem_singleton_self d⟩

theorem mapTransferLogToDeposit_tip {log : EvmLog} {decimals : Nat} {contract : String} (tip tip' : Int) :
    (∀ fault, mapTransferLogToDeposit log addresses tip decimals contract = .error fault →
      mapTransferLogToDeposit log addresses tip' decimals contract = .error fault) ∧
    (mapTransferLogToDeposit log addresses tip decimals contract = .ok none →
      mapTransferLogToDeposit log addresses tip' decimals contract = .ok none) ∧
    ∀ d, mapTransferLogToDeposit log addresses tip decimals contract = .ok (some d) →
      ∃ found ∈ addresses, ∃ units, log.data = some units ∧ d = ⟨found.walletAddressId, log.transactionHash, log.logIndex,
        rawUnitsToDecimalString units decimals, max (tip - log.blockNumber + 1) 0, none⟩ ∧
      mapTransferLogToDeposit log addresses tip' decimals contract =
        .ok (some { d with confirmations := max (tip' - log.blockNumber + 1) 0 }) := by
  unfold mapTransferLogToDeposit
  split
  next => simp
  next =>
    split
    next => simp
    next =>
      split
      next => simp
      next =>
        split
        next => simp
        next => simp
        next found units matched data =>
          refine ⟨by simp, by simp, fun d mapped => ?_⟩
          cases mapped
          exact ⟨found, List.mem_reverse.mp (List.mem_of_find?_eq_some matched), units, data, rfl, rfl⟩

theorem scanToken_mem (answers : rpc.Answers chain currentBlock) (start : 0 ≤ first)
    (safe : last ≤ currentBlock - REORG_SAFETY_MARGIN_BLOCKS) (isToken : network.isNative = false) :
    ((∃ fault, scanToken rpc first last currentBlock addresses network.contractAddress network.assetDecimals =
        .error fault) ∧ ∃ n, (first ≤ n ∧ n ≤ last) ∧ Illegible chain network addresses n) ∨
    (∃ deposits, scanToken rpc first last currentBlock addresses network.contractAddress network.assetDecimals =
        .ok deposits ∧ ∀ d, d ∈ deposits ↔ ∃ n, (first ≤ n ∧ n ≤ last) ∧ Emits chain network addresses currentBlock n d) ∧
      ¬ ∃ n, (first ≤ n ∧ n ≤ last) ∧ Illegible chain network addresses n := by
  obtain ⟨found, answered, listed⟩ := answers.logs (logsFilter first last addresses network.contractAddress) start safe
  have asked {log : EvmLog} : log ∈ found ↔ ∃ n, (first ≤ n ∧ n ≤ last) ∧ Asked chain network addresses n log := listed log
  unfold scanToken
  rw [answered]
  cases configured : network.contractAddress with
  | none =>
    -- without a contract nothing matches the filter
    have nothing {n : Int} {log : EvmLog} (wanted : Asked chain network addresses n log) : False := by
      obtain ⟨-, ⟨same, -⟩⟩ := wanted
      simp [logsFilter, configured] at same
    have empty : found = [] := List.eq_nil_iff_forall_not_mem.mpr fun log member => by
      obtain ⟨n, -, wanted⟩ := asked.mp member
      exact nothing wanted
    subst empty
    refine .inr ⟨⟨[], rfl, fun d => ⟨fun member => (by cases member), ?_⟩⟩, ?_⟩
    · rintro ⟨n, -, emitted⟩
      rw [Emits, isToken] at emitted
      obtain ⟨log, _, wanted, -⟩ := emitted
      exact (nothing wanted).elim
    · rintro ⟨n, -, -, log, _, wanted, -⟩
      exact nothing wanted
  | some contract =>
    by_cases legible : ∀ log ∈ found, ∃ mapped,
        mapTransferLogToDeposit log addresses currentBlock network.assetDecimals contract = .ok mapped
    next =>
      obtain ⟨mapped, done⟩ := mapM_succeeds legible
      refine .inr ⟨⟨_, bind_eq_ok.mpr ⟨found, rfl, bind_eq_ok.mpr ⟨mapped, done, rfl⟩⟩, fun d => ?_⟩, ?_⟩
      · simp only [List.mem_filterMap, exists_eq_right]
        constructor
        next =>
          intro member
          obtain ⟨log, among, made⟩ := origin_of_mapM done member
          obtain ⟨n, range, wanted⟩ := asked.mp among
          exact ⟨n, range, by rw [Emits, isToken]; exact ⟨log, contract, wanted, configured, made⟩⟩
        next =>
          rintro ⟨n, range, emitted⟩
          rw [Emits, isToken] at emitted
          obtain ⟨log, contract', wanted, same, made⟩ := emitted
          cases configured.symm.trans same
          obtain ⟨b, among, here⟩ := forall₂_left (mapM_eq_ok.mp done) log (asked.mpr ⟨n, range, wanted⟩)
          cases made.symm.trans here
          exact among
      · rintro ⟨n, range, -, log, contract', wanted, same, fault, failed⟩
        cases configured.symm.trans same
        obtain ⟨b, made⟩ := legible log (asked.mpr ⟨n, range, wanted⟩)
        rw [(mapTransferLogToDeposit_tip 0 currentBlock).1 fault failed] at made
        cases made
    next =>
      push Not at legible
      obtain ⟨log, among, illegible⟩ := legible
      obtain ⟨n, range, wanted⟩ := asked.mp among
      refine .inl ⟨?_, n, range, isToken, log, contract, wanted, configured, ?_⟩
      · cases result : found.mapM fun log =>
            mapTransferLogToDeposit log addresses currentBlock network.assetDecimals contract with
        | error fault =>
          refine ⟨fault, ?_⟩
          change (Except.bind (found.mapM _) _ : Except ChainFault _) = _
          rw [result]
          rfl
        | ok mapped =>
          obtain ⟨b, -, made⟩ := forall₂_left (mapM_eq_ok.mp result) log among
          exact absurd made (illegible b)
      · cases made : mapTransferLogToDeposit log addresses currentBlock network.assetDecimals contract with
        | ok mapped => exact absurd made (illegible mapped)
        | error fault => exact ⟨fault, (mapTransferLogToDeposit_tip currentBlock 0).1 fault made⟩

theorem scanBlocks_mem (answers : rpc.Answers chain currentBlock) (start : 0 ≤ first)
    (safe : last ≤ currentBlock - REORG_SAFETY_MARGIN_BLOCKS) :
    ((∃ fault, scanBlocks rpc network first last currentBlock addresses = .error fault) ∧
      ∃ n, (first ≤ n ∧ n ≤ last) ∧ Illegible chain network addresses n) ∨
    (∃ deposits, scanBlocks rpc network first last currentBlock addresses = .ok deposits ∧
      ∀ d, d ∈ deposits ↔ ∃ n, (first ≤ n ∧ n ≤ last) ∧ Emits chain network addresses currentBlock n d) ∧
      ¬ ∃ n, (first ≤ n ∧ n ≤ last) ∧ Illegible chain network addresses n := by
  unfold scanBlocks
  cases family : network.isNative with
  | true =>
    obtain ⟨deposits, done, member⟩ :=
      @scanNative_mem chain addresses rpc currentBlock first last answers start safe network.assetDecimals
    refine .inr ⟨⟨deposits, done, fun d => ?_⟩, ?_⟩
    · simp only [member, Emits, family, if_true]
    · rintro ⟨n, -, isToken, -⟩
      cases family.symm.trans isToken
  | false => exact scanToken_mem answers start safe family

theorem Emits.origin (emitted : Emits chain network addresses currentBlock n d) :
    (∃ w ∈ addresses, w.walletAddressId = d.walletAddressId) ∧
      ∃ units, d.amount = rawUnitsToDecimalString units network.assetDecimals ∧
        ((network.isNative = true ∧
            ∃ tx ∈ (chain.block n).transactions, tx.hash = d.txHash ∧ d.eventIndex = 0 ∧ tx.value = units) ∨
          (network.isNative = false ∧
            ∃ log ∈ chain.logs n, log.transactionHash = d.txHash ∧ log.logIndex = d.eventIndex ∧ log.data = some units)) := by
  -- what a scan reports is a transaction or a log of its block, under a watched address
  unfold Emits at emitted
  split at emitted
  next native =>
    obtain ⟨tx, among, w, watched, rfl⟩ := mapNativeBlockToDeposits_origin emitted.1
    exact ⟨⟨w, watched, rfl⟩, tx.value, rfl, .inl ⟨native, tx, among, rfl, rfl, rfl⟩⟩
  next isToken =>
    obtain ⟨log, contract, wanted, -, made⟩ := emitted
    obtain ⟨w, watched, units, data, rfl, -⟩ := (mapTransferLogToDeposit_tip currentBlock 0).2.2 d made
    exact ⟨⟨w, watched, rfl⟩, units, rfl, .inr ⟨Bool.eq_false_iff.mpr isToken, log, wanted.1, rfl, rfl, data⟩⟩

theorem Emits.tip (emitted : Emits chain network addresses currentBlock n d) (tip : Int) :
    ∃ confirmations, Emits chain network addresses tip n { d with confirmations := confirmations } := by
  unfold Emits at emitted
  split at emitted
  next native =>
    obtain ⟨tx, among, made⟩ := List.mem_filterMap.mp emitted.1
    simp only [Emits, if_pos native]
    refine ⟨max (tip - (chain.block n).number + 1) 0, List.mem_filterMap.mpr ⟨tx, among, ?_⟩, emitted.2⟩
    split at made
    next => cases made
    next =>
      split at made
      next => cases made
      next nonzero =>
        cases made
        rw [if_neg nonzero]
  next isToken =>
    obtain ⟨log, contract, wanted, configured, made⟩ := emitted
    simp only [Emits, if_neg isToken]
    obtain ⟨-, -, -, -, -, later⟩ := (mapTransferLogToDeposit_tip currentBlock tip).2.2 d made
    exact ⟨_, log, contract, wanted, configured, later⟩

theorem Emits.unique (distinct : chain.Distinct) {tip m : Int} {d' : RawChainDeposit}
    (emitted : Emits chain network addresses currentBlock n d) (other : Emits chain network addresses tip m d')
    (hash : d.txHash = d'.txHash) (index : d.eventIndex = d'.eventIndex) : n = m ∧ d.amount = d'.amount := by
  -- on a chain whose hashes are distinct a key stands for one amount in one block
  obtain ⟨-, units, amount, source⟩ := emitted.origin
  obtain ⟨-, units', amount', source'⟩ := other.origin
  rcases source with ⟨native, tx, among, hashed, -, rfl⟩ | ⟨isToken, log, among, hashed, indexed, data⟩
  next =>
    rcases source' with ⟨-, tx', among', hashed', -, rfl⟩ | ⟨isToken, -⟩
    next =>
      obtain ⟨rfl, rfl⟩ := distinct.transactions n m tx among tx' among' (by rw [hashed, hash, hashed'])
      exact ⟨rfl, amount.trans amount'.symm⟩
    next => cases native.symm.trans isToken
  next =>
    rcases source' with ⟨native, -⟩ | ⟨-, log', among', hashed', indexed', data'⟩
    next => cases native.symm.trans isToken
    next =>
      obtain ⟨rfl, rfl⟩ := distinct.logs n m log among log' among' (by rw [hashed, hash, hashed'])
        (by rw [indexed, index, indexed'])
      cases data.symm.trans data'
      exact ⟨rfl, amount.trans amount'.symm⟩

end Blocks

namespace DepositWatcherService

/-- The row of `blockchainWatchCursor` and the database that polls record in. -/
structure WatcherState where
  row : WatchCursor
  db : Db

/-- One call of `scanOne`, by the worker, clock and node it has. -/
structure Poll where
  workerId : Nat
  now : Time
  rpc : EvmRpc
  currentBlock : Int

section Polling

variable (network : AssetNetworkContext) (addresses : List WatchedAddress) (ownerOf : Nat → Nat) (assetNetworkId : Nat)
  (assetSymbol : String) (requiredConfirmations : Int)

/-- The loop over the scanned deposits, each recorded in a transaction of its own; `none` once one throws. -/
def recordAll (now : Time) : List RawChainDeposit → Db → Option Db
  | [], db => some db
  | raw :: rest, db =>
    if (addresses.map WatchedAddress.walletAddressId).contains raw.walletAddressId then do
      let amount ← Decimals.value? raw.amount.toList
      let recorded ← ((DepositsService.recordObservedTransaction now
        (raw.toObserved (ownerOf raw.walletAddressId) assetNetworkId assetSymbol requiredConfirmations amount)).run db).toOption
      recordAll now rest recorded.2
    else recordAll now rest db

/-- A `scanOne` that nobody disturbs; `none` when it finds the lease taken or throws. -/
def scanOne (poll : Poll) (watch : WatcherState) : Option WatcherState :=
  if addresses = [] then some watch
  else if isFree watch.row poll.now then do
    let leased := lease watch.row poll.workerId poll.now
    let currentCursor := leased.lastScannedPointer
    let scanned ← (scanForDeposits poll.rpc network addresses currentCursor requiredConfirmations).toOption
    let db ← recordAll addresses ownerOf assetNetworkId assetSymbol requiredConfirmations poll.now scanned.1 watch.db
    pure { row := releaseLeaseAfterSuccess leased poll.workerId currentCursor scanned.2, db := db }
  else none

def scanAll (polls : List Poll) (watch : WatcherState) : Option WatcherState :=
  polls.foldlM (fun reached poll =>
    scanOne network addresses ownerOf assetNetworkId assetSymbol requiredConfirmations poll reached) watch

end Polling

end DepositWatcherService

namespace IndependentReconciliationService

def RECONCILIATION_TOLERANCE : ℚ := 1 / 10 ^ 18

structure Finding where
  type : String
  severity : String
  chainIdentity : String
  deriving DecidableEq

def isDeposit (assetNetworkId : Nat) (txHash : String) (eventIndex : Nat) (deposit : Deposit) : Bool :=
  decide (deposit.assetNetworkId = assetNetworkId ∧ deposit.txHash = txHash ∧ deposit.eventIndex = eventIndex)

/-- `new Prisma.Decimal(raw.amount)`. -/
def observedAmount (raw : RawChainDeposit) : ℚ :=
  (Decimals.value? raw.amount.toList).getD 0

def compareObservedDeposit (db : Db) (assetNetworkId : Nat) (raw : RawChainDeposit) : Option Finding :=
  let chainIdentity := raw.txHash ++ ":" ++ toString raw.eventIndex
  match db.wallet.deposits.find? (isDeposit assetNetworkId raw.txHash raw.eventIndex) with
  | none => some ⟨"chain_event_missing_internal_deposit", "CRITICAL", chainIdentity⟩
  | some internal =>
    let difference := |Decimal.minus (observedAmount raw) (Decimal.column internal.2.amount)|
    if RECONCILIATION_TOLERANCE < difference then some ⟨"deposit_amount_mismatch", "CRITICAL", chainIdentity⟩ else none

def compareObservedDeposits (db : Db) (assetNetworkId : Nat) (observed : List RawChainDeposit) : List Finding :=
  observed.filterMap (compareObservedDeposit db assetNetworkId)

/-- What `runIndependentRescan` finds by its scan, which it runs without a confirmation requirement. Its other checks
have findings of other types. -/
def runIndependentRescan (rpc : EvmRpc) (network : AssetNetworkContext) (addresses : List WatchedAddress) (db : Db)
    (assetNetworkId : Nat) (fromPointer : Option Int) : List Finding :=
  if addresses = [] then []
  else match scanForDeposits rpc network addresses fromPointer 0 with
    | .error _ => [⟨"rescan_provider_error", "WARNING", toString assetNetworkId⟩]
    | .ok (observed, _) => compareObservedDeposits db assetNetworkId observed

end IndependentReconciliationService

namespace DepositsService

variable {db db' : Db} {now : Time} {input : ObservedTransactionInput}

theorem recordObservedTransaction_wrote {recorded : Recorded}
    (done : (recordObservedTransaction now input).run db = .ok (recorded, db')) :
    ∃ depositId row, Table.Wrote db.wallet.deposits db'.wallet.deposits depositId row ∧ isEvent input row = true ∧
      ((db.wallet.deposits.get? depositId = none ∧ row.amount = input.amount) ∨
        ∃ e, db.wallet.deposits.get? depositId = some e ∧ isEvent input e = true ∧ row.amount = e.amount) := by
  -- a report rewrites the row of its event, which keeps its amount, or adds one of the reported amount
  simp only [recordObservedTransaction, run_bind_ok, run_getOrThrow_ok, run_find?, run_pure, Db.assetNetworksField_get,
    Db.walletAddressesField_get, Except.ok.injEq, Prod.mk.injEq] at done
  obtain ⟨assetNetwork, _, ⟨network, rfl⟩, walletAddress, _, ⟨address, rfl⟩, _, _, ⟨-, rfl⟩, ⟨depositId, upserted⟩, db₁,
    upsert, _, db₂, advance, credited, db₃, credit, deposit, _, ⟨-, rfl⟩, -, rfl⟩ := done
  obtain ⟨t₁, rfl, wrote₁, event, place⟩ := upsertDeposit_ok upsert
  obtain ⟨t₂, row₂, rfl, wrote₂, ⟨event₂, -, amount₂, -⟩, -⟩ := advanceDeposit_ok advance wrote₁.get
  have placed {row : Deposit} (amount : row.amount = upserted.amount) :
      (db.wallet.deposits.get? depositId = none ∧ row.amount = input.amount) ∨
        ∃ e, db.wallet.deposits.get? depositId = some e ∧ isEvent input e = true ∧ row.amount = e.amount := by
    rcases place with ⟨absent, -, new⟩ | ⟨e, old, mine, -, same, -⟩
    · exact .inl ⟨absent, by rw [amount, new]; rfl⟩
    · exact .inr ⟨e, old, mine, amount.trans same⟩
  have wrote := wrote₁.again wrote₂
  rw [creditWhenFinal, run_ite] at credit
  split at credit
  next =>
    obtain ⟨t₃, l, posted, row, rfl, -, wrote₃, ⟨event₃, -, amount₃⟩, -⟩ := creditDeposit_ok input credit wrote₂.get
    exact ⟨depositId, row, wrote.again wrote₃, event₃.trans (event₂.trans event), placed (amount₃.trans amount₂)⟩
  next =>
    simp only [run_pure, Except.ok.injEq, Prod.mk.injEq] at credit
    obtain ⟨-, rfl⟩ := credit
    exact ⟨depositId, row₂, wrote, event₂.trans event, placed amount₂⟩

end DepositsService

namespace DepositWatcherService

open IndependentReconciliationService

section Recording

variable (chain : EvmChain) (network : AssetNetworkContext) (addresses : List WatchedAddress) (assetNetworkId : Nat)

/-- The rows of the asset network are what scans report of the blocks after `base` and up to `c`, with their amounts. -/
def Mirrors (base c : Int) (db : Db) : Prop :=
  ∀ row ∈ db.wallet.deposits.rows, row.assetNetworkId = assetNetworkId → ∃ n tip d, (base < n ∧ n ≤ c) ∧
    Emits chain network addresses tip n d ∧ isDeposit assetNetworkId d.txHash d.eventIndex row = true ∧
    row.amount = observedAmount d

def Has (db : Db) (d : RawChainDeposit) : Prop :=
  ∃ row ∈ db.wallet.deposits.rows, isDeposit assetNetworkId d.txHash d.eventIndex row = true

variable {chain network addresses assetNetworkId} {ownerOf : Nat → Nat} {assetSymbol : String}
  {requiredConfirmations base c : Int} {now : Time} {db db' : Db}

theorem toOption_eq_some {ε α : Type} {x : Except ε α} {a : α} : x.toOption = some a ↔ x = .ok a := by
  cases x <;> simp [Except.toOption]

theorem isEvent_toObserved {raw : RawChainDeposit} {userId : Nat} {amount : ℚ} {row : Deposit} :
    DepositsService.isEvent (raw.toObserved userId assetNetworkId assetSymbol requiredConfirmations amount) row =
      isDeposit assetNetworkId raw.txHash raw.eventIndex row := by
  rw [Bool.eq_iff_iff]
  simp only [DepositsService.isEvent, isDeposit, Bool.and_eq_true, decide_eq_true_eq]
  exact and_assoc

theorem recordObserved_kept {raw : RawChainDeposit} {userId : Nat} {amount : ℚ} {recorded : DepositsService.Recorded}
    (done : (DepositsService.recordObservedTransaction now
      (raw.toObserved userId assetNetworkId assetSymbol requiredConfirmations amount)).run db = .ok (recorded, db'))
    (denotes : Decimals.value? raw.amount.toList = some amount) {n tip : Int} (range : base < n ∧ n ≤ c)
    (emitted : Emits chain network addresses tip n raw) (mirrors : Mirrors chain network addresses assetNetworkId base c db) :
    Mirrors chain network addresses assetNetworkId base c db' ∧ Has assetNetworkId db' raw ∧
      ∀ d, Has assetNetworkId db d → Has assetNetworkId db' d := by
  obtain ⟨depositId, row, wrote, event, amountOf⟩ := DepositsService.recordObservedTransaction_wrote done
  rw [isEvent_toObserved] at event
  refine ⟨fun other member mine => ?_, ⟨row, Table.get?_mem wrote.get, event⟩, ?_⟩
  case refine_1 =>
    obtain ⟨i, position⟩ := Table.mem_iff_get?.mp member
    by_cases here : i = depositId
    next =>
      rw [here, wrote.get] at position
      cases position
      rcases amountOf with ⟨-, reported⟩ | ⟨e, old, event', kept⟩
      next =>
        refine ⟨n, tip, raw, range, emitted, event, reported.trans ?_⟩
        rw [observedAmount, denotes]
        rfl
      next =>
        rw [isEvent_toObserved] at event'
        simp only [isDeposit, decide_eq_true_eq] at event event'
        obtain ⟨m, tip', d, range', emitted', key, amount'⟩ := mirrors e (Table.get?_mem old) event'.1
        refine ⟨m, tip', d, range', emitted', ?_, kept.trans amount'⟩
        simp only [isDeposit, decide_eq_true_eq] at key ⊢
        exact ⟨event.1, event.2.1.trans (event'.2.1.symm.trans key.2.1), event.2.2.trans (event'.2.2.symm.trans key.2.2)⟩
    next =>
      rw [wrote.other here] at position
      exact mirrors other (Table.get?_mem position) mine
  case refine_2 =>
    rintro d ⟨old, member, key⟩
    obtain ⟨i, position⟩ := Table.mem_iff_get?.mp member
    by_cases here : i = depositId
    next =>
      -- the row of the event itself stays the row of its key
      subst here
      rcases amountOf with ⟨absent, -⟩ | ⟨e, same, event', -⟩
      next => cases absent.symm.trans position
      next =>
        cases same.symm.trans position
        rw [isEvent_toObserved] at event'
        refine ⟨row, Table.get?_mem wrote.get, ?_⟩
        simp only [isDeposit, decide_eq_true_eq] at event event' key ⊢
        exact ⟨event.1, event.2.1.trans (event'.2.1.symm.trans key.2.1), event.2.2.trans (event'.2.2.symm.trans key.2.2)⟩
    next => exact ⟨old, Table.get?_mem ((wrote.other here).trans position), key⟩

theorem recordAll_kept {raws : List RawChainDeposit}
    (done : recordAll addresses ownerOf assetNetworkId assetSymbol requiredConfirmations now raws db = some db')
    (emitted : ∀ raw ∈ raws, ∃ n tip, (base < n ∧ n ≤ c) ∧ Emits chain network addresses tip n raw)
    (mirrors : Mirrors chain network addresses assetNetworkId base c db) :
    Mirrors chain network addresses assetNetworkId base c db' ∧ (∀ raw ∈ raws, Has assetNetworkId db' raw) ∧
      ∀ d, Has assetNetworkId db d → Has assetNetworkId db' d := by
  induction raws generalizing db with
  | nil =>
    cases done
    exact ⟨mirrors, fun _ member => absurd member List.not_mem_nil, fun _ has => has⟩
  | cons raw rest ih =>
    obtain ⟨n, tip, range, here⟩ := emitted raw List.mem_cons_self
    obtain ⟨⟨w, watched, owner⟩, -⟩ := here.origin
    have known : (addresses.map WatchedAddress.walletAddressId).contains raw.walletAddressId = true :=
      List.contains_iff_mem.mpr (List.mem_map.mpr ⟨w, watched, owner⟩)
    rw [recordAll, if_pos known] at done
    obtain ⟨amount, denotes, done⟩ := Option.bind_eq_some_iff.mp done
    obtain ⟨⟨recorded, middle⟩, ran, done⟩ := Option.bind_eq_some_iff.mp done
    obtain ⟨mirrored, has, kept⟩ := recordObserved_kept (toOption_eq_some.mp ran) denotes range here mirrors
    obtain ⟨mirrored', all, kept'⟩ := ih done (fun raw member => emitted raw (List.mem_cons_of_mem _ member)) mirrored
    refine ⟨mirrored', fun raw' member => ?_, fun d had => kept' d (kept d had)⟩
    rcases List.mem_cons.mp member with rfl | later
    · exact kept' _ has
    · exact all raw' later

end Recording

section Polls

variable {chain : EvmChain} {network : AssetNetworkContext} {addresses : List WatchedAddress} {ownerOf : Nat → Nat}
  {assetNetworkId : Nat} {assetSymbol : String} {requiredConfirmations base c tip : Int} {watch watch' : WatcherState}

/-- A watcher that has read the blocks after `base` and up to `c`: each deposit in them has its row, and no row is of
another block. -/
structure UpTo (chain : EvmChain) (network : AssetNetworkContext) (addresses : List WatchedAddress) (assetNetworkId : Nat)
    (base c : Int) (db : Db) : Prop where
  mirrors : Mirrors chain network addresses assetNetworkId base c db
  covers : ∀ n tip d, base < n → n ≤ c → Emits chain network addresses tip n d → Has assetNetworkId db d

theorem UpTo.scanned (upTo : UpTo chain network addresses assetNetworkId base c watch.db) {poll : Poll} {last : Int}
    {raws : List RawChainDeposit} {db : Db} (lower : base ≤ c) (further : c ≤ last)
    (member : ∀ d, d ∈ raws ↔ ∃ n, (c + 1 ≤ n ∧ n ≤ last) ∧ Emits chain network addresses poll.currentBlock n d)
    (done : recordAll addresses ownerOf assetNetworkId assetSymbol requiredConfirmations poll.now raws watch.db = some db) :
    UpTo chain network addresses assetNetworkId base last db := by
  have wider : Mirrors chain network addresses assetNetworkId base last watch.db := by
    intro row among mine
    obtain ⟨n, tip, d, range, rest⟩ := upTo.mirrors row among mine
    exact ⟨n, tip, d, ⟨range.1, range.2.trans further⟩, rest⟩
  obtain ⟨mirrors, recorded, kept⟩ := recordAll_kept done (fun raw among => by
    obtain ⟨n, range, emitted⟩ := (member raw).mp among
    exact ⟨n, poll.currentBlock, ⟨by omega, range.2⟩, emitted⟩) wider
  refine ⟨mirrors, fun n tip d after upto emitted => ?_⟩
  by_cases before : n ≤ c
  next => exact kept d (upTo.covers n tip d after before emitted)
  next =>
    -- this poll reports the same deposit, under its own tip
    obtain ⟨confirmations, same⟩ := emitted.tip poll.currentBlock
    exact recorded { d with confirmations := confirmations } ((member _).mpr ⟨n, ⟨by omega, upto⟩, same⟩)

/-- A poll from a watcher that has read up to `c` reads on from there, as far as the requirement lets it. -/
theorem scanOne_upTo {poll : Poll} (watching : addresses ≠ [])
    (done : scanOne network addresses ownerOf assetNetworkId assetSymbol requiredConfirmations poll watch = some watch')
    (answers : poll.rpc.Answers chain poll.currentBlock) (low : ∀ k, watch.row.lastScannedPointer = some k → -1 ≤ k)
    (next : fromBlock watch.row.lastScannedPointer poll.currentBlock = c + 1) (lower : base ≤ c)
    (upTo : UpTo chain network addresses assetNetworkId base c watch.db) :
    ∃ c', watch'.row.lastScannedPointer = some c' ∧ c ≤ c' ∧
      c' ≤ max c (poll.currentBlock - requiredDepth requiredConfirmations) ∧
      UpTo chain network addresses assetNetworkId base c' watch'.db := by
  rw [scanOne, if_neg watching] at done
  split at done
  next =>
    obtain ⟨⟨raws, nextCursor⟩, ran, done⟩ := Option.bind_eq_some_iff.mp done
    obtain ⟨db, recorded, done⟩ := Option.bind_eq_some_iff.mp done
    cases done
    rw [toOption_eq_some] at ran
    have computed := scanForDeposits_next answers.tip ran
    change nextCursor = nextPointer network.isNative watch.row.lastScannedPointer poll.currentBlock requiredConfirmations at computed
    have pointer : (releaseLeaseAfterSuccess (lease watch.row poll.workerId poll.now) poll.workerId
        watch.row.lastScannedPointer nextCursor).lastScannedPointer = some nextCursor := by
      have holds : (lease watch.row poll.workerId poll.now).lockedBy = some poll.workerId := rfl
      rw [releaseLeaseAfterSuccess, if_pos holds, computed, advancedCursor_eq low]
    refine ⟨nextCursor, pointer, ?_⟩
    change scanForDeposits poll.rpc network addresses watch.row.lastScannedPointer requiredConfirmations = _ at ran
    simp only [scanForDeposits, answers.tip, bind_eq_ok, Except.ok.injEq, exists_eq_left'] at ran
    split at ran
    next nothing =>
      obtain ⟨rfl, rfl⟩ := Prod.mk.inj (pure_eq_ok.mp ran)
      cases recorded
      have still : watch.row.lastScannedPointer.getD (fromBlock watch.row.lastScannedPointer poll.currentBlock - 1) = c := by
        cases pointed : watch.row.lastScannedPointer with
        | none =>
          rw [pointed] at next
          rw [Option.getD_none, next]
          omega
        | some k =>
          rw [pointed, fromBlock_some (low k pointed)] at next
          rw [Option.getD_some]
          omega
      rw [still]
      exact ⟨le_refl c, le_max_left _ _, upTo⟩
    next something =>
      obtain ⟨deposits, read, same⟩ := bind_eq_ok.mp ran
      obtain ⟨rfl, rfl⟩ := Prod.mk.inj (pure_eq_ok.mp same)
      have margin : REORG_SAFETY_MARGIN_BLOCKS ≤ requiredDepth requiredConfirmations := le_max_left _ _
      have ceiling : toBlock network.isNative watch.row.lastScannedPointer poll.currentBlock requiredConfirmations ≤
        poll.currentBlock - requiredDepth requiredConfirmations := toBlock_le
      have start : 0 ≤ fromBlock watch.row.lastScannedPointer poll.currentBlock := le_max_right _ _
      have safe := ceiling.trans (Int.sub_le_sub_left margin poll.currentBlock)
      rcases @scanBlocks_mem chain network addresses poll.rpc poll.currentBlock _ _ answers start safe with
        ⟨⟨fault, failed⟩, -⟩ | ⟨⟨found, scanned, member⟩, -⟩
      next => cases failed.symm.trans read
      next =>
        cases scanned.symm.trans read
        rw [next] at member something
        exact ⟨by omega, le_max_of_le_right ceiling, upTo.scanned lower (by omega) member recorded⟩
  next => cases done

theorem scanAll_upTo {polls : List Poll} {t : Int} (watching : addresses ≠ [])
    (done : scanAll network addresses ownerOf assetNetworkId assetSymbol requiredConfirmations polls watch = some watch')
    (answered : ∀ poll ∈ polls, poll.currentBlock ≤ t ∧ poll.rpc.Answers chain poll.currentBlock)
    (pointer : watch.row.lastScannedPointer = some c) (low : -1 ≤ base) (lower : base ≤ c)
    (upTo : UpTo chain network addresses assetNetworkId base c watch.db) :
    ∃ c', watch'.row.lastScannedPointer = some c' ∧ c ≤ c' ∧ c' ≤ max c (t - requiredDepth requiredConfirmations) ∧
      UpTo chain network addresses assetNetworkId base c' watch'.db := by
  induction polls generalizing watch c with
  | nil =>
    cases done
    exact ⟨c, pointer, le_refl c, le_max_left _ _, upTo⟩
  | cons poll rest ih =>
    obtain ⟨middle, first, later⟩ := Option.bind_eq_some_iff.mp done
    obtain ⟨before, answers⟩ := answered poll List.mem_cons_self
    obtain ⟨c₁, pointer₁, forward, within, upTo₁⟩ := scanOne_upTo watching first answers
      (fun k pointed => by cases pointer.symm.trans pointed; omega)
      (by rw [pointer]; exact fromBlock_some (low.trans lower)) lower upTo
    obtain ⟨c₂, pointer₂, forward₂, within₂, upTo₂⟩ :=
      ih later (fun poll member => answered poll (List.mem_cons_of_mem _ member)) pointer₁ (by omega) upTo₁
    exact ⟨c₂, pointer₂, by omega, by omega, upTo₂⟩

end Polls

end DepositWatcherService

namespace IndependentReconciliationService

open DepositWatcherService

section Comparing

variable {chain : EvmChain} {network : AssetNetworkContext} {addresses : List WatchedAddress} {assetNetworkId : Nat}
  {base c currentBlock n : Int} {db : Db} {d : RawChainDeposit}

theorem withinTolerance (amount : ℚ) : |Decimal.minus amount (Decimal.column amount)| ≤ RECONCILIATION_TOLERANCE := by
  have rounded := Decimals.abs_sub_toPlaces Decimal.SCALE amount
  have doubled := Decimals.abs_toSignificant_le (by decide : 0 < Decimal.PRECISION) (amount - Decimal.column amount)
  change |amount - Decimal.column amount| ≤ 1 / 2 / 10 ^ 18 at rounded
  rw [Decimal.minus, RECONCILIATION_TOLERANCE]
  linarith

theorem compareObservedDeposit_quiet (distinct : chain.Distinct)
    (mirrors : Mirrors chain network addresses assetNetworkId base c db)
    (emitted : Emits chain network addresses currentBlock n d) (has : Has assetNetworkId db d) :
    compareObservedDeposit db assetNetworkId d = none := by
  obtain ⟨row, member, key⟩ := has
  unfold compareObservedDeposit
  split
  next absent =>
    rw [Table.find?_none.mp absent row member] at key
    cases key
  next internal found =>
    obtain ⟨place, mine⟩ := Table.find?_some found
    simp only [isDeposit, decide_eq_true_eq] at mine
    obtain ⟨m, tip, d', -, emitted', key', amount⟩ := mirrors internal.2 (Table.get?_mem place) mine.1
    simp only [isDeposit, decide_eq_true_eq] at key'
    have same := (emitted.unique distinct emitted' (mine.2.1.symm.trans key'.2.1) (mine.2.2.symm.trans key'.2.2)).2
    have stored : internal.2.amount = observedAmount d := by rw [amount, observedAmount, observedAmount, same]
    rw [stored]
    exact if_neg (not_lt.mpr (withinTolerance _))

theorem compareObservedDeposit_loud (distinct : chain.Distinct)
    (mirrors : Mirrors chain network addresses assetNetworkId base c db)
    (emitted : Emits chain network addresses currentBlock n d) (beyond : c < n) :
    compareObservedDeposit db assetNetworkId d =
      some ⟨"chain_event_missing_internal_deposit", "CRITICAL", d.txHash ++ ":" ++ toString d.eventIndex⟩ := by
  unfold compareObservedDeposit
  split
  next => rfl
  next internal found =>
    obtain ⟨place, mine⟩ := Table.find?_some found
    simp only [isDeposit, decide_eq_true_eq] at mine
    obtain ⟨m, tip, d', range, emitted', key', -⟩ := mirrors internal.2 (Table.get?_mem place) mine.1
    simp only [isDeposit, decide_eq_true_eq] at key'
    have same := (emitted.unique distinct emitted' (mine.2.1.symm.trans key'.2.1) (mine.2.2.symm.trans key'.2.2)).1
    omega

end Comparing

section Agreement

variable {chain : EvmChain} {network : AssetNetworkContext} {addresses : List WatchedAddress} {ownerOf : Nat → Nat}
  {assetNetworkId : Nat} {assetSymbol : String} {requiredConfirmations t p : Int} {start watch : WatcherState} {first : Poll}
  {rest : List Poll} {rpc : EvmRpc}

def Agrees (findings : List Finding) : Prop :=
  -- what a rescan must not say about a watcher that has caught up
  ∀ finding ∈ findings, finding.type ≠ "chain_event_missing_internal_deposit" ∧ finding.type ≠ "deposit_amount_mismatch"

def rescanned (network : AssetNetworkContext) (p t : Int) : Int :=
  -- the last block that a rescan from this pointer reads: it goes by the safety margin alone
  toBlock network.isNative (some p) t 0

/-- No watched transfer is in a block that the rescan reads and that the requirement keeps the watcher from, unless the
rescan fails on a transfer it cannot read. -/
def NothingAhead (chain : EvmChain) (network : AssetNetworkContext) (addresses : List WatchedAddress)
    (requiredConfirmations p t : Int) : Prop :=
  (∃ n, (p < n ∧ n ≤ rescanned network p t) ∧ Illegible chain network addresses n) ∨
    ∀ n, max p (t - requiredDepth requiredConfirmations) < n → n ≤ rescanned network p t → ∀ d,
      ¬ Emits chain network addresses t n d

theorem runIndependentRescan_cases (watching : addresses ≠ []) (answers : rpc.Answers chain t) (low : -1 ≤ p) {db : Db} :
    (runIndependentRescan rpc network addresses db assetNetworkId (some p) =
        [⟨"rescan_provider_error", "WARNING", toString assetNetworkId⟩] ∧
      ∃ n, (p < n ∧ n ≤ rescanned network p t) ∧ Illegible chain network addresses n) ∨
    ∃ observed, runIndependentRescan rpc network addresses db assetNetworkId (some p) =
        compareObservedDeposits db assetNetworkId observed ∧
      (∀ d, d ∈ observed ↔ ∃ n, (p < n ∧ n ≤ rescanned network p t) ∧ Emits chain network addresses t n d) ∧
      ¬ ∃ n, (p < n ∧ n ≤ rescanned network p t) ∧ Illegible chain network addresses n := by
  have ceiling : rescanned network p t ≤ t - requiredDepth 0 := toBlock_le
  have margin : requiredDepth 0 = REORG_SAFETY_MARGIN_BLOCKS := by decide
  rw [runIndependentRescan, if_neg watching]
  by_cases nothing : rescanned network p t < p + 1
  next =>
    have none : scanForDeposits rpc network addresses (some p) 0 = .ok ([], p) := by
      simp only [scanForDeposits, answers.tip, bind_eq_ok, Except.ok.injEq, exists_eq_left', fromBlock_some low]
      exact if_pos nothing
    rw [none]
    refine .inr ⟨[], rfl, fun d => ⟨fun member => absurd member List.not_mem_nil, ?_⟩, ?_⟩
    · rintro ⟨n, range, -⟩
      omega
    · rintro ⟨n, range, -⟩
      omega
  next =>
    have scan : scanForDeposits rpc network addresses (some p) 0 =
        scanBlocks rpc network (p + 1) (rescanned network p t) t addresses >>= fun deposits =>
          pure (deposits, rescanned network p t) := by
      unfold scanForDeposits
      rw [answers.tip]
      change (if _ then _ else _) = _
      rw [fromBlock_some low]
      exact if_neg nothing
    rw [scan]
    have after {n : Int} : p + 1 ≤ n ↔ p < n := Int.add_one_le_iff
    rcases @scanBlocks_mem chain network addresses rpc t (p + 1) (rescanned network p t) answers (by omega) (by omega) with
      ⟨⟨fault, failed⟩, illegible⟩ | ⟨⟨observed, done, member⟩, legible⟩
    next =>
      rw [failed]
      simp only [after] at illegible
      exact .inl ⟨rfl, illegible⟩
    next =>
      rw [done]
      simp only [after] at member legible
      exact .inr ⟨observed, rfl, member, legible⟩

/-- The polls of a watcher, from before its first one until nothing more is scannable at this tip. -/
structure CaughtUp (chain : EvmChain) (network : AssetNetworkContext) (addresses : List WatchedAddress)
    (ownerOf : Nat → Nat) (assetNetworkId : Nat) (assetSymbol : String) (requiredConfirmations t : Int)
    (start : WatcherState) (first : Poll) (rest : List Poll) (watch : WatcherState) : Prop where
  unscanned : ∀ row ∈ start.db.wallet.deposits.rows, row.assetNetworkId ≠ assetNetworkId
  low : ∀ k, start.row.lastScannedPointer = some k → -1 ≤ k
  polled : scanAll network addresses ownerOf assetNetworkId assetSymbol requiredConfirmations (first :: rest) start =
    some watch
  answered : ∀ poll ∈ first :: rest, poll.currentBlock ≤ t ∧ poll.rpc.Answers chain poll.currentBlock
  nothingMore : toBlock network.isNative watch.row.lastScannedPointer t requiredConfirmations <
    fromBlock watch.row.lastScannedPointer t

def initialCursor (start : WatcherState) (first : Poll) : Int :=
  -- the block before the first one that the watcher has read
  fromBlock start.row.lastScannedPointer first.currentBlock - 1

theorem CaughtUp.upTo (watching : addresses ≠ [])
    (caughtUp : CaughtUp chain network addresses ownerOf assetNetworkId assetSymbol requiredConfirmations t start first rest
      watch) :
    ∃ c, initialCursor start first ≤ c ∧ t - requiredDepth requiredConfirmations ≤ c ∧
      c ≤ max (initialCursor start first) (t - requiredDepth requiredConfirmations) ∧
      UpTo chain network addresses assetNetworkId (initialCursor start first) c watch.db := by
  have positive : 0 ≤ fromBlock start.row.lastScannedPointer first.currentBlock := le_max_right _ _
  have low : -1 ≤ initialCursor start first := by
    unfold initialCursor
    omega
  obtain ⟨before, answers⟩ := caughtUp.answered first List.mem_cons_self
  obtain ⟨middle, polled, later⟩ := Option.bind_eq_some_iff.mp caughtUp.polled
  have unread : UpTo chain network addresses assetNetworkId (initialCursor start first) (initialCursor start first)
      start.db := by
    constructor
    · intro row member mine
      exact absurd mine (caughtUp.unscanned row member)
    · intro n tip d after upto
      omega
  have next : fromBlock start.row.lastScannedPointer first.currentBlock = initialCursor start first + 1 :=
    (sub_add_cancel _ _).symm
  obtain ⟨c₁, pointer₁, forward₁, within₁, upTo₁⟩ :=
    scanOne_upTo watching polled answers caughtUp.low next (le_refl _) unread
  obtain ⟨c, pointer, forward, within, upTo⟩ := scanAll_upTo watching later
    (fun poll member => caughtUp.answered poll (List.mem_cons_of_mem _ member)) pointer₁ low forward₁ upTo₁
  refine ⟨c, by omega, ?_, by omega, upTo⟩
  have nothingMore := caughtUp.nothingMore
  rw [pointer, fromBlock_some (by omega)] at nothingMore
  have range : toBlock network.isNative (some c) t requiredConfirmations =
      min (t - requiredDepth requiredConfirmations)
        (c + 1 + (if network.isNative then NATIVE_SCAN_MAX_BLOCK_RANGE else LOG_SCAN_MAX_BLOCK_RANGE) - 1) := by
    rw [toBlock, fromBlock_some (by omega)]
  have wide : 0 < if network.isNative then NATIVE_SCAN_MAX_BLOCK_RANGE else LOG_SCAN_MAX_BLOCK_RANGE := by
    split <;> decide
  omega

/-- A rescan agrees with a caught-up watcher exactly when nothing is ahead of the watcher. -/
theorem rescan_agrees_iff (distinct : chain.Distinct)
    (caughtUp : CaughtUp chain network addresses ownerOf assetNetworkId assetSymbol requiredConfirmations t start first rest
      watch)
    (answers : rpc.Answers chain t) (above : initialCursor start first ≤ p) :
    Agrees (runIndependentRescan rpc network addresses watch.db assetNetworkId (some p)) ↔
      NothingAhead chain network addresses requiredConfirmations p t := by
  by_cases watching : addresses = []
  next =>
    rw [runIndependentRescan, if_pos watching]
    refine iff_of_true (fun _ member => absurd member List.not_mem_nil) (.inr fun n _ _ d emitted => ?_)
    obtain ⟨⟨w, watched, -⟩, -⟩ := emitted.origin
    rw [watching] at watched
    cases watched
  next =>
    have positive : 0 ≤ fromBlock start.row.lastScannedPointer first.currentBlock := le_max_right _ _
    have low : -1 ≤ p := by
      unfold initialCursor at above
      omega
    obtain ⟨c, after, ceiling, within, upTo⟩ := caughtUp.upTo watching
    rcases runIndependentRescan_cases watching answers low with ⟨failed, illegible⟩ | ⟨observed, found, member, legible⟩
    next =>
      rw [failed]
      refine iff_of_true (fun finding reported => ?_) (.inl illegible)
      rw [List.mem_singleton.mp reported]
      exact ⟨by simp, by simp⟩
    next =>
      rw [found]
      constructor
      next =>
        refine fun agrees => .inr fun n ahead upto d emitted => ?_
        have loud := compareObservedDeposit_loud distinct upTo.mirrors emitted (by omega)
        have reported := (member d).mpr ⟨n, ⟨by omega, upto⟩, emitted⟩
        exact (agrees _ (List.mem_filterMap.mpr ⟨d, reported, loud⟩)).1 rfl
      next =>
        rintro (illegible | nothing) finding reported
        next => exact absurd illegible legible
        next =>
          obtain ⟨d, scanned, compared⟩ := List.mem_filterMap.mp reported
          obtain ⟨n, range, emitted⟩ := (member d).mp scanned
          -- what the rescan reads beyond the watcher would be ahead of it
          have read : n ≤ c := by
            by_contra beyond
            exact nothing n (by omega) range.2 d emitted
          rw [compareObservedDeposit_quiet distinct upTo.mirrors emitted
            (upTo.covers n t d (by omega) read emitted)] at compared
          cases compared

theorem nothingAhead_of_required (few : requiredConfirmations ≤ 13) :
    NothingAhead chain network addresses requiredConfirmations p t := by
  -- with at most thirteen confirmations required, watcher and rescan stop at the same block
  have same : requiredDepth requiredConfirmations = REORG_SAFETY_MARGIN_BLOCKS := by
    rw [requiredDepth, REORG_SAFETY_MARGIN_BLOCKS]
    omega
  have margin : requiredDepth 0 = REORG_SAFETY_MARGIN_BLOCKS := by decide
  have ceiling : rescanned network p t ≤ t - requiredDepth 0 := toBlock_le
  refine .inr fun n ahead upto d _ => ?_
  omega

end Agreement

section Example

def tokenless : AssetNetworkContext where
  assetDecimals := 6
  contractAddress := none
  isNative := true

def aliceAddress : WatchedAddress where
  walletAddressId := 0
  address := "0xa"
  destinationTag := none

def payment : EvmTransaction where
  hash := "0xd"
  recipient := some "0xa"
  value := 1000

theorem payment_addressed (n : Int) : ∀ tx ∈ (if n = 25 then [payment] else []), tx.recipient ≠ some "" := by
  intro tx member
  split at member
  · obtain rfl := List.mem_singleton.mp member
    decide
  · cases member

theorem noLogs_logged (n : Int) : ∀ log ∈ ([] : List EvmLog), log.blockNumber = n ∧ log.removed = false :=
  List.forall_mem_nil _

def paidChain : EvmChain where
  block n := ⟨n, if n = 25 then [payment] else []⟩
  succeeded _ := true
  logs _ := []
  numbered _ := rfl
  addressed := payment_addressed
  logged := noLogs_logged

theorem paidChain_distinct : paidChain.Distinct where
  transactions n m tx member tx' member' _ := by
    simp only [paidChain] at member member'
    split at member
    next here =>
      split at member'
      next here' =>
        rw [List.mem_singleton.mp member, List.mem_singleton.mp member', here, here']
        exact ⟨rfl, rfl⟩
      next => cases member'
    next => cases member
  logs _ _ _ member := by cases member

def node : EvmRpc where
  blockNumber := .ok 40
  getBlockByNumber n := .ok (some (paidChain.block n))
  getTransactionReceipt _ := .ok (some ⟨"0x1"⟩)
  getLogs _ := .ok []

theorem node_answers : node.Answers paidChain 40 where
  tip := rfl
  blocks _ _ _ := rfl
  receipts _ _ _ _ _ := ⟨⟨"0x1"⟩, rfl, iff_of_true rfl rfl⟩
  logs _ _ _ := by
    refine ⟨[], rfl, fun log => ⟨fun member => absurd member List.not_mem_nil, ?_⟩⟩
    rintro ⟨n, -, member, -⟩
    cases member

def unpolled : WatcherState where
  row := ⟨none, none, none⟩
  db := (Platform.initial .sample).db

def onePoll : Poll where
  workerId := 1
  now := 0
  rpc := node
  currentBlock := 40

def polled (requiredConfirmations : Int) : Option WatcherState :=
  scanAll tokenless [aliceAddress] (fun _ => 1) 0 "USDC" requiredConfirmations [onePoll] unpolled

theorem polled_caughtUp {requiredConfirmations : Int} {watch : WatcherState} (done : polled requiredConfirmations = some watch)
    (nothingMore : toBlock true watch.row.lastScannedPointer 40 requiredConfirmations <
      fromBlock watch.row.lastScannedPointer 40) :
    CaughtUp paidChain tokenless [aliceAddress] (fun _ => 1) 0 "USDC" requiredConfirmations 40 unpolled onePoll [] watch where
  unscanned _ member := by cases member
  low _ pointed := by cases pointed
  polled := done
  answered poll member := by
    rw [List.mem_singleton.mp member]
    exact ⟨le_refl 40, node_answers⟩
  nothingMore := nothingMore

theorem polled_twelve : (polled 12).isSome = true := by decide +kernel

theorem polled_twenty : (polled 20).isSome = true := by decide +kernel

theorem paidChain_agrees :
    ∃ watch, polled 12 = some watch ∧ watch.db.wallet.deposits.rows.map Deposit.txHash = ["0xd"] ∧
      Agrees (runIndependentRescan node tokenless [aliceAddress] watch.db 0 (some (-1))) := by
  refine ⟨(polled 12).get polled_twelve, (Option.some_get _).symm, by decide +kernel, ?_⟩
  exact (rescan_agrees_iff paidChain_distinct (polled_caughtUp (Option.some_get polled_twelve).symm (by decide +kernel))
    node_answers (by decide)).mpr (nothingAhead_of_required (by decide))

/-- With twenty confirmations required the watcher stops at block twenty-one, and the rescan reports the payment. -/
theorem paidChain_reported :
    ∃ watch, CaughtUp paidChain tokenless [aliceAddress] (fun _ => 1) 0 "USDC" 20 40 unpolled onePoll [] watch ∧
      paidChain.Distinct ∧ node.Answers paidChain 40 ∧ initialCursor unpolled onePoll ≤ -1 ∧
      ¬ Agrees (runIndependentRescan node tokenless [aliceAddress] watch.db 0 (some (-1))) := by
  refine ⟨(polled 20).get polled_twenty, polled_caughtUp (Option.some_get _).symm (by decide +kernel), paidChain_distinct,
    node_answers, by decide, fun agrees => ?_⟩
  have found : runIndependentRescan node tokenless [aliceAddress] ((polled 20).get polled_twenty).db 0 (some (-1)) =
      [⟨"chain_event_missing_internal_deposit", "CRITICAL", "0xd:0"⟩] := by decide +kernel
  rw [found] at agrees
  exact (agrees _ List.mem_cons_self).1 rfl

end Example

end IndependentReconciliationService

end VerdictVaut
