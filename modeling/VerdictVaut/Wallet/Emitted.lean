import VerdictVaut.Wallet.Deposits
import VerdictVaut.Wallet.Evm
import VerdictVaut.Wallet.Units

set_option autoImplicit false

namespace VerdictVaut

open Relational Fallible

/-- A deposit whose row passes the checks of its table: `storable_iff_check`. -/
def RawChainDeposit.Storable (raw : RawChainDeposit) : Prop :=
  ∃ amount : ℚ, Decimals.value? raw.amount.toList = some amount ∧ 0 < amount ∧ 0 ≤ raw.confirmations

/-- What `scanOne` hands to `recordObservedTransaction` for an emitted deposit. -/
def RawChainDeposit.toObserved (raw : RawChainDeposit) (userId assetNetworkId : Nat) (assetSymbol : String)
    (requiredConfirmations : Int) (amount : ℚ) : DepositsService.ObservedTransactionInput where
  userId := userId
  assetSymbol := assetSymbol
  assetNetworkId := assetNetworkId
  walletAddressId := raw.walletAddressId
  txHash := raw.txHash
  eventIndex := some raw.eventIndex
  amount := amount
  confirmations := raw.confirmations
  requiredConfirmations := requiredConfirmations
  destinationTag := raw.destinationTag

section Row

variable (raw : RawChainDeposit) {amount : ℚ} {requiredConfirmations : Int} (now : Time) (userId assetNetworkId : Nat)
  (assetSymbol : String)

theorem RawChainDeposit.storable_iff_check (denotes : Decimals.value? raw.amount.toList = some amount)
    (assetNetwork : AssetNetwork) (walletAddress : WalletAddress) :
    RowSpec.check (DepositsService.depositRow now
      (raw.toObserved userId assetNetworkId assetSymbol requiredConfirmations amount) assetNetwork walletAddress) = true ↔
      raw.Storable ∧ 0 ≤ requiredConfirmations := by
  have status : (DepositsService.depositRow now
      (raw.toObserved userId assetNetworkId assetSymbol requiredConfirmations amount) assetNetwork walletAddress).status ≠
      .credited := by
    simp only [DepositsService.depositRow]
    split
    · simp
    · split <;> simp
  simp only [RowSpec.check, Bool.and_eq_true, decide_eq_true_eq, RawChainDeposit.Storable, denotes, Option.some.injEq]
  constructor
  · rintro ⟨⟨positive, deep, required⟩, -⟩
    exact ⟨⟨amount, rfl, positive, deep⟩, required⟩
  · rintro ⟨⟨_, rfl, positive, deep⟩, required⟩
    exact ⟨⟨positive, deep, required⟩, .inr ⟨status, rfl, rfl⟩⟩

theorem RawChainDeposit.refused (denotes : Decimals.value? raw.amount.toList = some amount) (unfit : ¬ raw.Storable)
    {db : Db} (unseen : db.wallet.deposits.find? (DepositsService.isEvent
      (raw.toObserved userId assetNetworkId assetSymbol requiredConfirmations amount)) = none)
    (done : DepositsService.Recorded × Db) :
    (DepositsService.recordObservedTransaction now
      (raw.toObserved userId assetNetworkId assetSymbol requiredConfirmations amount)).run db ≠ .ok done := by
  -- a deposit that is not storable is refused each time it is seen, so the scan that reports it never commits
  intro ran
  simp only [DepositsService.recordObservedTransaction, Tx.run_bind_ok] at ran
  obtain ⟨assetNetwork, _, network, walletAddress, _, address, _, _, read, _, _, written, -⟩ := ran
  obtain ⟨-, rfl⟩ := Tx.run_getOrThrow_ok.mp network
  obtain ⟨-, rfl⟩ := Tx.run_getOrThrow_ok.mp address
  simp only [Tx.run_find?, Except.ok.injEq, Prod.mk.injEq] at read
  obtain ⟨-, rfl⟩ := read
  simp only [DepositsService.upsertDeposit, Tx.run_bind_ok, Tx.run_find?, Db.depositsField_get, unseen, Except.ok.injEq,
    Prod.mk.injEq] at written
  obtain ⟨_, _, ⟨rfl, rfl⟩, inserted⟩ := written
  simp only [Tx.run_bind_ok, Tx.run_create_ok] at inserted
  obtain ⟨_, _, ⟨t, inserted, -⟩, -⟩ := inserted
  exact unfit ((raw.storable_iff_check now userId assetNetworkId assetSymbol denotes assetNetwork walletAddress).mp
    (Table.insert_ok inserted).1).1

end Row

theorem RawChainDeposit.storable_iff (raw : RawChainDeposit) {units : Int} {decimals : Nat}
    (written : raw.amount = rawUnitsToDecimalString units decimals) (deep : 0 ≤ raw.confirmations) :
    raw.Storable ↔ 0 < units := by
  have scale : (0 : ℚ) < 10 ^ decimals := by positivity
  rw [RawChainDeposit.Storable, written, value?_rawUnitsToDecimalString]
  constructor
  · rintro ⟨_, ⟨rfl⟩, positive, -⟩
    exact_mod_cast (div_pos_iff_of_pos_right scale).mp positive
  · intro positive
    exact ⟨_, rfl, div_pos (by exact_mod_cast positive) scale, deep⟩

section Mappers

variable (watched : List WatchedAddress) (owner : WatchedAddress) (current : Int) (decimals : Nat)

theorem mapNativeBlockToDeposits_storable_iff (block : EvmBlock) :
    (∀ raw ∈ mapNativeBlockToDeposits block watched current decimals, raw.Storable) ↔
      ∀ tx ∈ block.transactions, (nativeMatch watched tx).isSome → 0 ≤ tx.value := by
  constructor
  · intro storable tx member found
    obtain ⟨w, found⟩ := Option.isSome_iff_exists.mp found
    by_cases zero : tx.value = 0
    · exact zero.ge
    · have emitted := storable _ (List.mem_filterMap.mpr ⟨tx, member, by
        rw [found]
        exact if_neg zero⟩)
      exact ((RawChainDeposit.storable_iff _ rfl (le_max_right _ _)).mp emitted).le
  · intro values raw emitted
    obtain ⟨tx, member, maps⟩ := List.mem_filterMap.mp emitted
    cases found : nativeMatch watched tx with
    | none => simp [found] at maps
    | some w =>
      by_cases zero : tx.value = 0
      · simp [found, zero] at maps
      · simp only [found, if_neg zero, Option.some.injEq] at maps
        subst maps
        have least := values tx member (by simp [found])
        exact (RawChainDeposit.storable_iff _ rfl (le_max_right _ _)).mpr (by omega)

def TransferTo (log : EvmLog) (expectedContractAddress : String) : Prop :=
  -- the log is a transfer of the expected token to a watched address
  log.removed = false ∧ toLowerCase log.address = toLowerCase expectedContractAddress ∧
    ∃ recipient, log.topics[2]? = some recipient ∧ (byLowercaseAddress watched (topicToAddress recipient)).isSome

theorem mapTransferLogToDeposit_storable_iff (log : EvmLog) (expectedContractAddress : String) :
    (∀ raw, mapTransferLogToDeposit log watched current decimals expectedContractAddress = .ok (some raw) → raw.Storable) ↔
      (TransferTo watched log expectedContractAddress → ∀ units, log.data = some units → 0 < units) := by
  constructor
  · rintro storable ⟨kept, contract, recipient, topic, found⟩ units data
    obtain ⟨w, found⟩ := Option.isSome_iff_exists.mp found
    have emitted := storable _ (by
      rw [mapTransferLogToDeposit, if_neg (by simp [kept]), if_neg (not_not.mpr contract), topic]
      simp only [found, data]
      rfl)
    exact (RawChainDeposit.storable_iff _ rfl (le_max_right _ _)).mp emitted
  · intro values raw emitted
    rw [mapTransferLogToDeposit] at emitted
    split at emitted
    · cases emitted
    · rename_i kept
      split at emitted
      · cases emitted
      · rename_i contract
        split at emitted
        · cases emitted
        · rename_i recipient topic
          split at emitted
          · cases emitted
          · cases emitted
          · rename_i found units at' data
            obtain rfl := Option.some.inj (Except.ok.inj emitted)
            refine (RawChainDeposit.storable_iff _ rfl (le_max_right _ _)).mpr (values ⟨by simpa using kept, not_not.mp contract,
              recipient, topic, by simp [at']⟩ units data)

theorem mapEsploraTxToDeposits_storable_iff (tx : EsploraTx) :
    (∀ raw ∈ mapEsploraTxToDeposits tx owner current, raw.Storable) ↔
      ∀ output ∈ tx.vout, output.scriptpubkeyAddress = some owner.address → 0 < output.value := by
  constructor
  · intro storable output member pays
    obtain ⟨index, inside, rfl⟩ := List.mem_iff_getElem.mp member
    have emitted := storable _ (List.mem_filterMap.mpr
      ⟨(tx.vout[index], index), List.mk_mem_zipIdx_iff_getElem?.mpr (List.getElem?_eq_getElem inside),
        if_neg (not_not.mpr pays)⟩)
    exact (RawChainDeposit.storable_iff _ rfl (le_max_right _ _)).mp emitted
  · intro values raw emitted
    obtain ⟨output, member, maps⟩ := List.mem_filterMap.mp emitted
    by_cases pays : output.1.scriptpubkeyAddress = some owner.address
    · rw [if_neg (not_not.mpr pays)] at maps
      obtain rfl := Option.some.inj maps
      exact (RawChainDeposit.storable_iff _ rfl (le_max_right _ _)).mpr
        (values output.1 (List.fst_mem_of_mem_zipIdx member) pays)
    · rw [if_pos pays] at maps
      cases maps

theorem mapNativeSolTransactionToDeposits_storable (signature : String) (tx : SolanaTransaction)
    {deposits : List RawChainDeposit}
    (mapped : mapNativeSolTransactionToDeposits signature tx watched current decimals = .ok deposits) :
    ∀ raw ∈ deposits, raw.Storable := by
  intro raw emitted
  unfold mapNativeSolTransactionToDeposits at mapped
  split at mapped
  · cases mapped
    cases emitted
  · split at mapped
    · cases mapped
      cases emitted
    · obtain ⟨lists, each, flat⟩ := bind_eq_ok.mp mapped
      cases flat
      obtain ⟨list, among, inside⟩ := List.mem_flatten.mp emitted
      obtain ⟨key, -, done⟩ := origin_of_mapM each among
      split at done
      · cases done
        cases inside
      · split at done
        · split at done
          · cases done
            cases inside
          · rename_i gained
            cases done
            obtain rfl := List.mem_singleton.mp inside
            exact (RawChainDeposit.storable_iff _ rfl (le_max_right _ _)).mpr (by omega)
        · cases done

theorem mapSplTokenTransactionToDeposits_storable (signature : String) (tx : SolanaTransaction) (mint : Option String) :
    ∀ raw ∈ mapSplTokenTransactionToDeposits signature tx watched current mint decimals, raw.Storable := by
  intro raw emitted
  unfold mapSplTokenTransactionToDeposits at emitted
  split at emitted
  · cases emitted
  · split at emitted
    · cases emitted
    · obtain ⟨post, -, maps⟩ := List.mem_filterMap.mp emitted
      split at maps
      · cases maps
      · split at maps
        · cases maps
        · dsimp only at maps
          split at maps
          · cases maps
          · rename_i gained
            obtain rfl := Option.some.inj maps
            exact (RawChainDeposit.storable_iff _ rfl (le_max_right _ _)).mpr (by omega)

theorem mapXrplEntryToDeposit_storable_iff (entry : XrplAccountTxEntry) :
    (∀ raw, mapXrplEntryToDeposit entry owner current decimals = some raw → raw.Storable) ↔
      (entry.transactionType = "Payment" → entry.transactionResult = "tesSUCCESS" → entry.destination = owner.address →
        ∀ units, entry.deliveredAmount.getD entry.amount = .drops units → 0 < units) := by
  have deep : 0 ≤ if entry.validated then max (current - entry.ledgerIndex + 1) 0 else 0 := by
    split
    · exact le_max_right _ _
    · exact le_rfl
  constructor
  · intro storable payment succeeded pays units amount
    have emitted := storable _ (by
      rw [mapXrplEntryToDeposit, if_neg (not_not.mpr payment), if_neg (not_not.mpr succeeded), if_neg (not_not.mpr pays),
        amount])
    exact (RawChainDeposit.storable_iff _ rfl deep).mp emitted
  · intro values raw emitted
    unfold mapXrplEntryToDeposit at emitted
    split at emitted
    · cases emitted
    · rename_i payment
      split at emitted
      · cases emitted
      · rename_i succeeded
        split at emitted
        · cases emitted
        · rename_i pays
          split at emitted
          · cases emitted
          · rename_i units amount
            obtain rfl := Option.some.inj emitted
            exact (RawChainDeposit.storable_iff _ rfl deep).mpr
              (values (not_not.mp payment) (not_not.mp succeeded) (not_not.mp pays) units amount)

/-- A scan is never wedged by native EVM transfers, whose values are unsigned, nor by Solana's; a token transfer, a
Bitcoin output or an XRP payment to a watched address is storable exactly when it moves something. -/
theorem emitted_storable_iff :
    (∀ block : EvmBlock, (∀ raw ∈ mapNativeBlockToDeposits block watched current decimals, raw.Storable) ↔
      ∀ tx ∈ block.transactions, (nativeMatch watched tx).isSome → 0 ≤ tx.value) ∧
    (∀ (log : EvmLog) (expectedContractAddress : String),
      (∀ raw, mapTransferLogToDeposit log watched current decimals expectedContractAddress = .ok (some raw) →
        raw.Storable) ↔
      (TransferTo watched log expectedContractAddress → ∀ units, log.data = some units → 0 < units)) ∧
    (∀ tx : EsploraTx, (∀ raw ∈ mapEsploraTxToDeposits tx owner current, raw.Storable) ↔
      ∀ output ∈ tx.vout, output.scriptpubkeyAddress = some owner.address → 0 < output.value) ∧
    (∀ (signature : String) (tx : SolanaTransaction) (deposits : List RawChainDeposit),
      mapNativeSolTransactionToDeposits signature tx watched current decimals = .ok deposits →
        ∀ raw ∈ deposits, raw.Storable) ∧
    (∀ (signature : String) (tx : SolanaTransaction) (mint : Option String),
      ∀ raw ∈ mapSplTokenTransactionToDeposits signature tx watched current mint decimals, raw.Storable) ∧
    (∀ entry : XrplAccountTxEntry,
      (∀ raw, mapXrplEntryToDeposit entry owner current decimals = some raw → raw.Storable) ↔
      (entry.transactionType = "Payment" → entry.transactionResult = "tesSUCCESS" → entry.destination = owner.address →
        ∀ units, entry.deliveredAmount.getD entry.amount = .drops units → 0 < units)) :=
  ⟨mapNativeBlockToDeposits_storable_iff watched current decimals,
    mapTransferLogToDeposit_storable_iff watched current decimals,
    mapEsploraTxToDeposits_storable_iff owner current,
    fun signature tx _ => mapNativeSolTransactionToDeposits_storable watched current decimals signature tx,
    mapSplTokenTransactionToDeposits_storable watched current decimals,
    mapXrplEntryToDeposit_storable_iff owner current decimals⟩

end Mappers

section Samples

def pooledAddress : WatchedAddress where
  walletAddressId := 1
  address := "0x00000000000000000000000000000000000000aa"
  destinationTag := none

/-- `transferFrom` of nothing, which anybody may call, with the watched address as the recipient. -/
def zeroTransfer : EvmLog where
  address := "0x00000000000000000000000000000000000000cc"
  topics := [ERC20_TRANSFER_TOPIC, "0x00000000000000000000000000000000000000000000000000000000000000bb",
    "0x00000000000000000000000000000000000000000000000000000000000000aa"]
  data := some 0
  blockNumber := 90
  transactionHash := "0x01"
  logIndex := 0
  removed := false

/-- The deposit made of it has the amount "0", and no database that has not seen it takes it. -/
theorem zeroTransfer_wedges : ∃ raw,
    mapTransferLogToDeposit zeroTransfer [pooledAddress] 120 6 zeroTransfer.address = .ok (some raw) ∧
    raw.amount = "0" ∧ ¬ raw.Storable ∧
    ∀ (now : Time) (userId assetNetworkId : Nat) (assetSymbol : String) (requiredConfirmations : Int) (db : Db)
      (done : DepositsService.Recorded × Db),
      db.wallet.deposits.find? (DepositsService.isEvent
        (raw.toObserved userId assetNetworkId assetSymbol requiredConfirmations 0)) = none →
      (DepositsService.recordObservedTransaction now
        (raw.toObserved userId assetNetworkId assetSymbol requiredConfirmations 0)).run db ≠ .ok done := by
  let raw : RawChainDeposit := ⟨1, "0x01", 0, rawUnitsToDecimalString 0 6, 31, none⟩
  have unfit : ¬ raw.Storable := fun storable =>
    absurd ((RawChainDeposit.storable_iff raw rfl (by decide)).mp storable) (by decide)
  have denotes : Decimals.value? raw.amount.toList = some 0 := by
    rw [show raw.amount = rawUnitsToDecimalString 0 6 from rfl, value?_rawUnitsToDecimalString, Int.cast_zero, zero_div]
  exact ⟨raw, by decide +kernel, by decide +kernel, unfit,
    fun now userId assetNetworkId assetSymbol _ _ done unseen =>
      raw.refused now userId assetNetworkId assetSymbol denotes unfit unseen done⟩

end Samples

end VerdictVaut
