import VerdictVaut.System.Rounded
import VerdictVaut.Wallet.CustodyProviders
import VerdictVaut.Wallet.RoundedProgress

set_option autoImplicit false

-- when the watcher credits a withdrawal on an EVM network
namespace VerdictVaut.Rounded

open Relational Relational.Tx Decimals Db WithdrawalsService EvmCustodyProvider

/-- `recordConfirmation`, with nothing between its look at the row and its transaction. -/
def recordConfirmation (config : WalletConfig) (now : Time) (withdrawalId : Nat) (confirmations requiredConfirmations : Int)
    (observedChain : Option ObservedChainTransaction) (db : Db) : Db :=
  if confirmations < requiredConfirmations then commits (recordUnconfirmed withdrawalId) db
  else
    match (verifyConfirmation config withdrawalId observedChain).run db with
    | .ok (true, _) => commits (creditConfirmed now withdrawalId) db
    | _ => db

/-- `checkOne` for a row whose asset network is this one. -/
def checkOne (config : WalletConfig) (network : AssetNetworkContext) (now : Time) (withdrawalId : Nat) (txHash : String)
    (replies : Replies) (requiredConfirmations : Int) (db : Db) : Db :=
  match getTransactionStatus network replies with
  | .error _ => db
  | .ok status =>
    match WithdrawalWatcherService.checkOne txHash status requiredConfirmations with
    | .leave => db
    | .fail reason => commits (WithdrawalsService.fail withdrawalId reason) db
    | .recordConfirmation confirmations required observed =>
      recordConfirmation config now withdrawalId confirmations required (some observed) db

def statusOf (db : Db) (withdrawalId : Nat) : Option WithdrawalStatus :=
  (db.wallet.withdrawals.get? withdrawalId).map Withdrawal.status

section Evidence

variable (config : WalletConfig) (network : AssetNetworkContext) (replies : Replies) (w : Withdrawal)

def Pays (log : EvmLog) : Prop :=
  -- a Transfer log of the asset's contract pays the net amount to the recorded destination
  isTransfer network log = true ∧
    ∃ units topic, log.data = some units ∧ log.topics[2]? = some topic ∧
      unitsToDecimal units network.assetDecimals = w.amount - w.fee ∧
      destinationsMatch config (topicToAddress topic) w.destinationAddress = true

def Proven : Prop :=
  -- the replies prove that the withdrawal has been paid
  ∃ receipt, replies.receipt = some receipt ∧ receipt.status = "0x1" ∧
    if network.isNative then
      ∃ tx recipient, replies.transaction = some tx ∧ tx.recipient = some recipient ∧
        destinationsMatch config recipient w.destinationAddress = true ∧
        unitsToDecimal tx.value network.assetDecimals = w.amount - w.fee
    else ∃ log ∈ receipt.logs, Pays config network w log

/-- What the provider reports of a mined transaction: an amount, and the address that was paid if it can tell. -/
inductive Reports (tx : Transaction) : ℚ → Option String → Prop
  | native (is : network.isNative = true) : Reports tx (unitsToDecimal tx.value network.assetDecimals) tx.recipient
  | noTransfer (is : network.isNative = false) (none_ : transferLog network replies.receipt = none) : Reports tx 0 none
  | token {log : EvmLog} {units : Int} {topic : String} (is : network.isNative = false)
      (found : transferLog network replies.receipt = some log) (data : log.data = some units)
      (paid : log.topics[2]? = some topic) :
      Reports tx (unitsToDecimal units network.assetDecimals) (some (topicToAddress topic))

inductive Unproven (tx : Transaction) : Prop
  -- what the replies leave open
  | noReceipt (none_ : replies.receipt = none)
  | noRecipient (is : network.isNative = true)
      (none_ : tx.recipient = none ∨ tx.recipient = some "" ∧ w.destinationAddress ≠ "")
  | value (is : network.isNative = true) (off : unitsToDecimal tx.value network.assetDecimals ≠ w.amount - w.fee)
  | noTransfer (is : network.isNative = false) (none_ : transferLog network replies.receipt = none)
  | transfer {log : EvmLog} {units : Int} (is : network.isNative = false)
      (found : transferLog network replies.receipt = some log) (data : log.data = some units)
      (off : unitsToDecimal units network.assetDecimals ≠ w.amount - w.fee)
      (others : ∀ receipt, replies.receipt = some receipt → ∀ log ∈ receipt.logs, ¬ Pays config network w log)

structure Due (withdrawalId : Nat) (requiredConfirmations : Int) (db : Db) (tx : Transaction) (amount : ℚ)
    (destination : Option String) : Prop where
  -- all that is looked at before a withdrawal is credited
  status : w.status ∈ [WithdrawalStatus.broadcast, .confirming]
  creditable : CreditableHere db withdrawalId w
  transaction : replies.transaction = some tx
  deep : ∃ blockNumber, tx.blockNumber = some blockNumber ∧
    requiredConfirmations ≤ max (replies.currentBlock - blockNumber + 1) 0
  succeeded : ∀ receipt, replies.receipt = some receipt → receipt.status = "0x1"
  reports : Reports network replies tx amount destination
  destination : ∀ address, destination = some address → address ≠ "" →
    destinationsMatch config address w.destinationAddress = true
  within : |Decimal.minus amount (Decimal.minus w.amount w.fee)| ≤ withdrawalReconcileAmountTolerance

def CreditsOnlyProven (now : Time) (withdrawalId : Nat) (txHash : String) (requiredConfirmations : Int) (db : Db) : Prop :=
  -- a look at the chain makes a withdrawal credited only if the replies prove its payment
  ∀ w, db.wallet.withdrawals.get? withdrawalId = some w → w.status ≠ .credited →
    statusOf (checkOne config network now withdrawalId txHash replies requiredConfirmations db) withdrawalId = some .credited →
      Proven config network replies w

end Evidence

section Provider

variable {network : AssetNetworkContext} {replies : Replies} {tx : Transaction} {status : ChainTransactionStatus}
  {amount : ℚ} {destination : Option String}

theorem getTransactionStatus_mined {blockNumber : Int} (found : replies.transaction = some tx)
    (mined : tx.blockNumber = some blockNumber) (succeeded : ∀ receipt, replies.receipt = some receipt → receipt.status = "0x1")
    (reports : Reports network replies tx amount destination) : getTransactionStatus network replies =
      .ok (report .confirmed (max (replies.currentBlock - blockNumber + 1) 0) amount destination) := by
  have fine : (replies.receipt.any fun receipt => decide (receipt.status ≠ "0x1")) = false := by
    cases received : replies.receipt with
    | none => rfl
    | some receipt => simp [succeeded receipt received]
  unfold getTransactionStatus
  simp only [found, mined, fine, Bool.false_eq_true, if_false]
  cases reports with
  | native is => rw [if_pos is]
  | noTransfer is none_ => simp only [is, Bool.false_eq_true, if_false, none_]
  | token is found data paid => simp only [is, Bool.false_eq_true, if_false, found, data, paid]

theorem getTransactionStatus_confirmed (done : getTransactionStatus network replies = .ok status)
    (confirmed : status.status = .confirmed) : ∃ tx blockNumber amount destination, replies.transaction = some tx ∧
      tx.blockNumber = some blockNumber ∧ (∀ receipt, replies.receipt = some receipt → receipt.status = "0x1") ∧
      Reports network replies tx amount destination ∧
      status = report .confirmed (max (replies.currentBlock - blockNumber + 1) 0) amount destination := by
  -- what is reported as confirmed has been mined, and no receipt says that it failed
  unfold getTransactionStatus at done
  split at done
  next =>
    cases done
    cases confirmed
  next tx found =>
    split at done
    next =>
      cases done
      cases confirmed
    next blockNumber mined =>
      dsimp only at done
      split at done
      next =>
        cases done
        cases confirmed
      next fine =>
        have succeeded : ∀ receipt, replies.receipt = some receipt → receipt.status = "0x1" := by
          intro receipt received
          simpa [received] using fine
        suffices reported : ∃ amount destination, Reports network replies tx amount destination ∧
            status = report .confirmed (max (replies.currentBlock - blockNumber + 1) 0) amount destination by
          obtain ⟨amount, destination, reports, same⟩ := reported
          exact ⟨tx, blockNumber, amount, destination, found, mined, succeeded, reports, same⟩
        split at done
        next native =>
          exact ⟨_, _, .native native, (Except.ok.inj done).symm⟩
        next token =>
          have token : network.isNative = false := by simpa using token
          split at done
          next none_ => exact ⟨_, _, .noTransfer token none_, (Except.ok.inj done).symm⟩
          next log transfer =>
            split at done
            next => cases done
            next => cases done
            next units topic data paid => exact ⟨_, _, .token token transfer data paid, (Except.ok.inj done).symm⟩

theorem getTransactionStatus_pending (done : getTransactionStatus network replies = .ok status)
    (pending : status.status = .pending) : status.confirmations = 0 := by
  unfold getTransactionStatus at done
  split at done
  next =>
    cases done
    rfl
  next tx found =>
    split at done
    next =>
      cases done
      rfl
    next blockNumber mined =>
      -- a mined transaction is reported as failed or confirmed
      grind [report]

end Provider

section Crediting

variable {db db' : Db} {now : Time} {withdrawalId : Nat} {count : Bool} {w : Withdrawal}

theorem creditConfirmed_status (done : (creditConfirmed now withdrawalId).run db = .ok (count, db')) :
    (count = false ∧ db' = db) ∨ (count = true ∧ statusOf db' withdrawalId = some .credited) := by
  simp only [creditConfirmed, run_bind_ok] at done
  obtain ⟨picked, _, ran, rest⟩ := done
  rcases run_updateMany_ok ran with ⟨rfl, rfl, -⟩ | ⟨rfl, old, t, found, allowed, updated, rfl⟩
  · simp only [Bool.false_eq_true, if_false, run_bind_ok, run_getOrThrow_ok, run_pure, Except.ok.injEq,
      Prod.mk.injEq] at rest
    obtain ⟨_, _, ⟨-, rfl⟩, rfl, rfl⟩ := rest
    exact .inl ⟨rfl, rfl⟩
  · simp only [if_true, run_bind_ok, run_update_ok, run_pure, Except.ok.injEq, Prod.mk.injEq] at rest
    obtain ⟨row, _, -, assetNetwork, _, -, _, _, -, asset, _, -, _, _, -, _, _, -, current, _, -, _, _, ⟨t', updated', rfl⟩, rfl, rfl⟩ := rest
    have wrote := Table.Wrote.of_update updated'
    refine .inr ⟨rfl, ?_⟩
    simp only [statusOf, withdrawalsField_set, wrote.get, Option.map_some]

theorem creditConfirmed_old (done : (creditConfirmed now withdrawalId).run db = .ok (true, db')) :
    ∃ old, db.wallet.withdrawals.get? withdrawalId = some old ∧ old.status ∈ [WithdrawalStatus.broadcast, .confirming] := by
  simp only [creditConfirmed, run_bind_ok] at done
  obtain ⟨picked, _, ran, rest⟩ := done
  rcases run_updateMany_ok ran with ⟨rfl, rfl, -⟩ | ⟨rfl, old, t, found, allowed, updated, rfl⟩
  · simp [run_bind_ok] at rest
  · exact ⟨old, found, by simpa [statusIn] using allowed⟩

theorem status_of_changed {operation : Operation} {old new : Withdrawal} {funds : Funds}
    (changed : Changed operation db db' withdrawalId old new funds) : statusOf db' withdrawalId = some new.status := by
  obtain ⟨t, l, rfl, wrote, -⟩ := changed.result
  simp only [statusOf, wrote.get, Option.map_some]

theorem commits_uncredited {α : Type} {body : Tx Db Fault α} (uncredited : statusOf db withdrawalId ≠ some .credited)
    (kept : ∀ a db', body.run db = .ok (a, db') → db' = db ∨ statusOf db' withdrawalId ≠ some .credited) :
    statusOf (commits body db) withdrawalId ≠ some .credited := by
  rcases commit_cases (runTransaction ledgerField body) db with same | ⟨a, ran⟩
  · rwa [commits, same]
  · rcases kept a _ (runTransaction_ok ran) with same | other
    · rwa [commits, same]
    · exact other

theorem recordUnconfirmed_uncredited (uncredited : statusOf db withdrawalId ≠ some .credited) :
    statusOf (commits (recordUnconfirmed withdrawalId) db) withdrawalId ≠ some .credited := by
  apply commits_uncredited uncredited
  intro a db' ran
  rcases recordUnconfirmed_ok ran with same | ⟨old, new, changed⟩
  · exact .inl same
  · refine .inr ?_
    rw [status_of_changed changed]
    cases changed.moves
    simp

theorem fail_uncredited {reason : String} (uncredited : statusOf db withdrawalId ≠ some .credited) :
    statusOf (commits (WithdrawalsService.fail withdrawalId reason) db) withdrawalId ≠ some .credited := by
  apply commits_uncredited uncredited
  intro a db' ran
  obtain ⟨old, new, changed⟩ := fail_ok ran
  refine .inr ?_
  rw [status_of_changed changed]
  cases changed.moves
  simp

theorem commits_creditConfirmed (uncredited : statusOf db withdrawalId ≠ some .credited) :
    statusOf (commits (creditConfirmed now withdrawalId) db) withdrawalId = some .credited ↔
      ∃ db', (runTransaction ledgerField (creditConfirmed now withdrawalId)).run db = .ok (true, db') := by
  -- a withdrawal that is not credited yet becomes so if its transaction commits with something to write
  unfold commits commit
  cases ran : (runTransaction ledgerField (creditConfirmed now withdrawalId)).run db with
  | error e => simp [uncredited]
  | ok pair =>
    obtain ⟨count, db'⟩ := pair
    rcases creditConfirmed_status (runTransaction_ok ran) with ⟨rfl, rfl⟩ | ⟨rfl, credited⟩
    · simp [uncredited]
    · simp [credited]

theorem verifyConfirmation_run {config : WalletConfig} {chain : ObservedChainTransaction}
    (found : db.wallet.withdrawals.get? withdrawalId = some w) (picked : w.status ∈ [WithdrawalStatus.broadcast, .confirming]) :
    (verifyConfirmation config withdrawalId (some chain)).run db = .ok ((findChainMismatch config w chain).isNone, db) := by
  have read : (getWithdrawal withdrawalId).run db = .ok (w, db) := by
    simp [getWithdrawal, run_bind_of_ok (run_read _ _), found]
  have selected : statusIn [.broadcast, .confirming] w = true := by simpa [statusIn] using picked
  unfold verifyConfirmation
  rw [run_bind_of_ok read, if_pos selected, run_pure]

theorem recordConfirmation_credited {config : WalletConfig} {confirmations requiredConfirmations : Int}
    {chain : ObservedChainTransaction} (found : db.wallet.withdrawals.get? withdrawalId = some w)
    (uncredited : w.status ≠ .credited) :
    statusOf (recordConfirmation config now withdrawalId confirmations requiredConfirmations (some chain) db) withdrawalId =
        some .credited ↔
      requiredConfirmations ≤ confirmations ∧ w.status ∈ [WithdrawalStatus.broadcast, .confirming] ∧
        findChainMismatch config w chain = none ∧ CreditableHere db withdrawalId w := by
  have before : statusOf db withdrawalId ≠ some .credited := by simpa [statusOf, found] using uncredited
  unfold recordConfirmation
  split
  next early =>
    constructor
    · intro credited
      exact absurd credited (recordUnconfirmed_uncredited before)
    · rintro ⟨deep, -⟩
      omega
  next deep =>
    by_cases picked : w.status ∈ [WithdrawalStatus.broadcast, .confirming]
    · rw [verifyConfirmation_run found picked]
      cases looked : findChainMismatch config w chain with
      | none => simpa [commits_creditConfirmed before, creditConfirmed_commits_iff found picked, picked] using
          fun _ => Int.not_lt.mp deep
      | some mismatch => simp [before]
    · -- the look passes every other status, and the transaction then selects no row
      constructor
      · intro credited
        exfalso
        split at credited
        next =>
          obtain ⟨db', ran⟩ := (commits_creditConfirmed before).mp credited
          obtain ⟨old, found', allowed⟩ := creditConfirmed_old (runTransaction_ok ran)
          rw [found] at found'
          cases found'
          exact picked allowed
        next => exact before credited
      · rintro ⟨-, allowed, -⟩
        exact absurd allowed picked

end Crediting

section Decision

variable {config : WalletConfig} {network : AssetNetworkContext} {replies : Replies} {w : Withdrawal} {db : Db} {now : Time}
  {withdrawalId : Nat} {txHash : String} {requiredConfirmations : Int} {tx : Transaction} {amount : ℚ}
  {destination : Option String}

theorem findChainMismatch_report {status : ChainStatus} {confirmations : Int} :
    findChainMismatch config w (report status confirmations amount destination).toObservedChainTransaction = none ↔
      (∀ address, destination = some address → address ≠ "" → destinationsMatch config address w.destinationAddress = true) ∧
        |Decimal.minus amount (Decimal.minus w.amount w.fee)| ≤ withdrawalReconcileAmountTolerance := by
  unfold findChainMismatch
  cases destination with
  | none => simp [report, observedAmount]
  | some address =>
    by_cases passes : address ≠ "" → destinationsMatch config address w.destinationAddress = true
    · have fine : ((some address).any fun address =>
          decide (address ≠ "") && !destinationsMatch config address w.destinationAddress) = false := by
        simpa using passes
      simp only [report, fine, Bool.false_eq_true, if_false, observedAmount]
      simpa using fun _ => passes
    · have stops : ((some address).any fun address =>
          decide (address ≠ "") && !destinationsMatch config address w.destinationAddress) = true := by
        simpa using passes
      simp only [report, stops, if_true]
      simp [passes]

theorem checkOne_credited (positive : 1 ≤ requiredConfirmations) (found : db.wallet.withdrawals.get? withdrawalId = some w)
    (uncredited : w.status ≠ .credited) :
    statusOf (checkOne config network now withdrawalId txHash replies requiredConfirmations db) withdrawalId = some .credited ↔
      ∃ tx amount destination, Due config network replies w withdrawalId requiredConfirmations db tx amount destination := by
  have before : statusOf db withdrawalId ≠ some .credited := by simpa [statusOf, found] using uncredited
  constructor
  · intro credited
    unfold checkOne at credited
    split at credited
    next => exact absurd credited before
    next status reported =>
      cases kind : status.status with
      | notFound =>
        simp only [WithdrawalWatcherService.checkOne, kind] at credited
        exact absurd credited before
      | failed =>
        simp only [WithdrawalWatcherService.checkOne, kind] at credited
        exact absurd credited (fail_uncredited before)
      | pending =>
        simp only [WithdrawalWatcherService.checkOne, kind] at credited
        have none_ := getTransactionStatus_pending reported kind
        obtain ⟨deep, -⟩ := (recordConfirmation_credited found uncredited).mp credited
        omega
      | confirmed =>
        simp only [WithdrawalWatcherService.checkOne, kind] at credited
        obtain ⟨tx, blockNumber, amount, destination, found', mined, succeeded, reports, rfl⟩ :=
          getTransactionStatus_confirmed reported kind
        obtain ⟨deep, picked, matched, creditable⟩ := (recordConfirmation_credited found uncredited).mp credited
        obtain ⟨paid, within⟩ := findChainMismatch_report.mp matched
        exact ⟨tx, amount, destination, picked, creditable, found', ⟨blockNumber, mined, deep⟩, succeeded, reports, paid, within⟩
  · rintro ⟨tx, amount, destination, due⟩
    obtain ⟨blockNumber, mined, deep⟩ := due.deep
    unfold checkOne
    rw [getTransactionStatus_mined due.transaction mined due.succeeded due.reports]
    exact (recordConfirmation_credited found uncredited).mpr
      ⟨deep, due.status, findChainMismatch_report.mpr ⟨due.destination, due.within⟩, due.creditable⟩

theorem destinationsMatch_empty {recorded : String} (matched : destinationsMatch config "" recorded = true) :
    recorded = "" := by
  have plain : destinationsMatch config "" recorded = decide ("" = recorded) := if_neg (by simp [isBech32])
  rw [plain] at matched
  exact (of_decide_eq_true matched).symm

theorem topicToAddress_ne_empty (topic : String) : topicToAddress topic ≠ "" := by
  intro empty
  have letters := congrArg String.toList empty
  simp [topicToAddress, VerdictVaut.toLowerCase] at letters

theorem Due.proven_iff (due : Due config network replies w withdrawalId requiredConfirmations db tx amount destination) :
    Proven config network replies w ↔ ¬ Unproven config network replies w tx := by
  -- what is paid for and credited is proven, apart from what the replies leave open
  constructor
  · rintro ⟨receipt, received, succeeded, paid⟩ left
    cases left with
    | noReceipt none_ => simp [received] at none_
    | noRecipient is none_ =>
      rw [if_pos is] at paid
      obtain ⟨tx', recipient, transaction, recipient_, matched, -⟩ := paid
      rw [due.transaction] at transaction
      cases transaction
      rcases none_ with none_ | ⟨empty, other⟩
      · simp [none_] at recipient_
      · rw [empty] at recipient_
        cases recipient_
        exact other (destinationsMatch_empty matched)
    | value is off =>
      rw [if_pos is] at paid
      obtain ⟨tx', recipient, transaction, -, -, exact_⟩ := paid
      rw [due.transaction] at transaction
      cases transaction
      exact off exact_
    | noTransfer is none_ =>
      simp only [is, Bool.false_eq_true, if_false] at paid
      obtain ⟨log, inside, transfer, -⟩ := paid
      simp only [transferLog, received, Option.bind_some, List.find?_eq_none] at none_
      exact none_ log inside transfer
    | transfer is found data off others =>
      simp only [is, Bool.false_eq_true, if_false] at paid
      obtain ⟨log, inside, pays⟩ := paid
      exact others receipt received log inside pays
  · intro closed
    cases received : replies.receipt with
    | none => exact absurd (.noReceipt received) closed
    | some receipt =>
      refine ⟨receipt, received, due.succeeded receipt received, ?_⟩
      have paid := due.destination
      cases due.reports with
      | native is =>
        rw [if_pos is]
        cases recipient_ : tx.recipient with
        | none => exact absurd (.noRecipient is (.inl recipient_)) closed
        | some recipient =>
          refine ⟨tx, recipient, due.transaction, recipient_, ?_, ?_⟩
          · by_cases empty : recipient = ""
            · by_cases same : w.destinationAddress = ""
              · simp [empty, same, destinationsMatch]
              · exact absurd (.noRecipient is (.inr ⟨by rw [recipient_, empty], same⟩)) closed
            · exact paid recipient recipient_ empty
          · by_contra off
            exact closed (.value is off)
      | noTransfer is none_ => exact absurd (.noTransfer is none_) closed
      | @token log units topic is found data topic_ =>
        simp only [is, Bool.false_eq_true, if_false]
        by_cases pays : ∃ log ∈ receipt.logs, Pays config network w log
        · exact pays
        · have inside := List.mem_of_find?_eq_some (by simpa [transferLog, received] using found)
          have transfer := List.find?_some (by simpa [transferLog, received] using found)
          refine absurd (.transfer is found data ?_ ?_) closed
          · intro exact_
            exact pays ⟨log, inside, transfer, units, topic, data, topic_, exact_,
              paid _ rfl (topicToAddress_ne_empty topic)⟩
          · intro receipt' received' log inside pay
            rw [received] at received'
            cases received'
            exact pays ⟨log, inside, pay⟩

/-- A look at the chain credits only what is proven, exactly if nothing is open where all that is looked at is fine. -/
theorem creditsOnlyProven_iff (config : WalletConfig) (network : AssetNetworkContext) (replies : Replies) (now : Time)
    (withdrawalId : Nat) (txHash : String) (requiredConfirmations : Int) (positive : 1 ≤ requiredConfirmations) (db : Db) :
    CreditsOnlyProven config network replies now withdrawalId txHash requiredConfirmations db ↔
      ∀ w tx amount destination, db.wallet.withdrawals.get? withdrawalId = some w →
        Due config network replies w withdrawalId requiredConfirmations db tx amount destination →
          ¬ Unproven config network replies w tx := by
  constructor
  · intro only w tx amount destination found due
    have uncredited : w.status ≠ .credited := by
      intro credited
      simpa [credited] using due.status
    apply due.proven_iff.mp
    apply only w found uncredited
    exact (checkOne_credited positive found uncredited).mpr ⟨tx, amount, destination, due⟩
  · intro closed w found uncredited credited
    obtain ⟨tx, amount, destination, due⟩ := (checkOne_credited positive found uncredited).mp credited
    exact due.proven_iff.mpr (closed w tx amount destination found due)

end Decision

section Sample

def nativeNetwork : AssetNetworkContext where
  assetDecimals := 18
  contractAddress := none
  isNative := true

/-- A transaction that pays 2 to `0xc`, deep enough. -/
def replying (receipt : Option Receipt) : Replies where
  transaction := some { recipient := some "0xc", value := 2 * 10 ^ 18, blockNumber := some 100 }
  currentBlock := 111
  receipt := receipt

/-- Without a receipt it is credited all the same. -/
theorem withoutReceipt_credited : ¬ CreditsOnlyProven WalletConfig.sample nativeNetwork (replying none) 0 0 "0xd" 12
    (after (deposited "0x1" 5 :: withdrawn 2)) := by
  intro only
  have broadcast : statusOf (after (deposited "0x1" 5 :: withdrawn 2)) 0 = some .broadcast := by decide +kernel
  have credited : statusOf (checkOne WalletConfig.sample nativeNetwork 0 0 "0xd" (replying none) 12
      (after (deposited "0x1" 5 :: withdrawn 2))) 0 = some .credited := by
    decide +kernel
  obtain ⟨w, found, status⟩ := Option.map_eq_some_iff.mp broadcast
  obtain ⟨receipt, received, -⟩ := only w found (by simp [status]) credited
  cases received

theorem withReceipt_proven : CreditsOnlyProven WalletConfig.sample nativeNetwork
    (replying (some { status := "0x1", logs := [] })) 0 0 "0xd" 12 (after (deposited "0x1" 5 :: withdrawn 2)) := by
  apply (creditsOnlyProven_iff _ _ _ 0 0 "0xd" 12 (by decide) _).mpr
  intro w tx amount destination found due left
  have net : ((after (deposited "0x1" 5 :: withdrawn 2)).wallet.withdrawals.get? 0).map (fun w => w.amount - w.fee) =
      some 2 := by
    decide +kernel
  have net : w.amount - w.fee = 2 := by simpa [found] using net
  have sent := due.transaction
  cases sent
  cases left with
  | noReceipt none_ => cases none_
  | noRecipient is none_ => simp at none_
  | value is off => exact off (by rw [net]; norm_num [unitsToDecimal, nativeNetwork])
  | noTransfer is | transfer is => cases is

end Sample

end VerdictVaut.Rounded
