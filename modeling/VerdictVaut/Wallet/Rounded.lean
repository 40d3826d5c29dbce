import VerdictVaut.Ledger.Rounded
import VerdictVaut.Wallet.Transitions

set_option autoImplicit false

-- crediting and confirming with the rounding of `Prisma.Decimal` and of the columns
namespace VerdictVaut.Rounded

open Relational Relational.Tx Decimals Db DepositsService WithdrawalsService

section Deposits

def upsertDeposit (now : Time) (input : ObservedTransactionInput) (assetNetwork : AssetNetwork)
    (walletAddress : WalletAddress) : Tx Db Fault (Nat × Deposit) := do
  match ← find? depositsField (isEvent input) with
  | some (depositId, existing) => do
    let row := { existing with
      confirmations := input.confirmations
      destinationTag := input.destinationTag.or existing.destinationTag
      lastCheckedAt := some now }
    update depositsField depositId row
    pure (depositId, row)
  | none => do
    let amount ← write input.amount
    let row := depositRow now { input with amount := amount } assetNetwork walletAddress
    let depositId ← create depositsField row
    pure (depositId, row)

def creditDeposit (now : Time) (depositId userId : Nat) (amount : ℚ) (assetSymbol : String) : Tx Db Fault Bool := do
  let result ← zoom ledgerField (postTransaction (creditInput depositId userId amount assetSymbol))
  let statusUpdate ← updateMany depositsField depositId (fun deposit => decide (deposit.status ≠ .credited))
    fun deposit => { deposit with
      status := .credited
      creditedAt := some now
      ledgerTransactionId := some result.transactionId }
  if result.alreadyPosted then pure false else pure statusUpdate

def creditWhenFinal (now : Time) (input : ObservedTransactionInput) (assetNetwork : AssetNetwork)
    (walletAddress : WalletAddress) (depositId : Nat) (upserted : Deposit) : Tx Db Fault Bool :=
  if input.isConfirmed && tagValid input assetNetwork walletAddress then
    creditDeposit now depositId upserted.userId upserted.amount input.assetSymbol
  else pure false

def recordObservedTransaction (now : Time) (input : ObservedTransactionInput) : Tx Db Fault Recorded := do
  let assetNetwork ← getOrThrow assetNetworksField input.assetNetworkId
  let walletAddress ← getOrThrow walletAddressesField input.walletAddressId
  let previous ← find? depositsField (isEvent input)
  let (depositId, upserted) ← upsertDeposit now input assetNetwork walletAddress
  advanceDeposit now input assetNetwork walletAddress depositId upserted
  let justCredited ← creditWhenFinal now input assetNetwork walletAddress depositId upserted
  let deposit ← getOrThrow depositsField depositId
  pure
    { depositId := depositId
      deposit := deposit
      justCredited := justCredited
      justFailed := !tagValid input assetNetwork walletAddress &&
        decide (previous.map (fun found => found.2.status) ≠ some .failed) }

end Deposits

section Withdrawals

def recentAmounts (db : Db) (userId assetId : Nat) (since : Time) : List ℚ :=
  -- the amounts that count against the daily limit
  (db.wallet.withdrawals.rows.filter fun w => decide (w.userId = userId) &&
    ((db.wallet.assetNetworks.get? w.assetNetworkId).any fun route => decide (route.assetId = assetId)) &&
    decide (w.status ∉ [WithdrawalStatus.rejected, .failed, .cancelled]) && decide (since ≤ w.createdAt)).map
    Withdrawal.amount

def checkDailyLimit (now : Time) (prepared : Prepared) : Tx Db Fault Unit := do
  let riskLimit ← read fun db =>
    (db.core.riskLimits.find? fun limit => decide (limit.userId = prepared.userId)).map Prod.snd
  match riskLimit.bind RiskLimit.maxDailyWithdrawal with
  | none => pure ()
  | some limit => do
    let requested ← read fun db => sumAmounts (recentAmounts db prepared.userId prepared.assetId (now - dayMs))
    throwIf (limit < Decimal.plus requested prepared.amount)
      (.dailyLimitExceeded limit prepared.assetSymbol requested)

/-- `request`'s transaction. -/
def chargedRequest (now : Time) (prepared : Prepared) : Tx Db Fault Nat := do
  let (withdrawalId, alreadyExisted) ← createIdempotent "clientWithdrawalId"
    (do
      checkDailyLimit now prepared
      let amount ← write prepared.amount
      let fee ← write prepared.fee
      create withdrawalsField (withdrawalRow now { prepared with amount := amount, fee := fee }))
    (do
      let (i, _) ← findOrThrow withdrawalsField fun w =>
        decide (w.userId = prepared.userId) && decide (w.clientWithdrawalId = prepared.clientWithdrawalId)
      pure i)
    (.staleSnapshotConflict "clientWithdrawalId")
  if alreadyExisted then do
    let created ← getOrThrow withdrawalsField withdrawalId
    throwIf (¬ prepared.matchesRow created) (.conflict
      "clientWithdrawalId was already used for a different withdrawal; use a new clientWithdrawalId for a new withdrawal.")
    pure withdrawalId
  else do
    let _ ← zoom ledgerField (reserve (reservation prepared withdrawalId))
    let created ← getOrThrow withdrawalsField withdrawalId
    update withdrawalsField withdrawalId { created with status := .riskReview }
    pure withdrawalId

def request (now : Time) (prepared : Prepared) : Tx Db Fault Nat :=
  -- the same under the calculator that charges nothing
  chargedRequest now { prepared with fee := 0 }

namespace Withdrawals

def releaseFunds (withdrawalId : Nat) : Tx Db Fault Unit := zoom fundsField (releaseByReference .withdrawal withdrawalId)

def cancel (userId withdrawalId : Nat) : Tx Db Fault Withdrawal := do
  let owned ← getWithdrawal withdrawalId
  throwIf (owned.userId ≠ userId) (.notFound "Withdrawal not found")
  let result ← casTransition withdrawalId [.requested, .riskReview] fun w => { w with status := .cancelled }
  releaseFunds withdrawalId
  pure result

def releaseReservation (withdrawalId : Nat) (reason : String) (terminalStatus : WithdrawalStatus)
    (allowedFrom : List WithdrawalStatus) : Tx Db Fault Withdrawal := do
  let withdrawal ← casTransition withdrawalId allowedFrom fun w =>
    { w with status := terminalStatus, failureReason := some reason }
  releaseFunds withdrawalId
  pure withdrawal

def reject (withdrawalId : Nat) (reason : String) (actorId : Nat) : Tx Db Fault Withdrawal := do
  assertSuperAdmin actorId
  releaseReservation withdrawalId reason .rejected [.requested, .riskReview, .approved]

def fail (withdrawalId : Nat) (reason : String) : Tx Db Fault Withdrawal :=
  releaseReservation withdrawalId reason .failed
    [.approved, .pendingManualBroadcast, .broadcasting, .broadcast, .confirming]

def failProviderRejectedSubmission (withdrawalId : Nat) (reason : String) : Tx Db Fault Bool := do
  let count ← updateMany withdrawalsField withdrawalId
    (statusIn [.approved, .pendingManualBroadcast, .broadcasting])
    fun w => { w with status := .failed, failureReason := some reason }
  if count then do
    releaseFunds withdrawalId
    pure true
  else pure false

end Withdrawals

def captureFunds (withdrawalId : Nat) : Tx Db Fault Unit := do
  match ← zoom fundsField (Reserved.findActiveByReference .withdrawal withdrawalId) with
  | some (reservationId, _) => do
    let _ ← zoom fundsField (capture reservationId)
    pure ()
  | none => pure ()

def capturePostings (w : Withdrawal) : List Ledger.Posting :=
  [{ account := .user w.userId, amount := -w.amount },
    { account := .house .externalChain, amount := Decimal.minus w.amount w.fee }] ++
    if w.fee = 0 then [] else [{ account := .house .feeRevenue, amount := w.fee }]

def captureInput (withdrawalId : Nat) (w : Withdrawal) (assetSymbol : String) : Ledger.PostTransactionInput where
  assetSymbol := assetSymbol
  type := .withdrawal
  referenceType := .withdrawal
  referenceId := withdrawalId
  idempotencyKey := ⟨"withdrawal-capture", [withdrawalId]⟩
  postings := capturePostings w

/-- `recordConfirmation`'s transaction once there are enough confirmations. -/
def creditConfirmed (now : Time) (withdrawalId : Nat) : Tx Db Fault Bool := do
  let count ← updateMany withdrawalsField withdrawalId (statusIn [.broadcast, .confirming])
    fun w => { w with status := .confirmed, confirmedAt := some now }
  if count then do
    let w ← getOrThrow withdrawalsField withdrawalId
    let assetNetwork ← getOrThrow assetNetworksField w.assetNetworkId
    let asset ← read fun db => db.core.ledger.assets.get? assetNetwork.assetId
    let asset ← orThrow asset (.db .recordNotFound)
    captureFunds withdrawalId
    let _ ← zoom ledgerField (postTransaction (captureInput withdrawalId w asset.symbol))
    let current ← getOrThrow withdrawalsField withdrawalId
    update withdrawalsField withdrawalId { current with status := .credited }
    pure true
  else do
    let _ ← getOrThrow withdrawalsField withdrawalId
    pure false

end Withdrawals

section Effects

def creditedDeposit (db : Db) (input : ObservedTransactionInput) : Nat × Nat × ℚ :=
  -- the deposit that a report is about, with the user and the amount that its row has or is given
  match db.wallet.deposits.find? (isEvent input) with
  | some (depositId, deposit) => (depositId, deposit.userId, deposit.amount)
  | none => (db.wallet.deposits.size, input.userId, Decimal.column input.amount)

def BalancesFit (l : Ledger) (assetSymbol : String) (userId : Nat) (amount : ℚ) : Prop :=
  -- both balances that the transfer leads to have few enough digits
  ∀ assetId row, l.assets.find? (fun asset => decide (asset.symbol = assetSymbol)) = some (assetId, row) →
    Significant Decimal.PRECISION (Ledger.balanceOf l (.user userId) assetId + amount) ∧
    Significant Decimal.PRECISION (Ledger.balanceOf l (.house .externalChain) assetId - amount)

instance (l : Ledger) (assetSymbol : String) (userId : Nat) (amount : ℚ) :
    Decidable (BalancesFit l assetSymbol userId amount) :=
  decidable_of_iff
    (∀ found ∈ l.assets.find? (fun asset => decide (asset.symbol = assetSymbol)),
      Significant Decimal.PRECISION (Ledger.balanceOf l (.user userId) found.1 + amount) ∧
      Significant Decimal.PRECISION (Ledger.balanceOf l (.house .externalChain) found.1 - amount))
    (by simp [BalancesFit])

def CreditFits (db : Db) (input : ObservedTransactionInput) : Prop :=
  -- what a report credits fits; an amount that is too long itself is refused
  Qualifies db.wallet input →
    (∀ t ∈ db.core.ledger.transactions.rows, t.idempotencyKey ≠ ⟨"deposit", [(creditedDeposit db input).1]⟩) →
    Significant Decimal.PRECISION (creditedDeposit db input).2.2 →
      BalancesFit db.core.ledger input.assetSymbol (creditedDeposit db input).2.1 (creditedDeposit db input).2.2

def ConfirmFits (db : Db) (withdrawalId : Nat) : Prop :=
  -- what is confirmed is not too long itself, and fits
  ∀ w, db.wallet.withdrawals.get? withdrawalId = some w → w.status ∈ [WithdrawalStatus.broadcast, .confirming] →
    Significant Decimal.PRECISION w.amount ∧
    ∀ assetNetwork, db.wallet.assetNetworks.get? w.assetNetworkId = some assetNetwork →
      ∀ asset, db.core.ledger.assets.get? assetNetwork.assetId = some asset →
        BalancesFit db.core.ledger asset.symbol w.userId (-w.amount)

instance (db : Db) (withdrawalId : Nat) : Decidable (ConfirmFits db withdrawalId) :=
  decidable_of_iff
    (∀ w ∈ db.wallet.withdrawals.get? withdrawalId, w.status ∈ [WithdrawalStatus.broadcast, .confirming] →
      Significant Decimal.PRECISION w.amount ∧
      ∀ assetNetwork ∈ db.wallet.assetNetworks.get? w.assetNetworkId,
        ∀ asset ∈ db.core.ledger.assets.get? assetNetwork.assetId,
          BalancesFit db.core.ledger asset.symbol w.userId (-w.amount))
    Iff.rfl

structure Sound (db : Db) : Prop where
  kept : Kept db.core.ledger
  deposits : ∀ i row, db.wallet.deposits.get? i = some row → Places Decimal.SCALE row.amount
  withdrawals : ∀ i w, db.wallet.withdrawals.get? i = some w → Places Decimal.SCALE w.amount ∧ w.fee = 0

theorem rows_of_wrote {α : Type} [RowSpec α] {P : α → Prop} {t t' : Table α} {i : Nat} {row : α}
    (wrote : Table.Wrote t t' i row) (before : ∀ j r, t.get? j = some r → P r) (now : P row) :
    ∀ j r, t'.get? j = some r → P r := by
  intro j r found
  rw [wrote j] at found
  split at found
  · cases found
    exact now
  · exact before j r found

section Crediting

variable {db db' : Db} {now : Time} {input : ObservedTransactionInput} {assetNetwork : AssetNetwork}
  {walletAddress : WalletAddress} {depositId : Nat} {upserted : Deposit}

theorem upsertDeposit_ok
    (done : (upsertDeposit now input assetNetwork walletAddress).run db = .ok ((depositId, upserted), db')) :
    (depositId, upserted.userId, upserted.amount) = creditedDeposit db input ∧
      ∃ t, db' = { db with wallet := { db.wallet with deposits := t } } ∧
        Table.Wrote db.wallet.deposits t depositId upserted ∧
        (Places Decimal.SCALE upserted.amount ∨
          ∃ e, db.wallet.deposits.get? depositId = some e ∧ upserted.amount = e.amount) := by
  unfold upsertDeposit at done
  rw [run_bind_of_ok run_find?, depositsField_get] at done
  unfold creditedDeposit
  cases found : db.wallet.deposits.find? (isEvent input) with
  | none =>
    simp only [found, run_bind_ok, run_write_ok, run_create_ok, run_pure, depositsField_get, depositsField_set] at done
    obtain ⟨_, _, ⟨-, rfl, rfl⟩, _, _, ⟨t, inserted, rfl, rfl⟩, same⟩ := done
    cases same
    exact ⟨rfl, t, rfl, .of_insert inserted, .inl (Places.toPlaces _)⟩
  | some pair =>
    obtain ⟨i, e⟩ := pair
    obtain ⟨position, -⟩ := Table.find?_some found
    simp only [found, run_bind_ok, run_update_ok, run_pure, depositsField_get, depositsField_set] at done
    obtain ⟨_, _, ⟨t, updated, rfl⟩, same⟩ := done
    cases same
    exact ⟨rfl, t, rfl, .of_update updated, .inr ⟨e, position, rfl⟩⟩

theorem creditDeposit_ok {userId : Nat} {amount : ℚ} {assetSymbol : String} {credited : Bool} {before : Deposit}
    (done : (creditDeposit now depositId userId amount assetSymbol).run db = .ok (credited, db'))
    (found : db.wallet.deposits.get? depositId = some before) :
    ∃ t l posted row, db' = { core := { db.core with ledger := l }, wallet := { db.wallet with deposits := t } } ∧
      (postTransaction (creditInput depositId userId amount assetSymbol)).run db.core.ledger = .ok (posted, l) ∧
      Table.Wrote db.wallet.deposits t depositId row ∧ row.amount = before.amount := by
  simp only [creditDeposit, run_bind_ok, run_zoom_ok, ledgerField_get, ledgerField_set] at done
  obtain ⟨posted, _, ⟨l, ran, rfl⟩, count, _, updated, rest⟩ := done
  have same : ∀ {s : Db}, (if posted.alreadyPosted = true then pure false else pure count : Tx Db Fault Bool).run s =
      .ok (credited, db') → s = db' := by
    intro s ended
    rw [run_ite] at ended
    split at ended <;> simp only [run_pure, Except.ok.injEq, Prod.mk.injEq] at ended <;> exact ended.2
  rcases run_updateMany_wrote updated found with ⟨-, rfl, -⟩ | ⟨-, -, t, rfl, wrote⟩
  · obtain rfl := same rest
    exact ⟨_, l, posted, before, rfl, ran, .refl found, rfl⟩
  · obtain rfl := same rest
    exact ⟨t, l, posted, _, rfl, ran, wrote, rfl⟩

theorem creditInput_exact {l : Ledger} {depositId userId : Nat} {amount : ℚ} {assetSymbol : String}
    (stored : Places Decimal.SCALE amount)
    (fit : (∀ t ∈ l.transactions.rows, t.idempotencyKey ≠ ⟨"deposit", [depositId]⟩) →
      Significant Decimal.PRECISION amount → BalancesFit l assetSymbol userId amount)
    (zero : sumAmounts ((creditInput depositId userId amount assetSymbol).postings.map Ledger.Posting.amount) = 0) :
    Exact l (creditInput depositId userId amount assetSymbol) := by
  -- a credit of a short enough amount is rounded nowhere where both balances fit; any other is refused
  have few : Significant Decimal.PRECISION amount := by
    simp only [creditInput, sumAmounts, List.map_cons, List.map_nil, List.foldl_cons, List.foldl_nil, Decimal.plus,
      zero_add] at zero
    have same := (toSignificant_eq_zero_iff (by decide)).mp zero
    exact toSignificant_eq_self_iff.mp (by linarith)
  intro fresh
  refine ⟨by simp [creditInput], fun assetId row named => ?_⟩
  obtain ⟨user, house⟩ := fit fresh few assetId row named
  refine ⟨by simp [creditInput], ?_, ?_⟩
  · simp only [creditInput, List.forall_mem_cons]
    exact ⟨stored, stored.neg, by simp⟩
  · simp only [creditInput, List.forall_mem_cons]
    exact ⟨user, by rwa [← sub_eq_add_neg], by simp⟩

theorem Sound.recordObservedTransaction (sound : Sound db) {recorded : Recorded}
    (fits : CreditFits db input)
    (done : (recordObservedTransaction now input).run db = .ok (recorded, db')) : Sound db' := by
  unfold Rounded.recordObservedTransaction at done
  simp only [run_bind_ok, run_getOrThrow_ok, run_find?, run_pure, assetNetworksField_get, walletAddressesField_get,
    depositsField_get, Except.ok.injEq, Prod.mk.injEq] at done
  obtain ⟨assetNetwork, _, ⟨network, rfl⟩, walletAddress, _, ⟨address, rfl⟩, _, _, ⟨rfl, rfl⟩, ⟨depositId, upserted⟩, _,
    first, _, _, second, credited, _, third, row, _, ⟨-, rfl⟩, -, rfl⟩ := done
  obtain ⟨identity, t₁, rfl, wrote₁, amount⟩ := upsertDeposit_ok first
  obtain ⟨t₂, middle, rfl, wrote₂, ⟨-, -, sameAmount, -⟩, -⟩ := advanceDeposit_ok second wrote₁.get
  have stored : Places Decimal.SCALE upserted.amount := by
    rcases amount with stored | ⟨e, found, same⟩
    · exact stored
    · rw [same]
      exact sound.deposits _ e found
  have deposits : ∀ i row, t₂.get? i = some row → Places Decimal.SCALE row.amount :=
    rows_of_wrote wrote₂ (rows_of_wrote wrote₁ sound.deposits stored) (by rwa [sameAmount])
  rw [creditWhenFinal, run_ite] at third
  split at third
  · rename_i qualifies
    rw [Bool.and_eq_true] at qualifies
    obtain ⟨t, l, posted, after, rfl, ran, wrote, same⟩ := creditDeposit_ok third wrote₂.get
    have fit := fits ((qualifies_iff network address).mpr qualifies)
    rw [← identity] at fit
    exact ⟨sound.kept.posts (creditInput_exact stored fit) ran,
      rows_of_wrote wrote deposits (by rwa [same, sameAmount]), sound.withdrawals⟩
  · simp only [run_pure, Except.ok.injEq, Prod.mk.injEq] at third
    rw [← third.2]
    exact ⟨sound.kept, deposits, sound.withdrawals⟩

end Crediting

section Confirming

variable {db db' : Db} {now : Time} {withdrawalId : Nat}

theorem Sound.changed (sound : Sound db) {operation : Operation} {old new : Withdrawal}
    (changed : Changed operation db db' withdrawalId old new .held) : Sound db' := by
  obtain ⟨t, l, rfl, wrote, same⟩ := changed.result
  have before := sound.withdrawals _ old changed.found
  have columns : new.amount = old.amount ∧ new.fee = old.fee := by
    cases changed.moves with
    | recordExecution now outcome allowed =>
      unfold executed
      split <;> exact ⟨rfl, rfl⟩
    | _ => exact ⟨rfl, rfl⟩
  have ledger : l = db.core.ledger := same
  subst ledger
  exact ⟨sound.kept, sound.deposits, rows_of_wrote wrote sound.withdrawals (by rwa [columns.1, columns.2])⟩

theorem checkDailyLimit_ok {prepared : Prepared} {u : Unit}
    (done : (checkDailyLimit now prepared).run db = .ok (u, db')) : db' = db := by
  simp only [checkDailyLimit, run_bind_ok, run_read, Except.ok.injEq, Prod.mk.injEq] at done
  obtain ⟨_, _, ⟨rfl, rfl⟩, rest⟩ := done
  split at rest
  next =>
    simp only [run_pure, Except.ok.injEq, Prod.mk.injEq] at rest
    exact rest.2.symm
  next =>
    simp only [run_bind_ok, run_read, Except.ok.injEq, Prod.mk.injEq, run_throwIf_ok] at rest
    obtain ⟨_, _, ⟨-, rfl⟩, -, rfl⟩ := rest
    rfl

theorem Sound.request (sound : Sound db) {prepared : Prepared}
    (done : (request now prepared).run db = .ok (withdrawalId, db')) : Sound db' := by
  unfold Rounded.request chargedRequest at done
  simp only [run_bind_ok] at done
  obtain ⟨⟨i, existed⟩, _, created, rest⟩ := done
  rcases run_createIdempotent_ok created with ⟨rfl, body⟩ | ⟨rfl, looked, -⟩
  · simp only [run_bind_ok, run_write_ok, run_create_ok, withdrawalsField_get, withdrawalsField_set] at body
    obtain ⟨_, _, checked, _, _, ⟨-, rfl, rfl⟩, _, _, ⟨-, rfl, rfl⟩, t, inserted, rfl, rfl⟩ := body
    obtain rfl := (checkDailyLimit_ok checked).symm
    simp only [Bool.false_eq_true, if_false, run_bind_ok, run_zoom_ok, run_getOrThrow_ok, run_update_ok, run_pure,
      Except.ok.injEq, Prod.mk.injEq, ledgerField_get, ledgerField_set, withdrawalsField_get, withdrawalsField_set] at rest
    obtain ⟨_, _, ⟨l, reserved, rfl⟩, current, _, ⟨found, rfl⟩, _, _, ⟨t', updated, rfl⟩, -, rfl⟩ := rest
    have before : ∀ j w, t.get? j = some w → Places Decimal.SCALE w.amount ∧ w.fee = 0 :=
      rows_of_wrote (.of_insert inserted) sound.withdrawals
        ⟨Places.toPlaces _, Decimal.column_eq_iff.mpr ⟨0, by simp⟩⟩
    exact ⟨sound.kept.reserve reserved, sound.deposits, rows_of_wrote (.of_update updated) before (before _ current found)⟩
  · simp only [run_bind_ok, run_findOrThrow_ok, run_pure, Except.ok.injEq, Prod.mk.injEq] at looked
    obtain ⟨_, _, ⟨-, rfl⟩, -, rfl⟩ := looked
    simp only [if_true, run_bind_ok, run_getOrThrow_ok, run_throwIf_ok, run_pure, Except.ok.injEq, Prod.mk.injEq] at rest
    obtain ⟨_, _, ⟨-, rfl⟩, _, _, ⟨-, rfl⟩, -, rfl⟩ := rest
    exact sound

theorem captureFunds_ok {u : Unit} (done : (captureFunds withdrawalId).run db = .ok (u, db')) :
    ∃ funds, db' = { db with core := { db.core with ledger := { db.core.ledger with funds := funds } } } ∧
      Reserved.bare funds.holders = Reserved.bare db.core.ledger.accounts := by
  unfold captureFunds Reserved.findActiveByReference at done
  simp only [run_bind_ok, run_zoom_ok, run_find?, Except.ok.injEq, Prod.mk.injEq, fundsField_get, fundsField_set] at done
  obtain ⟨row, _, ⟨_, ⟨rfl, rfl⟩, rfl⟩, rest⟩ := done
  split at rest
  · simp only [run_bind_ok, run_zoom_ok, run_pure, Except.ok.injEq, Prod.mk.injEq, fundsField_get, fundsField_set] at rest
    obtain ⟨_, _, ⟨funds, captured, rfl⟩, -, rfl⟩ := rest
    exact ⟨funds, rfl, capture_bare captured⟩
  · simp only [run_pure, Except.ok.injEq, Prod.mk.injEq] at rest
    obtain ⟨-, rfl⟩ := rest
    exact ⟨_, rfl, rfl⟩

theorem captureInput_exact {l : Ledger} {w : Withdrawal} {assetSymbol : String} (stored : Places Decimal.SCALE w.amount)
    (free : w.fee = 0) (few : Significant Decimal.PRECISION w.amount) (fit : BalancesFit l assetSymbol w.userId (-w.amount)) :
    Exact l (captureInput withdrawalId w assetSymbol) := by
  -- a debit of a short enough amount is rounded nowhere where both balances fit
  have net : Decimal.minus w.amount w.fee = w.amount := by
    rw [free, Decimal.minus_eq_iff.mpr (by rwa [sub_zero]), sub_zero]
  have postings : (captureInput withdrawalId w assetSymbol).postings =
      [{ account := .user w.userId, amount := -w.amount }, { account := .house .externalChain, amount := w.amount }] := by
    rw [captureInput, capturePostings, net, if_pos free, List.append_nil]
  intro fresh
  rw [postings]
  refine ⟨by simp, fun assetId row named => ?_⟩
  obtain ⟨user, house⟩ := fit assetId row named
  refine ⟨by simp, ?_, ?_⟩
  · simp only [List.forall_mem_cons]
    exact ⟨stored.neg, stored, by simp⟩
  · simp only [List.forall_mem_cons]
    exact ⟨user, by rwa [sub_neg_eq_add] at house, by simp⟩

theorem Sound.creditConfirmed (sound : Sound db) {count : Bool} (fits : ConfirmFits db withdrawalId)
    (done : (creditConfirmed now withdrawalId).run db = .ok (count, db')) : Sound db' := by
  unfold Rounded.creditConfirmed at done
  simp only [run_bind_ok] at done
  obtain ⟨picked, _, ran, rest⟩ := done
  rcases run_updateMany_ok ran with ⟨rfl, rfl, -⟩ | ⟨rfl, old, t, found, allowed, updated, rfl⟩
  · simp only [Bool.false_eq_true, if_false, run_bind_ok, run_getOrThrow_ok, run_pure, Except.ok.injEq,
      Prod.mk.injEq] at rest
    obtain ⟨_, _, ⟨-, rfl⟩, -, rfl⟩ := rest
    exact sound
  · simp only [if_true, run_bind_ok, run_getOrThrow_ok, run_read, run_orThrow_ok, run_zoom_ok, run_update_ok, run_pure,
      Except.ok.injEq, Prod.mk.injEq, withdrawalsField_get, withdrawalsField_set, assetNetworksField_get,
      ledgerField_get, ledgerField_set] at rest
    obtain ⟨row, _, ⟨row_, rfl⟩, assetNetwork, _, ⟨network, rfl⟩, _, _, ⟨rfl, rfl⟩, asset, _, ⟨named, rfl⟩, _, _, captured,
      posted, _, ⟨l, post, rfl⟩, current, _, ⟨current_, rfl⟩, _, _, ⟨t', updated', rfl⟩, -, rfl⟩ := rest
    have wrote : Table.Wrote db.wallet.withdrawals t withdrawalId _ := .of_update updated
    obtain ⟨funds, rfl, bare⟩ := captureFunds_ok captured
    have same : row = { old with status := .confirmed, confirmedAt := some now } := by
      rw [wrote.get] at row_
      exact (Option.some.inj row_).symm
    subst same
    obtain ⟨few, fit⟩ := fits old found (by simpa [statusIn] using allowed)
    obtain ⟨stored, free⟩ := sound.withdrawals _ old found
    have kept : Kept { db.core.ledger with funds := funds } := sound.kept.reserved rfl rfl bare
    have balances : ∀ ref assetId, Ledger.balanceOf { db.core.ledger with funds := funds } ref assetId =
        Ledger.balanceOf db.core.ledger ref assetId := fun ref assetId => Reserved.bare_sum bare _ _ fun _ => rfl
    have fit' : BalancesFit { db.core.ledger with funds := funds } asset.symbol old.userId (-old.amount) := by
      intro assetId asset' named'
      rw [balances, balances]
      exact fit assetNetwork network asset named assetId asset' named'
    have before : ∀ j w, t.get? j = some w → Places Decimal.SCALE w.amount ∧ w.fee = 0 :=
      rows_of_wrote wrote sound.withdrawals ⟨stored, free⟩
    exact ⟨kept.posts (fun _ => captureInput_exact stored free few fit') post, sound.deposits,
      rows_of_wrote (.of_update updated') before (before _ current current_)⟩

end Confirming

end Effects

end VerdictVaut.Rounded
