import VerdictVaut.Ledger.Agreement
import VerdictVaut.Wallet.CustodyProviders

set_option autoImplicit false

-- requesting, ending and confirming a withdrawal, with and without rounding
namespace VerdictVaut.WithdrawalsService

open Relational Relational.Tx Db Decimals

variable {db : Db} {places : ℕ} {most : ℚ} {withdrawalId : Nat}

section Ending

/-- The funds of a withdrawal that ends are given back after its row has been rewritten. -/
theorem releaseFunds_agree (fits : Ledger.EarmarkFits places most .withdrawal withdrawalId db.core.ledger)
    (room : Room places most) {t : Table Withdrawal} :
    Agree (fun _ _ => True) (Rounded.Withdrawals.releaseFunds withdrawalId) (releaseFunds withdrawalId)
      { db with wallet := { db.wallet with withdrawals := t } } :=
  (Agree.zoom (Ledger.EarmarkFits.releaseByReference fits room)).weaken fun _ _ _ => trivial

theorem releaseReservation_agree (fits : Ledger.EarmarkFits places most .withdrawal withdrawalId db.core.ledger)
    (room : Room places most) (reason : String) (terminalStatus : WithdrawalStatus) (allowedFrom : List WithdrawalStatus) :
    Agree (fun _ _ => True) (Rounded.Withdrawals.releaseReservation withdrawalId reason terminalStatus allowedFrom)
      (releaseReservation withdrawalId reason terminalStatus allowedFrom) db := by
  refine .after fun w db₁ moved => ?_
  obtain ⟨old, t, -, -, rfl, -⟩ := casTransition_ok moved
  exact (releaseFunds_agree fits room).bind fun _ _ _ _ => .pure trivial

theorem cancel_agree (fits : Ledger.EarmarkFits places most .withdrawal withdrawalId db.core.ledger)
    (room : Room places most) (userId : Nat) :
    Agree (fun _ _ => True) (Rounded.Withdrawals.cancel userId withdrawalId) (cancel userId withdrawalId) db := by
  refine .after fun owned db₀ looked => ?_
  obtain ⟨rfl, -⟩ := getWithdrawal_ok looked
  refine .throwIf fun _ => .after fun w db₁ moved => ?_
  obtain ⟨old, t, -, -, rfl, -⟩ := casTransition_ok moved
  exact (releaseFunds_agree fits room).bind fun _ _ _ _ => .pure trivial

theorem reject_agree (fits : Ledger.EarmarkFits places most .withdrawal withdrawalId db.core.ledger)
    (room : Room places most) (reason : String) (actorId : Nat) :
    Agree (fun _ _ => True) (Rounded.Withdrawals.reject withdrawalId reason actorId) (reject withdrawalId reason actorId) db := by
  refine .after fun _ db₁ allowed => ?_
  obtain rfl := assertSuperAdmin_ok allowed
  exact releaseReservation_agree fits room _ _ _

theorem fail_agree (fits : Ledger.EarmarkFits places most .withdrawal withdrawalId db.core.ledger)
    (room : Room places most) (reason : String) :
    Agree (fun _ _ => True) (Rounded.Withdrawals.fail withdrawalId reason) (WithdrawalsService.fail withdrawalId reason) db :=
  releaseReservation_agree fits room _ _ _

theorem failProviderRejectedSubmission_agree (fits : Ledger.EarmarkFits places most .withdrawal withdrawalId db.core.ledger)
    (room : Room places most) (reason : String) :
    Agree (fun _ _ => True) (Rounded.Withdrawals.failProviderRejectedSubmission withdrawalId reason)
      (failProviderRejectedSubmission withdrawalId reason) db := by
  refine .after fun count db₁ moved => ?_
  refine .ite (fun picked => ?_) fun _ => .pure trivial
  rcases run_updateMany_ok moved with ⟨rfl, -, -⟩ | ⟨-, old, t, -, -, -, rfl⟩
  next => cases picked
  next => exact (releaseFunds_agree fits room).bind fun _ _ _ _ => .pure trivial

end Ending

section Requesting

/-- The amounts of the request, of the user's recent withdrawals of the asset, and of the accounts in its currency. -/
structure RequestFits (places : ℕ) (most : ℚ) (now : Time) (prepared : Prepared) (db : Db) : Prop where
  amount : Figure places most prepared.amount
  fee : Figure places most prepared.fee
  recent : ∀ amount ∈ Rounded.recentAmounts db prepared.userId prepared.assetId (now - dayMs), Places places amount
  volume : alreadyRequested db prepared.userId prepared.assetId (now - dayMs) ≤ most
  balances : Ledger.CurrencyFits prepared.assetSymbol places most db.core.ledger

variable {now : Time} {prepared : Prepared}

instance : Decidable (RequestFits places most now prepared db) :=
  decidable_of_iff (Figure places most prepared.amount ∧ Figure places most prepared.fee ∧
      (∀ amount ∈ Rounded.recentAmounts db prepared.userId prepared.assetId (now - dayMs), Places places amount) ∧
      alreadyRequested db prepared.userId prepared.assetId (now - dayMs) ≤ most ∧
      Ledger.CurrencyFits prepared.assetSymbol places most db.core.ledger)
    ⟨fun all => ⟨all.1, all.2.1, all.2.2.1, all.2.2.2.1, all.2.2.2.2⟩,
      fun fits => ⟨fits.amount, fits.fee, fits.recent, fits.volume, fits.balances⟩⟩

theorem recentAmounts_sum (userId assetId : Nat) (since : Time) :
    (Rounded.recentAmounts db userId assetId since).sum = alreadyRequested db userId assetId since := rfl

theorem checkDailyLimit_agree (fits : RequestFits places most now prepared db) (room : Room places (most + most)) :
    Agree (fun _ db' => db' = db) (Rounded.checkDailyLimit now prepared) (checkDailyLimit now prepared) db := by
  have positive : ∀ amount ∈ Rounded.recentAmounts db prepared.userId prepared.assetId (now - dayMs), 0 ≤ amount := by
    intro amount member
    obtain ⟨w, listed, rfl⟩ := List.mem_map.mp member
    have checked := db.wallet.withdrawals.checked w (List.mem_of_mem_filter listed)
    simp only [RowSpec.check, Bool.and_eq_true, decide_eq_true_eq] at checked
    exact checked.1.1.1.le
  have nonneg := fits.amount.nonneg
  have volume : Figure places most (alreadyRequested db prepared.userId prepared.assetId (now - dayMs)) :=
    .of_le (@recentAmounts_sum db _ _ _ ▸ Places.sum fits.recent)
      (@recentAmounts_sum db _ _ _ ▸ List.sum_nonneg positive) fits.volume
  have summed : Rounded.sumAmounts (Rounded.recentAmounts db prepared.userId prepared.assetId (now - dayMs)) =
      alreadyRequested db prepared.userId prepared.assetId (now - dayMs) := by
    refine ((room.smaller (by linarith)).foldl_plus ⟨0, by simp⟩ (fun amount member => ?_) le_rfl ?_).trans (zero_add _)
    next => exact ⟨fits.recent amount member, positive amount member⟩
    next => exact (zero_add _).trans_le fits.volume
  refine .read ?_
  cases ((db.core.riskLimits.find? fun limit => decide (limit.userId = prepared.userId)).map Prod.snd).bind
      RiskLimit.maxDailyWithdrawal with
  | none => exact .pure rfl
  | some limit =>
    refine .read ?_
    rw [summed, room.plus (volume.add fits.amount)]
    exact .self fun _ _ passed => (run_throwIf_ok.mp passed).2.symm

theorem request_agree (fits : RequestFits places most now prepared db) (room : Room places (most + most)) :
    Agree (fun _ _ => True) (Rounded.chargedRequest now prepared) (request now prepared) db := by
  have tight : Room places most := room.smaller (by linarith [fits.amount.nonneg])
  have inserted : Agree (fun _ db' => db'.core = db.core)
      (do
        Rounded.checkDailyLimit now prepared
        let amount ← Rounded.write prepared.amount
        let fee ← Rounded.write prepared.fee
        create withdrawalsField (withdrawalRow now { prepared with amount := amount, fee := fee }))
      (do
        checkDailyLimit now prepared
        create withdrawalsField (withdrawalRow now prepared)) db := by
    refine (checkDailyLimit_agree fits room).bind fun _ db₁ _ same => ?_
    subst same
    refine tight.write fits.amount (tight.write fits.fee (.self fun _ _ done => ?_))
    obtain ⟨t, -, -, rfl⟩ := run_create_ok.mp done
    rfl
  refine Agree.bind (Agree.createIdempotent (P := fun found db' => found.2 = false → db'.core = db.core) inserted.same ?_ ?_)
    fun found db₁ _ placed => ?_
  next => exact fun made db₁ done _ => inserted.holds made db₁ done
  next =>
    intro _ _ _ existed
    cases existed
  next =>
    obtain ⟨withdrawalId, existed⟩ := found
    refine .ite (fun _ => .self fun _ _ _ => trivial) fun fresh => ?_
    have core := placed (by simpa using fresh)
    have balances : Ledger.CurrencyFits prepared.assetSymbol places most db₁.core.ledger := by
      rw [core]
      exact fits.balances
    have reserved := @Ledger.reserve_agree db₁.core.ledger places most (reservation prepared withdrawalId) room fits.amount
      balances
    exact Agree.bind (Agree.zoom reserved) fun _ _ _ _ => .self fun _ _ _ => trivial

end Requesting

section Confirming

/-- The amounts of the withdrawal, of what is reserved for it, and of the accounts in its currency. -/
structure CaptureFits (places : ℕ) (most : ℚ) (withdrawalId : Nat) (db : Db) : Prop where
  earmark : Ledger.EarmarkFits places most .withdrawal withdrawalId db.core.ledger
  amounts : ∀ w ∈ db.wallet.withdrawals.get? withdrawalId, Figure places most w.amount ∧ Figure places most w.fee
  balances : ∀ w ∈ db.wallet.withdrawals.get? withdrawalId, ∀ assetNetwork ∈ db.wallet.assetNetworks.get? w.assetNetworkId,
    ∀ asset ∈ db.core.ledger.assets.get? assetNetwork.assetId, Ledger.CurrencyFits asset.symbol places most db.core.ledger

instance : Decidable (CaptureFits places most withdrawalId db) :=
  decidable_of_iff (Ledger.EarmarkFits places most .withdrawal withdrawalId db.core.ledger ∧
      (∀ w ∈ db.wallet.withdrawals.get? withdrawalId, Figure places most w.amount ∧ Figure places most w.fee) ∧
      ∀ w ∈ db.wallet.withdrawals.get? withdrawalId, ∀ assetNetwork ∈ db.wallet.assetNetworks.get? w.assetNetworkId,
        ∀ asset ∈ db.core.ledger.assets.get? assetNetwork.assetId, Ledger.CurrencyFits asset.symbol places most db.core.ledger)
    ⟨fun all => ⟨all.1, all.2.1, all.2.2⟩, fun fits => ⟨fits.earmark, fits.amounts, fits.balances⟩⟩

theorem captureFunds_agree (fits : Ledger.EarmarkFits places most .withdrawal withdrawalId db.core.ledger)
    (room : Room places most) {symbol : String} (balances : Ledger.CurrencyFits symbol places most db.core.ledger) :
    Agree (fun _ db' => Ledger.CurrencyFits symbol places most db'.core.ledger) (Rounded.captureFunds withdrawalId)
      (captureFunds withdrawalId) db := by
  refine .after fun found db₁ looked => ?_
  obtain ⟨funds, ran, rfl⟩ := run_zoom_ok.mp looked
  have located : db.core.ledger.funds.reservations.find? (Reserved.activeFor .withdrawal withdrawalId) = found ∧
      db.core.ledger.funds = funds := by
    rw [Reserved.findActiveByReference, run_find?] at ran
    simpa using ran
  obtain ⟨located, rfl⟩ := located
  cases found with
  | none => exact .pure balances
  | some pair =>
    obtain ⟨reservationId, r⟩ := pair
    obtain ⟨there, holds⟩ := Table.find?_some located
    have part := @Ledger.EarmarkFits.transition_exact db.core.ledger places most .withdrawal withdrawalId reservationId r fits
      room there holds .captured
    refine Agree.bind (Agree.zoom part) fun _ db₂ captured _ => .pure ?_
    obtain ⟨funds, done, rfl⟩ := run_zoom_ok.mp captured
    intro assetId row named
    refine Reserved.HoldersFit.transition (Ledger.ofAsset_steady assetId) (balances assetId row named) (fun r' found' _ => ?_)
      (by decide) done
    obtain rfl : r = r' := Option.some.inj (there.symm.trans found')
    exact fits.unconsumed there holds

theorem capturePostings_agree {w : Withdrawal} (amount : Figure places most w.amount) (fee : Figure places most w.fee)
    (room : Room places (most + most)) : Rounded.capturePostings w = capturePostings w ∧
      ∀ posting ∈ capturePostings w, Figure places (most + most) posting.amount := by
  have nonneg := amount.nonneg
  have net := amount.sub fee
  constructor
  next => rw [Rounded.capturePostings, capturePostings, room.minus net]
  next =>
    intro posting member
    rw [capturePostings, List.mem_append] at member
    rcases member with legs | charged
    next =>
      simp only [List.mem_cons, List.not_mem_nil, or_false] at legs
      rcases legs with rfl | rfl
      next => exact amount.neg.mono (by linarith)
      next => exact net
    next =>
      split at charged
      next => cases charged
      next =>
        rw [List.mem_singleton.mp charged]
        exact fee.mono (by linarith)

theorem creditConfirmed_agree (fits : CaptureFits places most withdrawalId db) (room : Room places (7 * most))
    (nonneg : 0 ≤ most) (now : Time) :
    Agree (fun _ _ => True) (Rounded.creditConfirmed now withdrawalId) (creditConfirmed now withdrawalId) db := by
  refine .after fun count db₁ moved => .ite (fun picked => ?_) fun _ => .self fun _ _ _ => trivial
  rcases run_updateMany_ok moved with ⟨rfl, -, -⟩ | ⟨-, old, t, found, -, updated, rfl⟩
  next => cases picked
  have wrote := Table.Wrote.of_update updated
  refine .getOrThrow fun w there => .getOrThrow fun assetNetwork network => .read (.orThrow fun asset listed => ?_)
  obtain rfl := Option.some.inj (wrote.get.symm.trans there)
  obtain ⟨amount, fee⟩ := fits.amounts old found
  obtain ⟨same, figures⟩ := @capturePostings_agree places most { old with status := .confirmed, confirmedAt := some now } amount
    fee (room.smaller (by linarith))
  have posts : Rounded.captureInput withdrawalId { old with status := .confirmed, confirmedAt := some now } asset.symbol =
      captureInput withdrawalId { old with status := .confirmed, confirmedAt := some now } asset.symbol := by
    rw [Rounded.captureInput, captureInput, same]
  have legs : (capturePostings { old with status := .confirmed, confirmedAt := some now }).length ≤ 3 := by
    rw [capturePostings]
    split <;> simp
  have grows : most + (capturePostings { old with status := .confirmed, confirmedAt := some now }).length * (most + most) ≤
      7 * most := by
    have legs : ((capturePostings { old with status := .confirmed, confirmedAt := some now }).length : ℚ) ≤ 3 := by
      exact_mod_cast legs
    nlinarith
  have balances := fits.balances old found assetNetwork network asset listed
  have captured := @captureFunds_agree (withdrawalsField.set t db) places most withdrawalId fits.earmark
    (room.smaller (by linarith)) _ balances
  refine captured.bind fun _ db₂ _ balances₂ => ?_
  rw [posts]
  have posted := @Ledger.postTransaction_agree db₂.core.ledger places most (most + most)
    (captureInput withdrawalId { old with status := .confirmed, confirmedAt := some now } asset.symbol) (room.smaller grows)
    nonneg figures balances₂
  exact Agree.bind (Agree.zoom posted) fun _ _ _ _ => .self fun _ _ _ => trivial

/-- The amounts of the withdrawal, and those that the chain reports. -/
structure ObservedFits (places : ℕ) (most : ℚ) (withdrawalId : Nat) (chain : ObservedChainTransaction) (db : Db) : Prop where
  amounts : ∀ w ∈ db.wallet.withdrawals.get? withdrawalId, Figure places most w.amount ∧ Figure places most w.fee
  amount : Figure places most chain.amount
  outputs : ∀ outputs ∈ chain.outputs, (∀ output ∈ outputs, Places places output.amount ∧ 0 ≤ output.amount) ∧
    (outputs.map ChainTransactionOutput.amount).sum ≤ most

variable {chain : ObservedChainTransaction}

instance : Decidable (ObservedFits places most withdrawalId chain db) :=
  decidable_of_iff ((∀ w ∈ db.wallet.withdrawals.get? withdrawalId, Figure places most w.amount ∧ Figure places most w.fee) ∧
      Figure places most chain.amount ∧ ∀ outputs ∈ chain.outputs,
        (∀ output ∈ outputs, Places places output.amount ∧ 0 ≤ output.amount) ∧
          (outputs.map ChainTransactionOutput.amount).sum ≤ most)
    ⟨fun all => ⟨all.1, all.2.1, all.2.2⟩, fun fits => ⟨fits.amounts, fits.amount, fits.outputs⟩⟩

theorem observedAmount_agree (fits : ObservedFits places most withdrawalId chain db) (room : Room places most)
    (config : WalletConfig) (w : Withdrawal) : Rounded.observedAmount config w chain = observedAmount config w chain ∧
      ∀ observed, observedAmount config w chain = .ok observed → Figure places most observed := by
  unfold Rounded.observedAmount observedAmount
  cases reported : chain.outputs with
  | none => exact ⟨rfl, fun observed same => Except.ok.inj same ▸ fits.amount⟩
  | some outputs =>
    obtain ⟨each, total⟩ := fits.outputs outputs reported
    dsimp only
    generalize paying : outputs.filter (fun output => destinationsMatch config output.address w.destinationAddress) = paid
    have some : ∀ amount ∈ paid.map ChainTransactionOutput.amount, Places places amount ∧ 0 ≤ amount := by
      intro amount member
      obtain ⟨output, listed, rfl⟩ := List.mem_map.mp member
      rw [← paying] at listed
      exact each output (List.mem_of_mem_filter listed)
    have part : (paid.map ChainTransactionOutput.amount).sum ≤ most := by
      refine le_trans (List.Sublist.sum_le_sum ?_ fun amount member => ?_) total
      next =>
        rw [← paying]
        exact List.filter_sublist.map _
      next =>
        obtain ⟨output, listed, rfl⟩ := List.mem_map.mp member
        exact (each output listed).2
    have sum : Rounded.sumAmounts (paid.map ChainTransactionOutput.amount) = (paid.map ChainTransactionOutput.amount).sum :=
      (room.foldl_plus ⟨0, by simp⟩ some le_rfl ((zero_add _).trans_le part)).trans (zero_add _)
    rw [sum]
    refine ⟨rfl, fun observed same => ?_⟩
    split at same
    next => cases same
    next =>
      cases same
      exact .of_le (Places.sum fun amount member => (some amount member).1)
        (List.sum_nonneg fun amount member => (some amount member).2) part

theorem verifyConfirmation_agree (fits : ObservedFits places most withdrawalId chain db) (room : Room places (3 * most))
    (config : WalletConfig) :
    Agree (fun _ _ => True) (Rounded.verifyConfirmation config withdrawalId (some chain))
      (verifyConfirmation config withdrawalId (some chain)) db := by
  have nonneg := fits.amount.nonneg
  refine .after fun w db₁ looked => ?_
  obtain ⟨rfl, found⟩ := getWithdrawal_ok looked
  obtain ⟨amount, fee⟩ := fits.amounts w found
  obtain ⟨same, figure⟩ := observedAmount_agree fits (room.smaller (by linarith)) config w
  have net := amount.sub fee
  have mismatch : Rounded.findChainMismatch config w chain = findChainMismatch config w chain := by
    unfold Rounded.findChainMismatch findChainMismatch
    rw [same, (room.smaller (by linarith)).minus net]
    cases observed : observedAmount config w chain with
    | error e => rfl
    | ok observed' =>
      have difference := (figure observed' observed).sub net
      dsimp only
      rw [(room.smaller (by linarith)).minus difference]
  rw [mismatch]
  exact .self fun _ _ _ => trivial

end Confirming

end VerdictVaut.WithdrawalsService
