import VerdictVaut.Wallet.Transitions

set_option autoImplicit false

namespace VerdictVaut

open Relational

/-- How the reservation behind a withdrawal stands; no withdrawal is left in the other three statuses. -/
def WithdrawalStatus.reservation : WithdrawalStatus → Option ReservationStatus
  | .riskReview | .approved | .broadcasting | .pendingManualBroadcast | .executionAmbiguous | .broadcast
  | .confirming => some .active
  | .cancelled | .rejected | .failed => some .released
  | .credited => some .captured
  | .requested | .validated | .confirmed => none

namespace WithdrawalsService

section Statuses

variable {operation : Operation} {old new : Withdrawal} {funds : Funds}

def terms (w : Withdrawal) : Nat × Nat × String × Option String × ℚ × ℚ × String × Time :=
  -- the columns that no transition rewrites
  (w.userId, w.assetNetworkId, w.destinationAddress, w.destinationTag, w.amount, w.fee, w.clientWithdrawalId, w.createdAt)

theorem Moves.terms (moves : Moves operation old new funds) : terms new = terms old := by
  cases moves with
  | recordExecution now outcome allowed =>
    rcases outcome with _ | result
    · rfl
    · cases result <;> rfl
  | _ => rfl

def Funds.status : Funds → ReservationStatus
  | .held => .active
  | .released => .released
  | .captured => .captured

def Funds.settle : Funds → Reservation → Reservation
  | .held => id
  | .released => Reserved.settle
  | .captured => seize

theorem active_of_mem {statuses : List WithdrawalStatus} {current : WithdrawalStatus} {status : ReservationStatus}
    (allowed : current ∈ statuses) (live : ∀ s ∈ statuses, s.reservation = none ∨ s.reservation = some .active)
    (known : current.reservation = some status) : status = .active := by
  rcases live current allowed with none | active
  · simp [none] at known
  · rw [active] at known
    exact (Option.some.inj known).symm

theorem Moves.status (moves : Moves operation old new funds) {status : ReservationStatus}
    (known : old.status.reservation = some status) :
    status = .active ∧ new.status.reservation = some funds.status := by
  -- every transition starts from an active reservation and leaves what it says it leaves
  cases moves with
  | cancel allowed => exact ⟨active_of_mem allowed (by decide) known, rfl⟩
  | reject reason allowed => exact ⟨active_of_mem allowed (by decide) known, rfl⟩
  | fail reason allowed => exact ⟨active_of_mem allowed (by decide) known, rfl⟩
  | failProviderRejectedSubmission reason allowed => exact ⟨active_of_mem allowed (by decide) known, rfl⟩
  | declareExecutionAmbiguous reason allowed => exact ⟨active_of_mem allowed (by decide) known, rfl⟩
  | recordUnconfirmed allowed => exact ⟨active_of_mem allowed (by decide) known, rfl⟩
  | creditConfirmed now allowed => exact ⟨active_of_mem allowed (by decide) known, rfl⟩
  | recordExecution now outcome allowed =>
    refine ⟨active_of_mem (List.mem_singleton.mpr allowed) (by decide) known, ?_⟩
    rcases outcome with _ | result
    · rfl
    · cases result <;> rfl
  | approve allowed => exact ⟨active_of_mem (List.mem_singleton.mpr allowed) (by decide) known, rfl⟩
  | claimLease allowed => exact ⟨active_of_mem (List.mem_singleton.mpr allowed) (by decide) known, rfl⟩
  | confirmBroadcast now txHash allowed =>
    exact ⟨active_of_mem (List.mem_singleton.mpr allowed) (by decide) known, rfl⟩
  | confirmNotExecuted allowed => exact ⟨active_of_mem (List.mem_singleton.mpr allowed) (by decide) known, rfl⟩
  | recordManualBroadcast now adminId txHash allowed =>
    exact ⟨active_of_mem (List.mem_singleton.mpr allowed) (by decide) known, rfl⟩
  | recordProviderBroadcast now txHash providerReference allowed =>
    exact ⟨active_of_mem (List.mem_singleton.mpr allowed) (by decide) known, rfl⟩

end Statuses

section Custody

/-- The reservation is held on the user's own account in the asset of the withdrawal's network. -/
structure Earmarked (db : Db) (w : Withdrawal) (r : Reservation) : Prop where
  amount : r.amount = w.amount
  unconsumed : r.consumedAmount = 0
  held : ∃ assetNetwork account, db.wallet.assetNetworks.get? w.assetNetworkId = some assetNetwork ∧
    db.core.ledger.accounts.get? r.holderId = some account ∧ account.owner = .user w.userId ∧
    account.assetId = assetNetwork.assetId

structure Paid (db : Db) (withdrawalId : Nat) (w : Withdrawal) : Prop where
  -- the one ledger transaction of a paid withdrawal
  posted : ∃ k t, db.core.ledger.transactionsFor .withdrawal withdrawalId = [t] ∧ t.type = .withdrawal ∧
    db.core.ledger.PostedAs k t (capturePostings w)

structure Settled (db : Db) (withdrawalId : Nat) (w : Withdrawal) : Prop where
  -- a withdrawal, its reservation and its ledger transaction agree
  reservation : ∃ r, db.core.ledger.funds.forRef .withdrawal withdrawalId = [r] ∧
    w.status.reservation = some r.status ∧ Earmarked db w r
  unpaid : w.status ≠ .credited → db.core.ledger.transactionsFor .withdrawal withdrawalId = []
  paid : w.status = .credited → Paid db withdrawalId w

structure Custody (db : Db) : Prop where
  withdrawals : ∀ withdrawalId w, db.wallet.withdrawals.get? withdrawalId = some w → Settled db withdrawalId w
  noReservation : ∀ withdrawalId, db.wallet.withdrawals.size ≤ withdrawalId →
    db.core.ledger.funds.forRef .withdrawal withdrawalId = []
  noTransaction : ∀ withdrawalId, db.wallet.withdrawals.size ≤ withdrawalId →
    db.core.ledger.transactionsFor .withdrawal withdrawalId = []

variable {db db' : Db} {kinds : ReferenceType → Bool}

theorem Earmarked.carried {w w' : Withdrawal} {r r' : Reservation} (earmarked : Earmarked db w r)
    (networks : db'.wallet.assetNetworks = db.wallet.assetNetworks)
    (accounts : Table.Carries (fun a => (a.owner, a.assetId)) db.core.ledger.accounts db'.core.ledger.accounts)
    (same : terms w' = terms w) (holder : r'.holderId = r.holderId) (amount : r'.amount = r.amount)
    (consumed : r'.consumedAmount = r.consumedAmount) : Earmarked db' w' r' := by
  simp only [terms, Prod.mk.injEq] at same
  obtain ⟨assetNetwork, account, network, found, owner, ofAsset⟩ := earmarked.held
  obtain ⟨account', found', columns⟩ := accounts _ _ found
  simp only [Prod.mk.injEq] at columns
  refine ⟨by rw [amount, earmarked.amount, same.2.2.2.2.1], by rw [consumed, earmarked.unconsumed], assetNetwork, account',
    ?_, by rw [holder]; exact found', by rw [columns.1, owner, same.1], by rw [columns.2, ofAsset]⟩
  rw [networks, same.2.1]
  exact network

theorem Settled.moved {withdrawalId : Nat} {w : Withdrawal} (settled : Settled db withdrawalId w)
    (networks : db'.wallet.assetNetworks = db.wallet.assetNetworks)
    (moved : Ledger.Moved kinds db.core.ledger db'.core.ledger)
    (reservations : db'.core.ledger.funds.forRef .withdrawal withdrawalId = db.core.ledger.funds.forRef .withdrawal withdrawalId)
    (transactions : db'.core.ledger.transactionsFor .withdrawal withdrawalId =
      db.core.ledger.transactionsFor .withdrawal withdrawalId) : Settled db' withdrawalId w := by
  obtain ⟨r, single, status, earmarked⟩ := settled.reservation
  refine ⟨⟨r, reservations.trans single, status, earmarked.carried networks moved.accounts rfl rfl rfl rfl⟩, ?_, ?_⟩
  · intro uncredited
    rw [transactions]
    exact settled.unpaid uncredited
  · intro credited
    obtain ⟨k, t, one, type, posted⟩ := (settled.paid credited).posted
    exact ⟨k, t, transactions.trans one, type, posted.moved moved⟩

theorem Custody.moved (custody : Custody db) (networks : db'.wallet.assetNetworks = db.wallet.assetNetworks)
    (withdrawals : db'.wallet.withdrawals = db.wallet.withdrawals)
    (moved : Ledger.Moved kinds db.core.ledger db'.core.ledger) (outside : kinds .withdrawal = false) : Custody db' := by
  constructor
  · intro id w found
    rw [withdrawals] at found
    exact (custody.withdrawals id w found).moved networks moved (moved.reservations _ _ outside)
      (moved.transactionsFor id outside)
  · intro id beyond
    rw [withdrawals] at beyond
    rw [moved.reservations _ _ outside]
    exact custody.noReservation id beyond
  · intro id beyond
    rw [withdrawals] at beyond
    rw [moved.transactionsFor id outside]
    exact custody.noTransaction id beyond

structure LedgerStep (l l' : Ledger) (withdrawalId : Nat) (f : Reservation → Reservation) : Prop where
  -- what any transition does to the ledger
  moved : WalletMoved .withdrawal l l'
  reservation : Reserved.OnRef l.funds l'.funds .withdrawal withdrawalId f
  others : ∀ id, id ≠ withdrawalId → l'.transactionsFor .withdrawal id = l.transactionsFor .withdrawal id

variable {operation : Operation} {withdrawalId : Nat} {old new : Withdrawal} {funds : Funds}

theorem Changed.ledger (changed : Changed operation db db' withdrawalId old new funds) :
    LedgerStep db.core.ledger db'.core.ledger withdrawalId funds.settle := by
  obtain ⟨t, l, rfl, -, effect⟩ := changed.result
  cases funds with
  | held =>
    obtain rfl : l = db.core.ledger := effect
    exact ⟨.refl _ _, .same rfl, fun _ _ => rfl⟩
  | released =>
    refine ⟨effect.moved, effect.reservation, fun id _ => ?_⟩
    rw [Ledger.transactionsFor, effect.transactions, Ledger.transactionsFor]
  | captured =>
    obtain ⟨assetNetwork, asset, -, -, captured⟩ := effect
    refine ⟨captured.moved, captured.reservation, fun id other => ?_⟩
    obtain ⟨l₁, -, transactions, ⟨rfl, -⟩ | ⟨assetId, posted⟩⟩ := captured.posting
    · rw [Ledger.transactionsFor, transactions, Ledger.transactionsFor]
    · rw [Ledger.transactionsFor_posted posted, if_neg fun mine => other mine.2.symm, List.append_nil, Ledger.transactionsFor,
        transactions, Ledger.transactionsFor]

theorem Changed.paid (changed : Changed operation db db' withdrawalId old new .captured) (sound : db.core.ledger.Sound)
    (unpaid : db.core.ledger.transactionsFor .withdrawal withdrawalId = []) : Paid db' withdrawalId new := by
  obtain ⟨t, l, rfl, -, assetNetwork, asset, -, -, captured⟩ := changed.result
  obtain ⟨l₁, moved, transactions, ⟨-, stored, member, key⟩ | ⟨assetId, posted⟩⟩ := captured.posting
  · have inside := @Ledger.mem_transactionsFor _ sound _ member .withdrawal withdrawalId key
    simp [unpaid] at inside
  · refine ⟨l₁.transactions.size, _, ?_, rfl, posted.postedAs (moved.moved.sound sound).books⟩
    change l.transactionsFor _ _ = _
    rw [Ledger.transactionsFor_posted posted, Ledger.transactionsFor_same transactions, unpaid]
    exact if_pos ⟨rfl, rfl⟩

theorem Funds.settle_active {r : Reservation} (active : r.status = .active) :
    (funds.settle r).status = funds.status ∧ (funds.settle r).holderId = r.holderId ∧ (funds.settle r).amount = r.amount ∧
      (funds.settle r).consumedAmount = r.consumedAmount := by
  cases funds <;> simp [Funds.settle, Funds.status, Reserved.settle, seize, Reservation.isActive, active]

theorem reservation_credited {status : WithdrawalStatus} :
    status.reservation = some .captured ↔ status = .credited := by
  cases status <;> simp [WithdrawalStatus.reservation]

theorem Changed.settled (changed : Changed operation db db' withdrawalId old new funds) (sound : db.core.ledger.Sound)
    (settled : Settled db withdrawalId old) : Settled db' withdrawalId new := by
  obtain ⟨r, single, status, earmarked⟩ := settled.reservation
  obtain ⟨active, after⟩ := changed.moves.status status
  obtain ⟨ended, holder, amount, consumed⟩ := @Funds.settle_active funds r active
  have step := changed.ledger
  have networks : db'.wallet.assetNetworks = db.wallet.assetNetworks := by
    obtain ⟨t, l, rfl, -⟩ := changed.result
    rfl
  have unpaid : db.core.ledger.transactionsFor .withdrawal withdrawalId = [] := by
    refine settled.unpaid fun credited => ?_
    rw [active, credited] at status
    cases status
  refine ⟨⟨funds.settle r, step.reservation.mine r single, by rw [after, ended], earmarked.carried networks
    step.moved.moved.accounts changed.moves.terms holder amount consumed⟩, ?_, ?_⟩
  · intro uncredited
    obtain ⟨t, l, rfl, -, effect⟩ := changed.result
    cases funds with
    | held =>
      obtain rfl : l = db.core.ledger := effect
      exact unpaid
    | released => exact (Ledger.transactionsFor_same effect.transactions _ _).trans unpaid
    | captured => exact absurd (reservation_credited.mp after) uncredited
  · intro credited
    rw [credited] at after
    cases funds with
    | held => cases after
    | released => cases after
    | captured => exact changed.paid sound unpaid

theorem Custody.changed (custody : Custody db) (sound : db.core.ledger.Sound)
    (changed : Changed operation db db' withdrawalId old new funds) : Custody db' := by
  have step := changed.ledger
  have mine := changed.settled sound (custody.withdrawals withdrawalId old changed.found)
  obtain ⟨t, l, rfl, wrote, -⟩ := changed.result
  constructor
  · intro id w found
    by_cases same : id = withdrawalId
    · subst same
      rw [wrote.get] at found
      cases found
      exact mine
    · rw [wrote.other same] at found
      exact (custody.withdrawals id w found).moved rfl step.moved.moved
        (step.reservation.others _ _ fun both => same both.2) (step.others id same)
  · intro id beyond
    obtain ⟨outside, apart⟩ := wrote.beyond.mp beyond
    rw [← custody.noReservation id outside]
    exact step.reservation.others _ _ fun both => apart both.2
  · intro id beyond
    obtain ⟨outside, apart⟩ := wrote.beyond.mp beyond
    rw [← custody.noTransaction id outside]
    exact step.others id apart

/-- What `prepare` has established of the asset and the network it names. -/
structure PreparedFits (db : Db) (prepared : Prepared) : Prop where
  asset : ∃ asset, db.core.ledger.assets.get? prepared.assetId = some asset ∧ asset.symbol = prepared.assetSymbol
  network : ∃ assetNetwork, db.wallet.assetNetworks.get? prepared.assetNetworkId = some assetNetwork ∧
    assetNetwork.assetId = prepared.assetId

theorem PreparedFits.carried {prepared : Prepared} (fits : PreparedFits db prepared)
    (assets : db'.core.ledger.assets = db.core.ledger.assets)
    (networks : db'.wallet.assetNetworks = db.wallet.assetNetworks) : PreparedFits db' prepared := by
  refine ⟨?_, ?_⟩
  · rw [assets]
    exact fits.asset
  · rw [networks]
    exact fits.network

theorem symbol_clash {symbol : String} (a b : Asset) (first : decide (a.symbol = symbol) = true)
    (second : decide (b.symbol = symbol) = true) : RowSpec.clash a b ≠ none := by
  rw [decide_eq_true_eq] at first second
  simp [RowSpec.clash, first, second]

theorem Custody.requested (custody : Custody db) (sound : db.core.ledger.Sound) {now : Time} {prepared : Prepared}
    (fits : PreparedFits db prepared) (requested : Requested db db' now prepared) : Custody db' := by
  obtain ⟨t, l, assetId, asset, rfl, wrote, moved, transactions, named, how⟩ := requested.result
  have fresh := custody.noReservation _ (le_refl _)
  have unposted := custody.noTransaction _ (le_refl _)
  obtain ⟨assetNetwork, network, ofNetwork⟩ := fits.network
  have sameAsset : assetId = prepared.assetId := by
    obtain ⟨asset', found, symbol⟩ := fits.asset
    have unique := Table.find?_of_unique found (decide_eq_true symbol) symbol_clash
    rw [named] at unique
    exact congrArg Prod.fst (Option.some.inj unique)
  obtain ⟨r, member, key⟩ | ⟨holderId, account, held, owner, ofAsset, added⟩ := how
  · -- the key of a withdrawal that does not exist yet is not taken
    obtain ⟨ofType, ofId⟩ := Ledger.reserveKey_withdrawal ((sound.reservationKeys r member).symm.trans key)
    have inside : r ∈ db.core.ledger.funds.forRef .withdrawal db.wallet.withdrawals.size :=
      List.mem_filter.mpr ⟨member, Reserved.isFor_iff.mpr ⟨ofType, ofId⟩⟩
    simp [fresh] at inside
  have reservations := Reserved.forRef_of_append added .withdrawal
  have elsewhere : ∀ id, id ≠ db.wallet.withdrawals.size →
      l.funds.forRef .withdrawal id = db.core.ledger.funds.forRef .withdrawal id := by
    intro id different
    rw [reservations id]
    simp [Reserved.isFor, Reserved.ReserveInput.row, reservation, Ne.symm different]
  have mine : l.funds.forRef .withdrawal db.wallet.withdrawals.size =
      [(reservation prepared db.wallet.withdrawals.size).input.row holderId] := by
    rw [reservations, fresh]
    simp [Reserved.isFor, Reserved.ReserveInput.row, reservation]
  constructor
  · intro id w found
    by_cases same : id = db.wallet.withdrawals.size
    · subst same
      rw [wrote.get] at found
      cases found
      refine ⟨⟨_, mine, rfl, rfl, rfl, assetNetwork, account, network, held, owner, by rw [ofAsset, sameAsset, ofNetwork]⟩,
        fun _ => (Ledger.transactionsFor_same transactions _ _).trans unposted, ?_⟩
      intro credited
      cases credited
    · rw [wrote.other same] at found
      exact (custody.withdrawals id w found).moved rfl moved.moved (elsewhere id same)
        (Ledger.transactionsFor_same transactions _ _)
  · intro id beyond
    obtain ⟨outside, apart⟩ := wrote.beyond.mp beyond
    rw [← custody.noReservation id outside]
    exact elsewhere id apart
  · intro id beyond
    exact (Ledger.transactionsFor_same transactions _ _).trans (custody.noTransaction id (wrote.beyond.mp beyond).1)

end Custody

end WithdrawalsService

end VerdictVaut
