import VerdictVaut.Wallet.Effects

set_option autoImplicit false

namespace VerdictVaut.WithdrawalsService

open Relational Relational.Tx Db

inductive Operation
  | cancel | reject | fail | failProviderRejectedSubmission | approve | claimLease
  | recordExecution (outcome : ExecutionOutcome)
  | resolveAmbiguousExecution | declareExecutionAmbiguous | recordManualBroadcast
  | recordProviderBroadcast (txHash : String)
  | recordUnconfirmed | creditConfirmed
  deriving DecidableEq

inductive Funds
  -- what a transaction does with the funds behind the withdrawal
  | held | released | captured
  deriving DecidableEq

inductive Moves : Operation → Withdrawal → Withdrawal → Funds → Prop
  -- the transitions of the state machine: the row before, the row after, and the funds
  | cancel {w : Withdrawal} (allowed : w.status ∈ [WithdrawalStatus.requested, .riskReview]) :
    Moves .cancel w { w with status := .cancelled } .released
  | reject {w : Withdrawal} (reason : String) (allowed : w.status ∈ [WithdrawalStatus.requested, .riskReview, .approved]) :
    Moves .reject w { w with status := .rejected, failureReason := some reason } .released
  | fail {w : Withdrawal} (reason : String)
    (allowed : w.status ∈ [WithdrawalStatus.approved, .pendingManualBroadcast, .broadcasting, .broadcast, .confirming]) :
    Moves .fail w { w with status := .failed, failureReason := some reason } .released
  | failProviderRejectedSubmission {w : Withdrawal} (reason : String)
    (allowed : w.status ∈ [WithdrawalStatus.approved, .pendingManualBroadcast, .broadcasting]) :
    Moves .failProviderRejectedSubmission w { w with status := .failed, failureReason := some reason } .released
  | approve {w : Withdrawal} (allowed : w.status = .riskReview) : Moves .approve w { w with status := .approved } .held
  | claimLease {w : Withdrawal} (allowed : w.status = .approved) :
    Moves .claimLease w { w with status := .broadcasting } .held
  | recordExecution {w : Withdrawal} (now : Time) (outcome : ExecutionOutcome) (allowed : w.status = .broadcasting) :
    Moves (.recordExecution outcome) w (executed now outcome w) .held
  | confirmBroadcast {w : Withdrawal} (now : Time) (txHash : String) (allowed : w.status = .executionAmbiguous) :
    Moves .resolveAmbiguousExecution w
      { w with status := .broadcast, txHash := some txHash, broadcastAt := some now } .held
  | confirmNotExecuted {w : Withdrawal} (allowed : w.status = .executionAmbiguous) :
    Moves .resolveAmbiguousExecution w { w with status := .approved } .held
  | declareExecutionAmbiguous {w : Withdrawal} (reason : Option String)
    (allowed : w.status ∈ [WithdrawalStatus.broadcasting, .pendingManualBroadcast, .broadcast, .confirming]) :
    Moves .declareExecutionAmbiguous w
      { w with status := .executionAmbiguous, txHash := none, failureReason := reason } .held
  | recordManualBroadcast {w : Withdrawal} (now : Time) (adminId : Nat) (txHash : String)
    (allowed : w.status = .pendingManualBroadcast) :
    Moves .recordManualBroadcast w
      { w with
        status := .broadcast
        txHash := some txHash
        broadcastByAdminId := some adminId
        broadcastAt := some now } .held
  | recordProviderBroadcast {w : Withdrawal} (now : Time) (txHash : String) (providerReference : Option String)
    (allowed : w.status = .pendingManualBroadcast) :
    Moves (.recordProviderBroadcast txHash) w
      { w with
        status := .broadcast
        txHash := some txHash
        custodyReference := providerReference.or w.custodyReference
        broadcastAt := some now } .held
  | recordUnconfirmed {w : Withdrawal} (allowed : w.status ∈ [WithdrawalStatus.broadcast, .confirming]) :
    Moves .recordUnconfirmed w { w with status := .confirming } .held
  | creditConfirmed {w : Withdrawal} (now : Time) (allowed : w.status ∈ [WithdrawalStatus.broadcast, .confirming]) :
    Moves .creditConfirmed w { w with status := .credited, confirmedAt := some now } .captured

def seize (r : Reservation) : Reservation := if r.isActive then { r with status := .captured } else r

structure Released (l l' : Ledger) (withdrawalId : Nat) : Prop where
  moved : WalletMoved .withdrawal l l'
  reservation : Reserved.OnRef l.funds l'.funds .withdrawal withdrawalId Reserved.settle
  transactions : l'.transactions = l.transactions

structure Captured (l l' : Ledger) (withdrawalId : Nat) (input : Ledger.PostTransactionInput) : Prop where
  moved : WalletMoved .withdrawal l l'
  reservation : Reserved.OnRef l.funds l'.funds .withdrawal withdrawalId seize
  posting : ∃ l₁, WalletMoved .withdrawal l l₁ ∧ l₁.transactions = l.transactions ∧
    ((l' = l₁ ∧ ∃ t ∈ l.transactions.rows, t.idempotencyKey = input.idempotencyKey) ∨
      ∃ assetId, Ledger.Posted l₁ l' input assetId)

def FundsMoved (db : Db) (l : Ledger) (withdrawalId : Nat) (w : Withdrawal) : Funds → Prop
  | .held => l = db.core.ledger
  | .released => Released db.core.ledger l withdrawalId
  | .captured => ∃ assetNetwork asset, db.wallet.assetNetworks.get? w.assetNetworkId = some assetNetwork ∧
      db.core.ledger.assets.get? assetNetwork.assetId = some asset ∧
      Captured db.core.ledger l withdrawalId (captureInput withdrawalId w asset.symbol)

structure Changed (operation : Operation) (db db' : Db) (withdrawalId : Nat) (old new : Withdrawal) (funds : Funds) :
    Prop where
  -- one withdrawal makes a transition, and nothing else of the wallet changes
  found : db.wallet.withdrawals.get? withdrawalId = some old
  moves : Moves operation old new funds
  result : ∃ t l, db' = { core := { db.core with ledger := l }, wallet := { db.wallet with withdrawals := t } } ∧
    Table.Wrote db.wallet.withdrawals t withdrawalId new ∧ FundsMoved db l withdrawalId new funds

section Helpers

variable {db db' : Db} {withdrawalId : Nat} {w : Withdrawal} {u : Unit}

theorem getWithdrawal_ok (done : (getWithdrawal withdrawalId).run db = .ok (w, db')) :
    db' = db ∧ db.wallet.withdrawals.get? withdrawalId = some w := by
  simp only [getWithdrawal, run_bind_ok, run_read, Except.ok.injEq, Prod.mk.injEq, run_orThrow_ok] at done
  obtain ⟨_, _, ⟨rfl, rfl⟩, found, rfl⟩ := done
  exact ⟨rfl, found⟩

theorem assertSuperAdmin_ok {actorId : Nat} (done : (assertSuperAdmin actorId).run db = .ok (u, db')) : db' = db := by
  simp only [assertSuperAdmin, run_bind_ok, run_read, Except.ok.injEq, Prod.mk.injEq, run_orThrow_ok,
    run_throwIf_ok] at done
  obtain ⟨_, _, ⟨rfl, rfl⟩, _, _, ⟨-, rfl⟩, -, rfl⟩ := done
  rfl

theorem assertTxHashNotAlreadyUsed_ok {txHash : String}
    (done : (assertTxHashNotAlreadyUsed txHash).run db = .ok (u, db')) :
    db' = db ∧ ∀ w ∈ db.wallet.withdrawals.rows, w.txHash ≠ some txHash := by
  unfold assertTxHashNotAlreadyUsed at done
  rw [run_bind_of_ok run_find?, withdrawalsField_get] at done
  cases found : db.wallet.withdrawals.find? fun w => decide (w.txHash = some txHash) with
  | none =>
    simp only [found, run_pure, Except.ok.injEq, Prod.mk.injEq] at done
    exact ⟨done.2.symm, fun w member => by simpa using Table.find?_none.mp found w member⟩
  | some pair => simp [found] at done

theorem casTransition_ok {allowedFrom : List WithdrawalStatus} {data : Withdrawal → Withdrawal}
    (done : (casTransition withdrawalId allowedFrom data).run db = .ok (w, db')) :
    ∃ old t, db.wallet.withdrawals.get? withdrawalId = some old ∧ old.status ∈ allowedFrom ∧
      db' = { db with wallet := { db.wallet with withdrawals := t } } ∧
      Table.Wrote db.wallet.withdrawals t withdrawalId (data old) := by
  -- a compare-and-set that returns has found the row in an allowed status, and rewritten it
  simp only [casTransition, run_bind_ok] at done
  obtain ⟨count, _, ran, rest⟩ := done
  rcases run_updateMany_ok ran with ⟨rfl, rfl, -⟩ | ⟨rfl, old, t, found, picked, updated, rfl⟩
  · simp at rest
  · simp only [if_true, run_getOrThrow_ok] at rest
    obtain ⟨-, rfl⟩ := rest
    exact ⟨old, t, found, by simpa [statusIn] using picked, rfl, .of_update updated⟩

theorem releaseFunds_ok (done : (releaseFunds withdrawalId).run db = .ok (u, db')) :
    ∃ l, db' = { db with core := { db.core with ledger := l } } ∧ Released db.core.ledger l withdrawalId := by
  rw [releaseFunds, run_zoom_ok] at done
  obtain ⟨funds, released, rfl⟩ := done
  obtain ⟨onRef, how⟩ := Reserved.releaseByReference_onRef released
  refine ⟨_, rfl, ?_, onRef, rfl⟩
  rcases how with rfl | ⟨k, r, holds, rewritten⟩
  · exact .refl _ _
  · exact .rewritten rewritten (Reserved.activeFor_status holds).1

theorem captureFunds_ok (done : (captureFunds withdrawalId).run db = .ok (u, db')) :
    ∃ funds, db' = { db with core := { db.core with ledger := { db.core.ledger with funds := funds } } } ∧
      WalletMoved .withdrawal db.core.ledger { db.core.ledger with funds := funds } ∧
      Reserved.OnRef db.core.ledger.funds funds .withdrawal withdrawalId seize := by
  unfold captureFunds Reserved.findActiveByReference at done
  simp only [run_bind_ok, run_zoom_ok, run_find?, Except.ok.injEq, Prod.mk.injEq, fundsField_get, fundsField_set,
    Reserved.reservationsField_get] at done
  obtain ⟨row, _, ⟨_, ⟨rfl, rfl⟩, rfl⟩, rest⟩ := done
  cases found : db.core.ledger.funds.reservations.find? (Reserved.activeFor .withdrawal withdrawalId) with
  | none =>
    simp only [found, run_pure, Except.ok.injEq, Prod.mk.injEq] at rest
    obtain ⟨-, rfl⟩ := rest
    exact ⟨_, rfl, .refl _ _, .idle (Table.find?_none.mp found) fun r inactive => by rw [seize, inactive]; rfl⟩
  | some pair =>
    obtain ⟨k, r⟩ := pair
    obtain ⟨position, holds⟩ := Table.find?_some found
    simp only [found, run_bind_ok, run_zoom_ok, run_pure, Except.ok.injEq, Prod.mk.injEq, fundsField_get,
      fundsField_set] at rest
    obtain ⟨_, _, ⟨funds, captured, rfl⟩, -, rfl⟩ := rest
    refine ⟨funds, rfl, ?_⟩
    rcases Reserved.transition_ok (by simp) captured with ⟨-, rfl, inactive⟩ | ⟨-, r', active, rewritten⟩
    · exact absurd (Reserved.activeFor_status holds).2.2 (inactive r position)
    · have same := rewritten.found
      rw [position] at same
      cases same
      exact ⟨.rewritten rewritten (Reserved.activeFor_status holds).1,
        rewritten.onRef (Reserved.activeFor_isFor holds) (by simp [seize, Reservation.isActive, active])⟩

end Helpers

section Operations

variable {db db' : Db} {withdrawalId : Nat} {w : Withdrawal}

theorem released_ok {operation : Operation} {allowedFrom : List WithdrawalStatus} {data : Withdrawal → Withdrawal}
    {middle : Db} {u : Unit} (first : (casTransition withdrawalId allowedFrom data).run db = .ok (w, middle))
    (second : (releaseFunds withdrawalId).run middle = .ok (u, db'))
    (moves : ∀ old, old.status ∈ allowedFrom → Moves operation old (data old) .released) :
    ∃ old new, Changed operation db db' withdrawalId old new .released := by
  obtain ⟨old, t, found, allowed, rfl, wrote⟩ := casTransition_ok first
  obtain ⟨l, rfl, released⟩ := releaseFunds_ok second
  exact ⟨old, data old, found, moves old allowed, t, l, rfl, wrote, released⟩

theorem held_ok {operation : Operation} {allowedFrom : List WithdrawalStatus} {data : Withdrawal → Withdrawal}
    (done : (casTransition withdrawalId allowedFrom data).run db = .ok (w, db'))
    (moves : ∀ old, old.status ∈ allowedFrom → Moves operation old (data old) .held) :
    ∃ old new, Changed operation db db' withdrawalId old new .held := by
  obtain ⟨old, t, found, allowed, rfl, wrote⟩ := casTransition_ok done
  exact ⟨old, data old, found, moves old allowed, t, _, rfl, wrote, rfl⟩

theorem cancel_ok {userId : Nat} (done : (cancel userId withdrawalId).run db = .ok (w, db')) :
    ∃ old new, Changed .cancel db db' withdrawalId old new .released := by
  simp only [cancel, run_bind_ok, run_throwIf_ok, run_pure, Except.ok.injEq, Prod.mk.injEq] at done
  obtain ⟨_, _, owned, _, _, ⟨-, rfl⟩, _, _, first, _, _, second, -, rfl⟩ := done
  obtain ⟨rfl, -⟩ := getWithdrawal_ok owned
  exact released_ok first second fun old allowed => .cancel allowed

theorem reject_ok {reason : String} {actorId : Nat}
    (done : (reject withdrawalId reason actorId).run db = .ok (w, db')) :
    ∃ old new, Changed .reject db db' withdrawalId old new .released := by
  simp only [reject, releaseReservation, run_bind_ok, run_pure, Except.ok.injEq, Prod.mk.injEq] at done
  obtain ⟨_, _, authorized, _, _, first, _, _, second, -, rfl⟩ := done
  obtain rfl := assertSuperAdmin_ok authorized
  exact released_ok first second fun old allowed => .reject reason allowed

theorem fail_ok {reason : String} (done : (fail withdrawalId reason).run db = .ok (w, db')) :
    ∃ old new, Changed .fail db db' withdrawalId old new .released := by
  simp only [fail, releaseReservation, run_bind_ok, run_pure, Except.ok.injEq, Prod.mk.injEq] at done
  obtain ⟨_, _, first, _, _, second, -, rfl⟩ := done
  exact released_ok first second fun old allowed => .fail reason allowed

theorem failProviderRejectedSubmission_ok {reason : String} {count : Bool}
    (done : (failProviderRejectedSubmission withdrawalId reason).run db = .ok (count, db')) :
    (count = false ∧ db' = db) ∨
      (count = true ∧ ∃ old new, Changed .failProviderRejectedSubmission db db' withdrawalId old new .released) := by
  simp only [failProviderRejectedSubmission, run_bind_ok] at done
  obtain ⟨picked, _, ran, rest⟩ := done
  rcases run_updateMany_ok ran with ⟨rfl, rfl, -⟩ | ⟨rfl, old, t, found, allowed, updated, rfl⟩
  · simp only [Bool.false_eq_true, if_false, run_pure, Except.ok.injEq, Prod.mk.injEq] at rest
    exact .inl ⟨rest.1.symm, rest.2.symm⟩
  · simp only [if_true, run_bind_ok, run_pure, Except.ok.injEq, Prod.mk.injEq] at rest
    obtain ⟨_, _, released, rfl, rfl⟩ := rest
    obtain ⟨l, rfl, effect⟩ := releaseFunds_ok released
    exact .inr ⟨rfl, old, _, found, .failProviderRejectedSubmission reason (by simpa [statusIn] using allowed), t, l, rfl,
      .of_update updated, effect⟩

theorem approve_ok {actorId : Nat} (done : (approve withdrawalId actorId).run db = .ok (w, db')) :
    ∃ old new, Changed .approve db db' withdrawalId old new .held := by
  simp only [approve, run_bind_ok] at done
  obtain ⟨_, _, authorized, ran⟩ := done
  obtain rfl := assertSuperAdmin_ok authorized
  exact held_ok ran fun old allowed => .approve (by simpa using allowed)

theorem claimLease_ok (done : (claimLease withdrawalId).run db = .ok (w, db')) :
    ∃ old new, Changed .claimLease db db' withdrawalId old new .held :=
  held_ok done fun old allowed => .claimLease (by simpa using allowed)

theorem recordExecution_ok {now : Time} {outcome : ExecutionOutcome}
    (done : (recordExecution now withdrawalId outcome).run db = .ok (w, db')) :
    ∃ old new, Changed (.recordExecution outcome) db db' withdrawalId old new .held :=
  held_ok done fun old allowed => .recordExecution now outcome (by simpa using allowed)

theorem resolveAmbiguousExecution_ok {now : Time} {actorId : Nat} {resolution : AmbiguityResolution}
    (done : (resolveAmbiguousExecution now withdrawalId actorId resolution).run db = .ok (w, db')) :
    ∃ old new, Changed .resolveAmbiguousExecution db db' withdrawalId old new .held := by
  simp only [resolveAmbiguousExecution, run_bind_ok] at done
  obtain ⟨_, _, authorized, ran⟩ := done
  obtain rfl := assertSuperAdmin_ok authorized
  cases resolution with
  | confirmedBroadcast txHash =>
    simp only [run_bind_ok] at ran
    obtain ⟨_, _, unused, ran⟩ := ran
    obtain ⟨rfl, -⟩ := assertTxHashNotAlreadyUsed_ok unused
    exact held_ok ran fun old allowed => .confirmBroadcast now txHash (by simpa using allowed)
  | confirmedNotExecuted => exact held_ok ran fun old allowed => .confirmNotExecuted (by simpa using allowed)

def stuckStatuses : List WithdrawalStatus := [.broadcasting, .pendingManualBroadcast, .broadcast, .confirming]

theorem checkStuck_ok {chain : ChainStatus} {u : Unit} (done : (checkStuck withdrawalId w chain).run db = .ok (u, db')) :
    w.status ∈ stuckStatuses := by
  unfold checkStuck at done
  split at done
  next status => simp [stuckStatuses, status]
  next status => simp [stuckStatuses, status]
  next status => simp [stuckStatuses, status]
  next status => simp [stuckStatuses, status]
  next => simp at done

theorem gatherEvidence_ok {actorId : Nat} {chain : ChainStatus} {declaration : Declaration}
    (done : (gatherEvidence withdrawalId actorId chain).run db = .ok (declaration, db')) :
    declaration.status ∈ stuckStatuses := by
  simp only [gatherEvidence, run_bind_ok, run_pure, Except.ok.injEq, Prod.mk.injEq] at done
  obtain ⟨_, _, -, current, _, -, _, _, checked, rfl, -⟩ := done
  exact checkStuck_ok checked

theorem declareExecutionAmbiguous_ok {declaration : Declaration} {reason : String}
    (done : (declareExecutionAmbiguous declaration reason).run db = .ok (w, db'))
    (stuck : declaration.status ∈ stuckStatuses) :
    ∃ old new, Changed .declareExecutionAmbiguous db db' declaration.withdrawalId old new .held ∧
      old.txHash = declaration.txHash := by
  simp only [declareExecutionAmbiguous, run_bind_ok, run_throwIf_ok, run_getOrThrow_ok] at done
  obtain ⟨count, _, ran, _, _, ⟨counted, rfl⟩, -, rfl⟩ := done
  rcases run_updateMany_ok ran with ⟨rfl, rfl, -⟩ | ⟨rfl, old, t, found, picked, updated, rfl⟩
  · exact absurd rfl counted
  · simp only [Bool.and_eq_true, decide_eq_true_eq] at picked
    exact ⟨old, _, ⟨found, .declareExecutionAmbiguous _ (picked.1 ▸ stuck), t, _, rfl, .of_update updated, rfl⟩, picked.2⟩

theorem recordManualBroadcast_ok {now : Time} {adminId : Nat} {txHash : String}
    (done : (recordManualBroadcast now withdrawalId adminId txHash).run db = .ok (w, db')) :
    ∃ old new, Changed .recordManualBroadcast db db' withdrawalId old new .held := by
  simp only [recordManualBroadcast, run_bind_ok] at done
  obtain ⟨_, _, authorized, _, _, unused, ran⟩ := done
  obtain rfl := assertSuperAdmin_ok authorized
  obtain ⟨rfl, -⟩ := assertTxHashNotAlreadyUsed_ok unused
  exact held_ok ran fun old allowed => .recordManualBroadcast now adminId txHash (by simpa using allowed)

theorem recordProviderBroadcast_ok {now : Time} {txHash : String} {providerReference : Option String} {count : Bool}
    (done : (recordProviderBroadcast now withdrawalId txHash providerReference).run db = .ok (count, db')) :
    (count = false ∧ db' = db) ∨
      (count = true ∧ ∃ old new, Changed (.recordProviderBroadcast txHash) db db' withdrawalId old new .held) := by
  simp only [recordProviderBroadcast, run_bind_ok] at done
  obtain ⟨_, _, unused, ran⟩ := done
  obtain ⟨rfl, -⟩ := assertTxHashNotAlreadyUsed_ok unused
  rcases run_updateMany_ok ran with ⟨rfl, rfl, -⟩ | ⟨rfl, old, t, found, picked, updated, rfl⟩
  · exact .inl ⟨rfl, rfl⟩
  · exact .inr ⟨rfl, old, _, found, .recordProviderBroadcast now txHash providerReference
      (by simpa [statusIn] using picked), t, _, rfl, .of_update updated, rfl⟩

theorem recordUnconfirmed_ok (done : (recordUnconfirmed withdrawalId).run db = .ok (w, db')) :
    db' = db ∨ ∃ old new, Changed .recordUnconfirmed db db' withdrawalId old new .held := by
  simp only [recordUnconfirmed, run_bind_ok] at done
  obtain ⟨_, _, ran, looked⟩ := done
  obtain ⟨rfl, -⟩ := getWithdrawal_ok looked
  rcases run_updateMany_ok ran with ⟨-, rfl, -⟩ | ⟨-, old, t, found, picked, updated, rfl⟩
  · exact .inl rfl
  · exact .inr ⟨old, _, found, .recordUnconfirmed (by simpa [statusIn] using picked), t, _, rfl, .of_update updated, rfl⟩

theorem captureInput_elsewhere (symbol : String) :
    ∀ posting ∈ (captureInput withdrawalId w symbol).postings, ∀ m, posting.account ≠ .market m := by
  intro posting member m
  simp only [captureInput, capturePostings, List.mem_append, List.mem_cons, List.not_mem_nil, or_false] at member
  rcases member with (rfl | rfl) | inside
  · simp
  · simp
  · split at inside
    next => cases inside
    next =>
      obtain rfl := List.mem_singleton.mp inside
      simp

theorem creditConfirmed_ok {now : Time} {count : Bool}
    (done : (creditConfirmed now withdrawalId).run db = .ok (count, db')) :
    (count = false ∧ db' = db) ∨
      (count = true ∧ ∃ old new, Changed .creditConfirmed db db' withdrawalId old new .captured) := by
  simp only [creditConfirmed, run_bind_ok] at done
  obtain ⟨picked, _, ran, rest⟩ := done
  rcases run_updateMany_ok ran with ⟨rfl, rfl, -⟩ | ⟨rfl, old, t, found, allowed, updated, rfl⟩
  · simp only [Bool.false_eq_true, if_false, run_bind_ok, run_getOrThrow_ok, run_pure, Except.ok.injEq,
      Prod.mk.injEq] at rest
    obtain ⟨_, _, ⟨-, rfl⟩, rfl, rfl⟩ := rest
    exact .inl ⟨rfl, rfl⟩
  · simp only [if_true, run_bind_ok, run_getOrThrow_ok, run_read, run_orThrow_ok, run_zoom_ok, run_update_ok, run_pure,
      Except.ok.injEq, Prod.mk.injEq, withdrawalsField_get, withdrawalsField_set, assetNetworksField_get,
      ledgerField_get, ledgerField_set] at rest
    obtain ⟨row, _, ⟨row_, rfl⟩, assetNetwork, _, ⟨network, rfl⟩, _, _, ⟨rfl, rfl⟩, asset, _, ⟨named, rfl⟩, _, _, captured,
      posted, _, ⟨l, post, rfl⟩, current, _, ⟨current_, rfl⟩, _, _, ⟨t', updated', rfl⟩, rfl, rfl⟩ := rest
    have wrote : Table.Wrote db.wallet.withdrawals t withdrawalId _ := .of_update updated
    obtain ⟨funds, rfl, moved, onRef⟩ := captureFunds_ok captured
    have same : row = { old with status := .confirmed, confirmedAt := some now } := by
      rw [wrote.get] at row_
      exact (Option.some.inj row_).symm
    have same' : current = row := by
      rw [wrote.get] at current_
      rw [same]
      exact (Option.some.inj current_).symm
    subst same' same
    refine .inr ⟨rfl, old, _, found, .creditConfirmed now (by simpa [statusIn] using allowed), t', l, rfl,
      wrote.again (.of_update updated'), assetNetwork, asset, network, named, ?_⟩
    have input : ∀ w : Withdrawal, captureInput withdrawalId { w with status := .credited } asset.symbol =
        captureInput withdrawalId w asset.symbol := fun _ => rfl
    rcases Ledger.postTransaction_ok post with ⟨-, rfl, k, stored, key⟩ | ⟨-, -, assetId, effect⟩
    · exact ⟨moved, onRef, _, moved, rfl, .inl ⟨rfl, _, Table.get?_mem stored, key⟩⟩
    · have follows : WalletMoved .withdrawal _ l := .posted effect rfl rfl (captureInput_elsewhere _)
      refine ⟨moved.trans follows, ?_, _, moved, rfl, .inr ⟨assetId, effect⟩⟩
      exact onRef.trans (.same effect.reservations)

end Operations

section Requests

variable {db db' : Db} {now : Time} {prepared : Prepared} {withdrawalId : Nat}

structure Requested (db db' : Db) (now : Time) (prepared : Prepared) : Prop where
  -- a request that creates its withdrawal, with the funds earmarked on the user's account
  result : ∃ t l assetId asset, db' = { core := { db.core with ledger := l }, wallet := { db.wallet with withdrawals := t } } ∧
    Table.Wrote db.wallet.withdrawals t db.wallet.withdrawals.size { withdrawalRow now prepared with status := .riskReview } ∧
    WalletMoved .withdrawal db.core.ledger l ∧ l.transactions = db.core.ledger.transactions ∧
    db.core.ledger.assets.find? (fun asset => decide (asset.symbol = prepared.assetSymbol)) = some (assetId, asset) ∧
    ((∃ r ∈ db.core.ledger.funds.reservations.rows,
        r.idempotencyKey = Ledger.reserveKey .withdrawal db.wallet.withdrawals.size) ∨
      ∃ holderId account, l.accounts.get? holderId = some account ∧ account.owner = .user prepared.userId ∧
        account.assetId = assetId ∧ l.funds.reservations.rows = db.core.ledger.funds.reservations.rows ++
          [(reservation prepared db.wallet.withdrawals.size).input.row holderId])

theorem checkDailyLimit_ok {u : Unit} (done : (checkDailyLimit now prepared).run db = .ok (u, db')) : db' = db := by
  simp only [checkDailyLimit, run_bind_ok, run_read, Except.ok.injEq, Prod.mk.injEq] at done
  obtain ⟨_, _, ⟨rfl, rfl⟩, rest⟩ := done
  split at rest
  next =>
    simp only [run_pure, Except.ok.injEq, Prod.mk.injEq] at rest
    exact rest.2.symm
  next =>
    simp only [run_bind_ok, run_read, Except.ok.injEq, Prod.mk.injEq, run_throwIf_ok] at rest
    obtain ⟨_, _, ⟨-, rfl⟩, -, rfl⟩ := rest
    rfl

theorem request_ok (done : (request now prepared).run db = .ok (withdrawalId, db')) :
    (db' = db ∧ ∃ w, db.wallet.withdrawals.get? withdrawalId = some w ∧ w.userId = prepared.userId ∧
        w.clientWithdrawalId = prepared.clientWithdrawalId ∧ prepared.matchesRow w) ∨
      (withdrawalId = db.wallet.withdrawals.size ∧ Requested db db' now prepared) := by
  simp only [request, run_bind_ok] at done
  obtain ⟨⟨i, existed⟩, _, created, rest⟩ := done
  rcases run_createIdempotent_ok created with ⟨rfl, body⟩ | ⟨rfl, looked, -⟩
  · right
    simp only [run_bind_ok, run_create_ok, withdrawalsField_get, withdrawalsField_set] at body
    obtain ⟨_, _, checked, t, inserted, rfl, rfl⟩ := body
    obtain rfl := (checkDailyLimit_ok checked).symm
    simp only [Bool.false_eq_true, if_false, run_bind_ok, run_zoom_ok, run_getOrThrow_ok, run_update_ok, run_pure,
      Except.ok.injEq, Prod.mk.injEq, ledgerField_get, ledgerField_set, withdrawalsField_get, withdrawalsField_set] at rest
    obtain ⟨⟨k, existed⟩, _, ⟨l, reserved, rfl⟩, current, _, ⟨found, rfl⟩, _, _, ⟨t', updated, rfl⟩, rfl, rfl⟩ := rest
    obtain ⟨moved, balances, transactions, assetId, asset, named, how⟩ := Ledger.reserve_ok (onlyKind .withdrawal) reserved rfl rfl
    have wrote : Table.Wrote db.wallet.withdrawals t db.wallet.withdrawals.size _ := .of_insert inserted
    have same : current = withdrawalRow now prepared := by
      rw [wrote.get] at found
      exact (Option.some.inj found).symm
    subst same
    refine ⟨rfl, t', l, assetId, asset, rfl, wrote.again (.of_update updated),
      ⟨moved, fun m other => balances _ other⟩, transactions, named, ?_⟩
    rcases how with ⟨-, r, member, key⟩ | ⟨-, -, holderId, account, held, owner, ofAsset, added⟩
    · exact .inl ⟨r, member, key⟩
    · exact .inr ⟨holderId, account, held, owner, ofAsset, added⟩
  · left
    simp only [run_bind_ok, run_findOrThrow_ok, run_pure, Except.ok.injEq, Prod.mk.injEq] at looked
    obtain ⟨⟨j, w⟩, _, ⟨hit, rfl⟩, rfl, rfl⟩ := looked
    obtain ⟨position, mine⟩ := Table.find?_some hit
    simp only [if_true, run_bind_ok, run_getOrThrow_ok, run_throwIf_ok, run_pure, Except.ok.injEq, Prod.mk.injEq] at rest
    obtain ⟨row, _, ⟨found, rfl⟩, _, _, ⟨fits, rfl⟩, rfl, rfl⟩ := rest
    have same : row = w := by
      rw [position] at found
      exact (Option.some.inj found).symm
    subst same
    simp only [Bool.and_eq_true, decide_eq_true_eq] at mine
    exact ⟨rfl, row, position, mine.1, mine.2, not_not.mp fits⟩

end Requests

end VerdictVaut.WithdrawalsService
