import VerdictVaut.System.Leases

set_option autoImplicit false

namespace VerdictVaut

open Relational Relational.Tx Db WithdrawalsService

variable {config : WalletConfig} {s : Platform}

section Money

structure MoneyAgrees (db : Db) (id : Nat) (w : Withdrawal) : Prop where
  -- a withdrawal's status, its reservation, its ledger transaction and its hash agree
  reservation : ∃ r, db.core.ledger.funds.forRef .withdrawal id = [r] ∧ r.amount = w.amount ∧
    (r.status = .active ↔ w.status ∈ [WithdrawalStatus.riskReview, .approved, .broadcasting, .pendingManualBroadcast,
      .executionAmbiguous, .broadcast, .confirming]) ∧
    (r.status = .released ↔ w.status ∈ [WithdrawalStatus.cancelled, .rejected, .failed]) ∧
    (r.status = .captured ↔ w.status = .credited)
  paid : w.status = .credited → ∃ k t, db.core.ledger.transactionsFor .withdrawal id = [t] ∧ t.type = .withdrawal ∧
    db.core.ledger.PostedAs k t (capturePostings w)
  unpaid : w.status ≠ .credited → db.core.ledger.transactionsFor .withdrawal id = []
  hash : w.status ∈ [WithdrawalStatus.broadcast, .confirming, .credited] → ∃ txHash, w.txHash = some txHash ∧
    ∀ other w', db.wallet.withdrawals.get? other = some w' → w'.txHash = some txHash → other = id

def WithdrawalStatus.isFinal (status : WithdrawalStatus) : Prop :=
  status ∈ [WithdrawalStatus.cancelled, .rejected, .failed, .credited]

theorem isFinal_iff {status : WithdrawalStatus} {r : ReservationStatus} (known : status.reservation = some r) :
    status.isFinal ↔ r ≠ .active := by
  cases status <;> simp_all [WithdrawalStatus.isFinal, WithdrawalStatus.reservation] <;> subst known <;> simp

theorem onChain_hash {t : Table Withdrawal} {id : Nat} {w : Withdrawal} (found : t.get? id = some w)
    (sent : w.status ∈ [WithdrawalStatus.broadcast, .confirming, .credited]) : ∃ txHash, w.txHash = some txHash ∧
      ∀ other w', t.get? other = some w' → w'.txHash = some txHash → other = id := by
  have valid := Table.check_of_get? found
  have onChain : w.isOnChain = true := by
    simp only [List.mem_cons, List.not_mem_nil, or_false] at sent
    rcases sent with status | status | status <;> simp [Withdrawal.isOnChain, status]
  simp only [RowSpec.check, onChain, Bool.not_true, Bool.false_or, Bool.and_eq_true] at valid
  obtain ⟨txHash, hash⟩ := Option.isSome_iff_exists.mp valid.2
  refine ⟨txHash, hash, fun other w' found' hash' => ?_⟩
  by_contra different
  have apart := Table.clash_of_ne found' found different
  simp [RowSpec.clash, hash, hash'] at apart

theorem moneyAgrees_of_settled {db : Db} {id : Nat} {w : Withdrawal} (settled : Settled db id w)
    (found : db.wallet.withdrawals.get? id = some w) : MoneyAgrees db id w := by
  obtain ⟨r, single, status, earmarked⟩ := settled.reservation
  refine ⟨⟨r, single, earmarked.amount, ?_⟩, fun credited => (settled.paid credited).posted, settled.unpaid, onChain_hash found⟩
  generalize r.status = reserved at status
  cases current : w.status <;> rw [current] at status <;> cases status <;> simp

theorem Platform.Reached.final (reached : Platform.Reached config s) {id : Nat} {w : Withdrawal}
    (found : s.db.wallet.withdrawals.get? id = some w) (final : w.status.isFinal) (actions : List Action) :
    (actions.foldl (Platform.step config) s).db.wallet.withdrawals.get? id = some w := by
  induction actions generalizing s with
  | nil => exact found
  | cons action rest ih =>
    refine ih (reached.tail action) ?_
    obtain ⟨r, -, status, -⟩ := (reached.integrity.custody.withdrawals id w found).reservation
    have idle := (isFinal_iff status).mp final
    have still : ∀ {operation : Operation} {w' : Withdrawal} {funds : Funds}, ¬ Moves operation w w' funds :=
      fun moves => idle (moves.status status).1
    obtain ⟨w', found', row⟩ := (@Platform.step_calls config s reached.integrity action).row found
    cases row with
    | same => exact found'
    | moved _ moves => exact (still moves).elim
    | approved moves => exact (still moves).elim
    | leased _ _ _ moves => exact (still moves).elim
    | recorded _ _ _ moves => exact (still moves).elim

theorem reached_moneyAgrees (reached : Platform.Reached config s) {id : Nat} {w : Withdrawal}
    (found : s.db.wallet.withdrawals.get? id = some w) : MoneyAgrees s.db id w ∧
      (w.status.isFinal → ∀ actions : List Action, ((actions.foldl (Platform.step config) s).db.wallet.withdrawals.get? id).map
        Withdrawal.status = some w.status) := by
  refine ⟨moneyAgrees_of_settled (reached.integrity.custody.withdrawals id w found) found, fun final actions => ?_⟩
  rw [reached.final found final actions]
  rfl

def requestedWithdrawal : List Action :=
  -- a withdrawal of 50, up to the moment when an administrator approves it
  [.deposit 1 "0x1" 100,
    .wallet (.prepareRequest 1 ⟨"USDC", "ETHEREUM", 50, "0xdest", none, none⟩ ⟨.pass, none⟩ "w"), .wallet (.request 0 0)]

def sentWithdrawal : List Action :=
  requestedWithdrawal ++ [.wallet (.approve 0 0), .wallet (.claimLease 0), .wallet (.startExecution 0),
    .wallet (.endExecution 0 (some (.broadcast "0xh" none))), .wallet (.recordExecution 0 1)]

def creditedWithdrawal : List Action :=
  sentWithdrawal ++ [.wallet (.recordConfirmation 0 12 12 none), .wallet (.creditConfirmed 0 2)]

theorem creditedWithdrawal_moneyAgrees : ∃ w,
    (Platform.after creditedWithdrawal).db.wallet.withdrawals.get? 0 = some w ∧ w.status = .credited ∧
      MoneyAgrees (Platform.after creditedWithdrawal).db 0 w ∧ (w.status.isFinal → ∀ actions : List Action,
        ((actions.foldl (Platform.step .sample) (Platform.after creditedWithdrawal)).db.wallet.withdrawals.get? 0).map
          Withdrawal.status = some w.status) := by
  have credited : ((Platform.after creditedWithdrawal).db.wallet.withdrawals.get? 0).map Withdrawal.status =
      some .credited := by decide +kernel
  obtain ⟨w, found, status⟩ := Option.map_eq_some_iff.mp credited
  exact ⟨w, found, status, reached_moneyAgrees (Platform.reached_after creditedWithdrawal) found⟩

end Money

section Executor

/-- However the calls interleave, the executor is started at most once for a withdrawal. -/
theorem reached_executed_once (reached : Platform.Reached config s) (id : Nat) : s.executions id ≤ 1 :=
  reached.calls.once id

theorem sentWithdrawal_executed_once : (Platform.after sentWithdrawal).executions 0 = 1 ∧
    (Platform.after sentWithdrawal).executions 0 ≤ 1 :=
  ⟨by decide +kernel, reached_executed_once (Platform.reached_after sentWithdrawal) 0⟩

/-- From the lease until the executor's answer is recorded, the funds stay reserved: only a failed submission
releases them, and only a declaration opens any other way. -/
theorem reached_leaseHeld (reached : Platform.Reached config s) {call : ApproveCall} (member : call ∈ s.approvals)
    (holds : call.phase.holdsLease = true) (undeclared : ¬ s.DeclaredSince call.withdrawalId call.leasedAt) :
    ∃ w r, s.db.wallet.withdrawals.get? call.withdrawalId = some w ∧
      s.db.core.ledger.funds.forRef .withdrawal call.withdrawalId = [r] ∧
      ((w.status = .broadcasting ∧ r.status = .active) ∨
        (w.status = .failed ∧ s.FailedSince call.withdrawalId call.leasedAt)) := by
  obtain ⟨w, found, -, -, -, lease⟩ := (reached.calls.fits call member).row
  obtain ⟨r, single, status, -⟩ := (reached.integrity.custody.withdrawals _ w found).reservation
  refine ⟨w, r, found, single, ((lease holds).status undeclared).imp_left fun broadcasting => ⟨broadcasting, ?_⟩⟩
  rw [broadcasting] at status
  exact (Option.some.inj status).symm

def executingWithdrawal : List Action :=
  requestedWithdrawal ++ [.wallet (.approve 0 0), .wallet (.claimLease 0), .wallet (.startExecution 0)]

theorem executingWithdrawal_leaseHeld : ∃ call ∈ (Platform.after executingWithdrawal).approvals,
    call.phase.holdsLease = true ∧ ∃ w r,
      (Platform.after executingWithdrawal).db.wallet.withdrawals.get? call.withdrawalId = some w ∧
      (Platform.after executingWithdrawal).db.core.ledger.funds.forRef .withdrawal call.withdrawalId = [r] ∧
      ((w.status = .broadcasting ∧ r.status = .active) ∨ (w.status = .failed ∧
        (Platform.after executingWithdrawal).FailedSince call.withdrawalId call.leasedAt)) := by
  have listed : ((Platform.after executingWithdrawal).approvals[0]?).map
      (fun call => (call.withdrawalId, call.phase.holdsLease, call.leasedAt)) = some (0, true, 3) := by decide +kernel
  obtain ⟨call, found, columns⟩ := Option.map_eq_some_iff.mp listed
  simp only [Prod.mk.injEq] at columns
  refine ⟨call, List.mem_of_getElem? found, columns.2.1, reached_leaseHeld (Platform.reached_after executingWithdrawal)
    (List.mem_of_getElem? found) columns.2.1 ?_⟩
  rw [columns.1, columns.2.2]
  decide +kernel

/-- The provider's webhook reports the submission rejected while the executor call is still running. -/
def rejectedSubmission : List Action :=
  executingWithdrawal ++ [.wallet (.failProviderRejectedSubmission 0 "rejected")]

theorem rejectedSubmission_released : ¬ ∀ call ∈ (Platform.after rejectedSubmission).approvals,
    call.phase.holdsLease = true → ∀ w, (Platform.after rejectedSubmission).db.wallet.withdrawals.get? call.withdrawalId =
      some w → w.status ≠ .failed ∧ ∀ r ∈ (Platform.after rejectedSubmission).db.core.ledger.funds.forRef .withdrawal
        call.withdrawalId, r.status = .active := by
  intro claimed
  have listed : ((Platform.after rejectedSubmission).approvals[0]?).map
      (fun call => (call.withdrawalId, call.phase.holdsLease)) = some (0, true) := by decide +kernel
  have failed : ((Platform.after rejectedSubmission).db.wallet.withdrawals.get? 0).map Withdrawal.status = some .failed := by
    decide +kernel
  obtain ⟨call, found, columns⟩ := Option.map_eq_some_iff.mp listed
  simp only [Prod.mk.injEq] at columns
  obtain ⟨w, row, status⟩ := Option.map_eq_some_iff.mp failed
  exact (claimed call (List.mem_of_getElem? found) columns.2 w (by rw [columns.1]; exact row)).1 status

end Executor

section Evidence

/-- The `checkOne` call, if any, on whose chain lookup a step acts. -/
def Platform.evidence (s : Platform) : WalletAction → Option Watch
  | .checkOne k _ _ => s.watched[k]?
  | .creditConfirmed k _ => s.confirming[k]?.bind Confirmation.watch
  | _ => none

theorem Platform.evidence_watched {action : WalletAction} {watch : Watch} (calls : Calls s)
    (gathered : s.evidence action = some watch) : watch ∈ s.watched := by
  cases action with
  | checkOne k => exact List.mem_of_getElem? gathered
  | creditConfirmed k =>
    obtain ⟨confirmation, listed, origin⟩ := Option.bind_eq_some_iff.mp gathered
    exact (calls.confirmations confirmation (List.mem_of_getElem? listed) watch origin).1
  | _ => cases gathered

/-- A step fails or credits the withdrawal; `w` is its row at that moment. -/
def Platform.Concludes (config : WalletConfig) (s : Platform) (action : WalletAction) (id : Nat) (w : Withdrawal) : Prop :=
  s.db.wallet.withdrawals.get? id = some w ∧
    ∃ w', (s.step config (.wallet action)).db.wallet.withdrawals.get? id = some w' ∧ w'.status ≠ w.status ∧
      (w'.status = .failed ∨ w'.status = .credited)

theorem Platform.Concludes.of_status {action : WalletAction} {id : Nat} {old new : WithdrawalStatus} {txHash : Option String}
    (before : (s.db.wallet.withdrawals.get? id).map (fun w => (w.status, w.txHash)) = some (old, txHash))
    (after : ((s.step config (.wallet action)).db.wallet.withdrawals.get? id).map Withdrawal.status = some new)
    (changed : new ≠ old) (final : new = .failed ∨ new = .credited) :
    ∃ w, s.Concludes config action id w ∧ w.txHash = txHash := by
  obtain ⟨w, found, columns⟩ := Option.map_eq_some_iff.mp before
  obtain ⟨w', found', rfl⟩ := Option.map_eq_some_iff.mp after
  simp only [Prod.mk.injEq] at columns
  exact ⟨w, ⟨found, w', found', by rw [columns.1]; exact changed, final⟩, columns.2⟩

/-- Unless somebody declared the withdrawal ambiguous in between, the watcher fails or credits only a row that still
has the hash it looked up. -/
theorem reached_evidence (reached : Platform.Reached config s) {action : WalletAction} {watch : Watch}
    (gathered : s.evidence action = some watch) (undeclared : ¬ s.DeclaredSince watch.withdrawalId watch.readAt)
    {w : Withdrawal} (concludes : s.Concludes config action watch.withdrawalId w) : w.txHash = some watch.txHash := by
  have member := Platform.evidence_watched reached.calls gathered
  obtain ⟨w', found, known⟩ := (reached.calls.watches watch member).row
  rw [concludes.1] at found
  cases found
  exact (known undeclared).1

def watchedBroadcast : List Action :=
  -- the broadcast is recorded, and the watcher has read its hash
  requestedWithdrawal ++ [.wallet (.approve 0 0), .wallet (.claimLease 0), .wallet (.startExecution 0),
    .wallet (.endExecution 0 (some (.awaitingManualBroadcast none))), .wallet (.recordExecution 0 1),
    .wallet (.recordManualBroadcast 1 0 0 "0xh1"), .wallet (.readBroadcast 0)]

def failedOnChain : ChainTransactionStatus :=
  { amount := 49, destinationAddress := none, outputs := none, destinationTag := none, status := .failed, confirmations := 0 }

theorem watchedBroadcast_evidence : ∃ watch w, (Platform.after watchedBroadcast).evidence (.checkOne 0 failedOnChain 12) =
    some watch ∧ (Platform.after watchedBroadcast).Concludes .sample (.checkOne 0 failedOnChain 12) watch.withdrawalId w ∧
    w.txHash = some watch.txHash := by
  have gathered : (Platform.after watchedBroadcast).evidence (.checkOne 0 failedOnChain 12) = some ⟨0, "0xh1", 6⟩ := by
    decide +kernel
  obtain ⟨w, concludes, -⟩ := @Platform.Concludes.of_status .sample (Platform.after watchedBroadcast)
    (.checkOne 0 failedOnChain 12) 0 .broadcast .failed (some "0xh1") (by decide +kernel) (by decide +kernel) (by decide)
    (.inl rfl)
  exact ⟨_, w, gathered, concludes, reached_evidence (Platform.reached_after watchedBroadcast) gathered (by decide +kernel)
    concludes⟩

/-- The hash is declared lost and replaced by another one, between the watcher's read and its answer. -/
def replacedBroadcast : List Action :=
  watchedBroadcast ++ [.wallet (.gatherEvidence 0 0 .notFound), .wallet (.declareExecutionAmbiguous 0 "lost"),
    .wallet (.resolveAmbiguousExecution 2 0 0 (.confirmedBroadcast "0xh2"))]

theorem replacedBroadcast_failed : ¬ ∀ action watch w, (Platform.after replacedBroadcast).evidence action = some watch →
    (Platform.after replacedBroadcast).Concludes .sample action watch.withdrawalId w → w.txHash = some watch.txHash := by
  intro claimed
  have gathered : (Platform.after replacedBroadcast).evidence (.checkOne 0 failedOnChain 12) = some ⟨0, "0xh1", 6⟩ := by
    decide +kernel
  obtain ⟨w, concludes, replaced⟩ := @Platform.Concludes.of_status .sample (Platform.after replacedBroadcast)
    (.checkOne 0 failedOnChain 12) 0 .broadcast .failed (some "0xh2") (by decide +kernel) (by decide +kernel) (by decide)
    (.inl rfl)
  have same := claimed _ _ w gathered concludes
  rw [replaced] at same
  exact absurd same (by decide)

end Evidence

section Provider

variable {id : Nat} {txHash : String}

/-- A broadcast that was recorded once is recorded again, without a trace, exactly where its hash is on no row any more. -/
theorem reached_provider_replay (reached : Platform.Reached config s)
    (recorded : Event.moved id (.recordProviderBroadcast txHash) ∈ s.log) (now : Time) (providerReference : Option String) :
    (recordProviderBroadcast now id txHash providerReference).run s.db = .ok (false, s.db) ↔
      ∀ w ∈ s.db.wallet.withdrawals.rows, w.txHash ≠ some txHash := by
  obtain ⟨w, found, -, -, sent⟩ := (reached.calls.sent id txHash recorded).row
  constructor
  · intro done
    simp only [recordProviderBroadcast, run_bind_ok] at done
    obtain ⟨_, _, unused, -⟩ := done
    exact (assertTxHashNotAlreadyUsed_ok unused).2
  · intro unused
    have asserted : (assertTxHashNotAlreadyUsed txHash).run s.db = .ok ((), s.db) := by
      have none := Table.find?_none.mpr fun w member => decide_eq_false (unused w member)
      rw [assertTxHashNotAlreadyUsed, run_bind_of_ok run_find?, withdrawalsField_get, none]
      rfl
    rw [recordProviderBroadcast, run_bind_of_ok asserted]
    exact run_updateMany_unpicked found (by simpa [statusIn] using sent)

def providerBroadcast : List Action :=
  -- the provider's broadcast has just been recorded
  requestedWithdrawal ++ [.wallet (.approve 0 0), .wallet (.claimLease 0), .wallet (.startExecution 0),
    .wallet (.endExecution 0 (some (.awaitingManualBroadcast none))), .wallet (.recordExecution 0 1),
    .wallet (.recordProviderBroadcast 1 0 "0xh" none)]

theorem providerBroadcast_replay :
    Event.moved 0 (.recordProviderBroadcast "0xh") ∈ (Platform.after providerBroadcast).log ∧
      ((recordProviderBroadcast 2 0 "0xh" none).run (Platform.after providerBroadcast).db =
        .ok (false, (Platform.after providerBroadcast).db) ↔
      ∀ w ∈ (Platform.after providerBroadcast).db.wallet.withdrawals.rows, w.txHash ≠ some "0xh") := by
  have recorded : Event.moved 0 (.recordProviderBroadcast "0xh") ∈ (Platform.after providerBroadcast).log := by
    decide +kernel
  exact ⟨recorded, reached_provider_replay (Platform.reached_after providerBroadcast) recorded 2 none⟩

/-- The same report, delivered a second time, is refused as a conflict with the withdrawal's own hash. -/
theorem providerBroadcast_conflict :
    Event.moved 0 (.recordProviderBroadcast "0xh") ∈ (Platform.after providerBroadcast).log ∧
      ¬ (recordProviderBroadcast 2 0 "0xh" none).run (Platform.after providerBroadcast).db =
        .ok (false, (Platform.after providerBroadcast).db) := by
  have refused : ((recordProviderBroadcast 2 0 "0xh" none).run (Platform.after providerBroadcast).db).toBool = false := by
    decide +kernel
  refine ⟨by decide +kernel, fun done => ?_⟩
  rw [done] at refused
  cases refused

end Provider

end VerdictVaut
