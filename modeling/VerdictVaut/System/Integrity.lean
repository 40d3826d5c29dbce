import VerdictVaut.System.Platform
import VerdictVaut.System.SettlementRuns

set_option autoImplicit false

namespace VerdictVaut

open Relational Relational.Tx VerdictVaut.Core ExecutionCoordinator ResolutionService WithdrawalsService DepositsService

inductive StandingEffect (db db' : Db) : Prop
  -- the ways in which a step changes the withdrawals that are there
  | unchanged (same : db' = db)
  | changed {operation : Operation} {withdrawalId : Nat} {old new : Withdrawal} {funds : Funds}
      (done : Changed operation db db' withdrawalId old new funds)

inductive WithdrawalEffect (db db' : Db) : Prop
  -- the ways in which a step of the withdrawals changes the database
  | unchanged (same : db' = db)
  | changed {operation : Operation} {withdrawalId : Nat} {old new : Withdrawal} {funds : Funds}
      (done : Changed operation db db' withdrawalId old new funds)
  | requested {now : Time} {prepared : Prepared} (fits : PreparedFits db prepared) (done : Requested db db' now prepared)

inductive WalletEffect (db db' : Db) : Prop
  -- the ways in which a step of the wallet changes the database
  | unchanged (same : db' = db)
  | changed {operation : Operation} {withdrawalId : Nat} {old new : Withdrawal} {funds : Funds}
      (done : Changed operation db db' withdrawalId old new funds)
  | requested {now : Time} {prepared : Prepared} (fits : PreparedFits db prepared) (done : Requested db db' now prepared)
  | observed {input : ObservedTransactionInput} {depositId : Nat} {row : Deposit}
      (done : Observed db db' input depositId row)
  | rejected {depositId : Nat} {e : Deposit} {now : Time} {reason : String} {t : Table Deposit}
      (found : db.wallet.deposits.get? depositId = some e) (waiting : e.status = .pending ∨ e.status = .confirmed)
      (same : db' = { db with wallet := { db.wallet with deposits := t } })
      (wrote : Table.Wrote db.wallet.deposits t depositId
        { e with status := .rejected, failureReason := some reason, lastCheckedAt := some now })

section Frames

variable {db db' : Db}

theorem StandingEffect.withdrawal (effect : StandingEffect db db') : WithdrawalEffect db db' := by
  cases effect with
  | unchanged same => exact .unchanged same
  | changed done => exact .changed done

theorem WithdrawalEffect.wallet (effect : WithdrawalEffect db db') : WalletEffect db db' := by
  cases effect with
  | unchanged same => exact .unchanged same
  | changed done => exact .changed done
  | requested fits done => exact .requested fits done

theorem WithdrawalEffect.deposits (effect : WithdrawalEffect db db') : db'.wallet.deposits = db.wallet.deposits := by
  cases effect with
  | unchanged same => rw [same]
  | changed done =>
    obtain ⟨t, l, rfl, -⟩ := done.result
    rfl
  | requested fits done =>
    obtain ⟨t, l, assetId, asset, rfl, -⟩ := done.result
    rfl

structure WalletFrame (db db' : Db) : Prop where
  -- the parts of the database that the wallet never writes, and what it does to the ledger
  core : ∃ l, db'.core = { db.core with ledger := l }
  networks : db'.wallet.networks = db.wallet.networks
  assetNetworks : db'.wallet.assetNetworks = db.wallet.assetNetworks
  walletAddresses : db'.wallet.walletAddresses = db.wallet.walletAddresses
  moved : WalletMoved .deposit db.core.ledger db'.core.ledger ∨ WalletMoved .withdrawal db.core.ledger db'.core.ledger

theorem WalletEffect.frame (effect : WalletEffect db db') : WalletFrame db db' := by
  cases effect with
  | unchanged same =>
    rw [same]
    exact ⟨⟨_, rfl⟩, rfl, rfl, rfl, .inl (.refl _ _)⟩
  | changed done =>
    have moved := done.ledger.moved
    obtain ⟨t, l, rfl, -⟩ := done.result
    exact ⟨⟨l, rfl⟩, rfl, rfl, rfl, .inr moved⟩
  | requested fits done =>
    obtain ⟨t, l, assetId, asset, rfl, -, moved, -⟩ := done.result
    exact ⟨⟨l, rfl⟩, rfl, rfl, rfl, .inr moved⟩
  | observed done =>
    have moved := done.ledger.1
    obtain ⟨t, l, rfl, -⟩ := done.result
    exact ⟨⟨l, rfl⟩, rfl, rfl, rfl, .inl moved⟩
  | rejected found waiting same wrote =>
    subst same
    exact ⟨⟨_, rfl⟩, rfl, rfl, rfl, .inl (.refl _ _)⟩

theorem walletMoved_elsewhere {kind : ReferenceType} {l l' : Ledger} (moved : WalletMoved kind l l') (t : LedgerTransaction)
    (member : t ∈ l'.transactions.rows) : t ∈ l.transactions.rows ∨ t.referenceType = kind := by
  obtain ⟨new, rows, mine⟩ := moved.moved.transactions
  rw [rows] at member
  exact (List.mem_append.mp member).imp id fun inside => of_decide_eq_true (mine t inside)

theorem Settleable.wallet {kind : ReferenceType} {c : Core} {l : Ledger} (settleable : Settleable c)
    (moved : WalletMoved kind c.ledger l) (apart : tradingKinds kind = false) : Settleable { c with ledger := l } := by
  have outside : ∀ type, tradingKinds type = true → onlyKind kind type = false := by
    intro type trading
    refine decide_eq_false ?_
    rintro rfl
    rw [apart] at trading
    cases trading
  have elsewhere : ∀ type, tradingKinds type = true → ∀ t ∈ l.transactions.rows,
      t ∈ c.ledger.transactions.rows ∨ t.referenceType ≠ type := by
    intro type trading t member
    refine (walletMoved_elsewhere moved t member).imp id ?_
    rintro rfl rfl
    rw [apart] at trading
    cases trading
  obtain ⟨⟨sound, backing, solvent, listed⟩, lifecycle, payouts⟩ := settleable
  refine ⟨⟨moved.moved.sound sound, ?_, ?_, listed⟩, ⟨lifecycle.running, lifecycle.traded, lifecycle.finished⟩, ?_⟩
  · exact backing.untouched ⟨moved.moved.assets, moved.moved.accounts, .refl _ _⟩ backing.agrees rfl rfl rfl
      (fun o => moved.moved.reservations _ _ (outside _ rfl)) rfl
  · exact solvent.neutral ⟨rfl, rfl, rfl, rfl, rebalanced_refl _, fun _ new => new.elim, moved.moved.assets,
      elsewhere .position rfl⟩ (fun _ => rfl) rfl (elsewhere .completeSetMint rfl) moved.markets
  · exact payouts.kept solvent rfl (fun _ _ _ => rfl) (fun _ position found _ => ⟨position, found, rfl, rfl⟩) moved.moved
      fun id => moved.moved.transactionsFor id (outside _ rfl)

theorem WalletFrame.settleable (frame : WalletFrame db db') (settleable : Settleable db.core) : Settleable db'.core := by
  have moved := frame.moved
  obtain ⟨l, same⟩ := frame.core
  rw [same] at moved ⊢
  rcases moved with moved | moved
  · exact settleable.wallet moved rfl
  · exact settleable.wallet moved rfl

theorem WalletFrame.assets (frame : WalletFrame db db') : db'.core.ledger.assets = db.core.ledger.assets :=
  frame.moved.elim (fun moved => moved.moved.assets) fun moved => moved.moved.assets

theorem WalletFrame.persists (frame : WalletFrame db db') : Persists db.core db'.core := by
  have assets := frame.assets
  obtain ⟨l, same⟩ := frame.core
  rw [same] at assets ⊢
  exact ⟨.refl _ _, fun _ _ _ => rfl, assets, fun _ => id, fun _ _ => id⟩

theorem WalletEffect.custody (effect : WalletEffect db db') (custody : Custody db) (sound : db.core.ledger.Sound) :
    Custody db' := by
  cases effect with
  | unchanged same =>
    rw [same]
    exact custody
  | changed done => exact custody.changed sound done
  | requested fits done => exact custody.requested sound fits done
  | observed done =>
    have moved := done.ledger.1
    obtain ⟨t, l, rfl, -⟩ := done.result
    exact custody.moved rfl rfl moved.moved rfl
  | rejected found waiting same wrote =>
    subst same
    exact custody.moved rfl rfl (.refl (onlyKind .deposit) _) rfl

theorem WalletEffect.crediting (effect : WalletEffect db db') (crediting : Crediting db) (sound : db.core.ledger.Sound) :
    Crediting db' := by
  cases effect with
  | unchanged same =>
    rw [same]
    exact crediting
  | changed done =>
    have moved := done.ledger.moved
    obtain ⟨t, l, rfl, -⟩ := done.result
    exact crediting.moved rfl moved.moved rfl
  | requested fits done =>
    obtain ⟨t, l, assetId, asset, rfl, -, moved, -⟩ := done.result
    exact crediting.moved rfl moved.moved rfl
  | observed done => exact crediting.observed sound done
  | rejected found waiting same wrote =>
    subst same
    exact crediting.rejected found waiting (by simp) wrote

end Frames

theorem Ordered.initial (seed : Seed) : Ordered seed.core := by
  refine ⟨⟨Ledger.Books.initial _, ⟨?_, ?_⟩, ?_, ?_, ?_⟩, ⟨⟨?_, ?_⟩, ?_, ?_, ?_, ?_, ?_, ?_⟩,
    ⟨⟨?_, ?_, ?_, ?_, ?_, ?_, ?_, ?_⟩, ?_, ?_, ?_, ?_, ?_⟩, ?_⟩
  all_goals simp [Seed.core, Ledger.initial, Ledger.accounts, Exchange.positions, Reserved.forRef, Listed,
    openInterest, VerdictVaut.minted, paidOut, weighted, Ledger.balanceOf, Ledger.held]

theorem Settleable.initial (seed : Seed) : Settleable seed.core := by
  refine ⟨.initial seed, ⟨?_, ?_, ?_⟩, ⟨?_, ?_⟩⟩
  all_goals simp [Seed.core, Ledger.initial, Ledger.transactionsFor]

def WalletAction.isDeposit : WalletAction → Bool
  | .recordObservedTransaction .. | .rejectIfNotCredited .. => true
  | _ => false

def WalletAction.isRequest : WalletAction → Bool
  | .request .. => true
  | _ => false

namespace Platform

variable {config : WalletConfig} {s : Platform}

section Attempts

variable {α : Type} {body : Tx Db Fault α}

theorem attempt_some {a : α} {db : Db} (done : s.attempt body = some (a, db)) : body.run s.db = .ok (a, db) := by
  unfold attempt at done
  split at done
  next result ran =>
    cases done
    exact runTransaction_ok ran
  next => cases done

theorem look_some {a : α} (seen : s.look body = some a) : ∃ db, body.run s.db = .ok (a, db) := by
  unfold look at seen
  split at seen
  next a' db ran =>
    cases seen
    exact ⟨db, ran⟩
  next => cases seen

theorem transact_cases (s : Platform) (body : Tx Db Fault α) (events : α → List Event) : s.transact body events = s ∨
    ∃ a db, body.run s.db = .ok (a, db) ∧ s.transact body events = { s with db := db, log := s.log ++ events a } := by
  unfold transact
  cases ran : s.attempt body with
  | none => exact .inl rfl
  | some result => exact .inr ⟨result.1, result.2, attempt_some ran, rfl⟩

end Attempts

structure Integrity (s : Platform) : Prop where
  -- what holds of the platform between any two steps
  settleable : Settleable s.db.core
  fits : DeskFits s.db.core s.desk
  custody : Custody s.db
  crediting : Crediting s.db
  requests : ∀ prepared ∈ s.requests, PreparedFits s.db prepared
  declarations : ∀ declaration ∈ s.declarations, declaration.status ∈ stuckStatuses

section Effects

theorem transact_effect {α : Type} {body : Tx Db Fault α} {R : Db → Prop} (events : α → List Event) (unchanged : R s.db)
    (effect : ∀ a db, body.run s.db = .ok (a, db) → R db) : R (s.transact body events).db := by
  rcases transact_cases s body events with same | ⟨a, db, ran, same⟩
  · rw [same]
    exact unchanged
  · rw [same]
    exact effect a db ran

theorem changed_effect {α : Type} {body : Tx Db Fault α} (events : α → List Event) {operation : Operation}
    {withdrawalId : Nat} {funds : Funds} (effect : ∀ a db, body.run s.db = .ok (a, db) →
      ∃ old new, Changed operation s.db db withdrawalId old new funds) :
    StandingEffect s.db (s.transact body events).db := by
  refine transact_effect events (.unchanged rfl) fun a db ran => ?_
  obtain ⟨old, new, changed⟩ := effect a db ran
  exact .changed changed

theorem confirm_effect {withdrawalId : Nat} {confirmations required : Int} {observed : Option ObservedChainTransaction}
    {watch : Option Watch} : StandingEffect s.db (s.confirm config withdrawalId confirmations required observed watch).db := by
  unfold confirm
  split
  · refine transact_effect _ (.unchanged rfl) fun a db ran => ?_
    rcases recordUnconfirmed_ok ran with same | ⟨old, new, changed⟩
    · exact .unchanged same
    · exact .changed changed
  · split <;> exact .unchanged rfl

theorem walletStep_standing (declarations : ∀ declaration ∈ s.declarations, declaration.status ∈ stuckStatuses)
    {action : WalletAction} (other : action.isDeposit = false) (standing : action.isRequest = false) :
    StandingEffect s.db (s.walletStep config action).db := by
  have same : StandingEffect s.db s.db := .unchanged rfl
  cases action with
  | recordObservedTransaction | rejectIfNotCredited => cases other
  | request => cases standing
  | prepareRequest | gatherEvidence =>
    simp only [walletStep]
    split <;> exact same
  | cancel userId withdrawalId => exact changed_effect _ fun a db ran => cancel_ok ran
  | approve withdrawalId actorId =>
    simp only [walletStep]
    split
    next a db ran =>
      obtain ⟨old, new, changed⟩ := approve_ok (attempt_some ran)
      exact .changed changed
    next => exact same
  | claimLease k =>
    simp only [walletStep]
    split
    next =>
      split
      next a db ran =>
        obtain ⟨old, new, changed⟩ := claimLease_ok (attempt_some ran)
        exact .changed changed
      next => exact same
    next => exact same
  | startExecution k =>
    simp only [walletStep]
    split
    · split <;> exact same
    · exact same
  | abortExecution k | endExecution k outcome =>
    simp only [walletStep]
    split <;> exact same
  | recordExecution k now =>
    simp only [walletStep]
    split
    next =>
      simp only [setPhase]
      exact changed_effect _ fun a db ran => recordExecution_ok ran
    next => exact same
  | reject withdrawalId reason actorId => exact changed_effect _ fun a db ran => reject_ok ran
  | fail withdrawalId reason => exact changed_effect _ fun a db ran => fail_ok ran
  | failProviderRejectedSubmission withdrawalId reason =>
    refine transact_effect _ (.unchanged rfl) fun a db ran => ?_
    rcases failProviderRejectedSubmission_ok ran with ⟨-, same⟩ | ⟨-, old, new, changed⟩
    · exact .unchanged same
    · exact .changed changed
  | resolveAmbiguousExecution now withdrawalId actorId resolution =>
    exact changed_effect _ fun a db ran => resolveAmbiguousExecution_ok ran
  | declareExecutionAmbiguous k reason =>
    simp only [walletStep]
    split
    next declaration listed =>
      refine transact_effect _ (.unchanged rfl) fun a db ran => ?_
      obtain ⟨old, new, changed, -⟩ := declareExecutionAmbiguous_ok ran
        (declarations declaration (List.mem_of_getElem? listed))
      exact .changed changed
    next => exact same
  | recordManualBroadcast now withdrawalId adminId txHash =>
    exact changed_effect _ fun a db ran => recordManualBroadcast_ok ran
  | recordProviderBroadcast now withdrawalId txHash providerReference =>
    refine transact_effect _ (.unchanged rfl) fun a db ran => ?_
    rcases recordProviderBroadcast_ok ran with ⟨-, same⟩ | ⟨-, old, new, changed⟩
    · exact .unchanged same
    · exact .changed changed
  | readBroadcast withdrawalId =>
    simp only [walletStep]
    split
    · split <;> exact same
    · exact same
  | checkOne k status required =>
    simp only [walletStep]
    split
    next watch listed =>
      split
      next => exact same
      next => exact changed_effect _ fun a db ran => fail_ok ran
      next => exact confirm_effect
    next => exact same
  | recordConfirmation withdrawalId confirmations required observed => exact confirm_effect
  | creditConfirmed k now =>
    simp only [walletStep]
    split
    next confirmation listed =>
      refine transact_effect _ (.unchanged rfl) fun a db ran => ?_
      rcases creditConfirmed_ok ran with ⟨-, same⟩ | ⟨-, old, new, changed⟩
      · exact .unchanged same
      · exact .changed changed
    next => exact same

theorem walletStep_withdrawals (integrity : Integrity s) {action : WalletAction} (other : action.isDeposit = false) :
    WithdrawalEffect s.db (s.walletStep config action).db := by
  cases requested : action.isRequest with
  | false => exact (walletStep_standing integrity.declarations other requested).withdrawal
  | true =>
    cases action with
    | request k now =>
      simp only [walletStep]
      split
      next prepared listed =>
        refine transact_effect _ (.unchanged rfl) fun a db ran => ?_
        rcases request_ok ran with ⟨same, -⟩ | ⟨-, requested⟩
        · exact .unchanged same
        · exact .requested (integrity.requests prepared (List.mem_of_getElem? listed)) requested
      next => exact .unchanged rfl
    | _ => cases requested

theorem walletStep_deposits {action : WalletAction} (deposit : action.isDeposit = true) :
    WalletEffect s.db (s.walletStep config action).db ∧
      (s.walletStep config action).db.wallet.withdrawals = s.db.wallet.withdrawals := by
  cases action with
  | recordObservedTransaction now input =>
    simp only [walletStep]
    rcases transact_cases s (recordObservedTransaction now input) (fun _ => [.observed input]) with same | ⟨a, db, ran, same⟩
    · rw [same]
      exact ⟨.unchanged rfl, rfl⟩
    · rw [same]
      obtain ⟨depositId, row, observed⟩ := recordObservedTransaction_ok ran
      refine ⟨.observed observed, ?_⟩
      obtain ⟨t, l, rfl, -⟩ := observed.result
      rfl
  | rejectIfNotCredited now depositId reason =>
    simp only [walletStep]
    rcases transact_cases s (rejectIfNotCredited now depositId reason) (fun _ => []) with same | ⟨a, db, ran, same⟩
    · rw [same]
      exact ⟨.unchanged rfl, rfl⟩
    · rw [same]
      rcases rejectIfNotCredited_ok ran with same | ⟨e, t, found, waiting, same, wrote⟩
      · exact ⟨.unchanged same, by rw [same]⟩
      · exact ⟨.rejected found waiting same wrote, by rw [same]⟩
  | _ => cases deposit

theorem walletStep_effect (integrity : Integrity s) (action : WalletAction) :
    WalletEffect s.db (s.walletStep config action).db := by
  cases deposit : action.isDeposit with
  | false => exact (walletStep_withdrawals integrity deposit).wallet
  | true => exact (walletStep_deposits deposit).1

end Effects

section Runs

theorem prepare_fits {userId : Nat} {dto : RequestWithdrawalDto} {compliance : WithdrawalComplianceAssessment}
    {randomUUID : String} {prepared : Prepared} {db db' : Db}
    (done : (WithdrawalsService.prepare config userId dto compliance randomUUID).run db = .ok (prepared, db')) :
    PreparedFits db prepared := by
  simp only [WithdrawalsService.prepare, run_bind_ok, run_throwIf_ok, run_pure, Except.ok.injEq, Prod.mk.injEq] at done
  obtain ⟨_, _, owner, ⟨⟨assetId, asset⟩, ⟨networkId, network⟩, assetNetworkId, assetNetwork⟩, _, route, _, _, checked, _, _,
    ⟨-, rfl⟩, _, _, ⟨-, rfl⟩, rfl, rfl⟩ := done
  simp only [checkOwner, run_bind_ok, run_read, run_orThrow_ok, run_throwIf_ok, Except.ok.injEq, Prod.mk.injEq] at owner
  obtain ⟨_, _, ⟨-, rfl⟩, _, _, ⟨-, rfl⟩, -, rfl⟩ := owner
  simp only [findRoute, run_bind_ok, run_read, run_orThrow_ok, run_throwIf_ok, run_pure, Except.ok.injEq,
    Prod.mk.injEq] at route
  obtain ⟨_, _, ⟨rfl, rfl⟩, _, _, ⟨rfl, rfl⟩, _, _, ⟨foundAsset, rfl⟩, _, _, ⟨-, rfl⟩, _, _, ⟨rfl, rfl⟩, _, _,
    ⟨foundRoute, rfl⟩, _, _, -, ⟨rfl, rfl, rfl⟩, -⟩ := route
  obtain ⟨foundAsset, -⟩ := Table.find?_some foundAsset
  obtain ⟨foundRoute, mine⟩ := Table.find?_some foundRoute
  simp only [Bool.and_eq_true, decide_eq_true_eq] at mine
  exact ⟨⟨asset, foundAsset, rfl⟩, ⟨assetNetwork, foundRoute, mine.1⟩⟩

/-- What the calls in flight hold, other than those of `approve` and the watcher. -/
def held (s : Platform) : Desk × List Prepared × List Declaration := (s.desk, s.requests, s.declarations)

theorem transact_held {α : Type} (body : Tx Db Fault α) (events : α → List Event) :
    (s.transact body events).held = s.held := by
  rcases transact_cases s body events with same | ⟨a, db, -, same⟩
  · rw [same]
  · rw [same]
    rfl

theorem confirm_held {withdrawalId : Nat} {confirmations required : Int} {observed : Option ObservedChainTransaction}
    {watch : Option Watch} : (s.confirm config withdrawalId confirmations required observed watch).held = s.held := by
  unfold confirm
  split
  · exact transact_held _ _
  · split <;> rfl

theorem walletStep_held (config : WalletConfig) (s : Platform) (action : WalletAction) :
    (s.walletStep config action).held = s.held ∨
      ((s.walletStep config action).db = s.db ∧
        ((∃ prepared, PreparedFits s.db prepared ∧
            (s.walletStep config action).held = (s.desk, s.requests ++ [prepared], s.declarations)) ∨
          ∃ declaration : Declaration, declaration.status ∈ stuckStatuses ∧
            (s.walletStep config action).held = (s.desk, s.requests, s.declarations ++ [declaration]))) := by
  cases action with
  | prepareRequest userId dto compliance randomUUID =>
    simp only [walletStep]
    split
    next prepared seen =>
      obtain ⟨db, done⟩ := look_some seen
      exact .inr ⟨rfl, .inl ⟨prepared, prepare_fits done, rfl⟩⟩
    next => exact .inl rfl
  | gatherEvidence withdrawalId actorId chain =>
    simp only [walletStep]
    split
    next declaration seen =>
      obtain ⟨db, done⟩ := look_some seen
      exact .inr ⟨rfl, .inr ⟨declaration, gatherEvidence_ok done, rfl⟩⟩
    next => exact .inl rfl
  | recordObservedTransaction | rejectIfNotCredited | cancel | reject | fail | failProviderRejectedSubmission
  | resolveAmbiguousExecution | recordManualBroadcast | recordProviderBroadcast => exact .inl (transact_held _ _)
  | recordConfirmation => exact .inl confirm_held
  | request k | declareExecutionAmbiguous k | creditConfirmed k =>
    simp only [walletStep]
    split
    · exact .inl (transact_held _ _)
    · exact .inl rfl
  | approve | abortExecution | endExecution =>
    simp only [walletStep]
    split <;> exact .inl rfl
  | claimLease | startExecution | readBroadcast =>
    simp only [walletStep]
    split
    · split <;> exact .inl rfl
    · exact .inl rfl
  | recordExecution k now =>
    simp only [walletStep]
    split
    · exact .inl (transact_held _ _)
    · exact .inl rfl
  | checkOne k status required =>
    simp only [walletStep]
    split
    next =>
      split
      · exact .inl rfl
      · exact .inl (transact_held _ _)
      · exact .inl confirm_held
    next => exact .inl rfl

theorem Integrity.initial (seed : Seed) : Integrity (Platform.initial seed) := by
  refine ⟨.initial seed, ⟨?_, ?_, ?_, ?_, ?_, ?_, ?_⟩, ⟨?_, ?_, ?_⟩, ⟨?_, ?_⟩, ?_, ?_⟩
  all_goals simp [Platform.initial, Desk.empty, Seed.wallet, Seed.core, Ledger.initial, Ledger.transactionsFor, Reserved.forRef]

theorem Integrity.walletStep (integrity : Integrity s) (action : WalletAction) :
    Integrity (s.walletStep config action) := by
  have effect := @walletStep_effect config s integrity action
  have frame := effect.frame
  have sound := integrity.settleable.ordered.sound
  have fits := integrity.fits.persist frame.persists
  have requests : ∀ prepared ∈ s.requests, PreparedFits (s.walletStep config action).db prepared := by
    intro prepared member
    exact (integrity.requests prepared member).carried frame.assets frame.assetNetworks
  obtain ⟨desk, requested, declared⟩ : (s.walletStep config action).desk = s.desk ∧
      (∀ prepared ∈ (s.walletStep config action).requests, PreparedFits (s.walletStep config action).db prepared) ∧
      ∀ declaration ∈ (s.walletStep config action).declarations, declaration.status ∈ stuckStatuses := by
    rcases walletStep_held config s action with same | ⟨same, ⟨prepared, fits, held⟩ | ⟨declaration, stuck, held⟩⟩
    · simp only [held, Prod.mk.injEq] at same
      rw [same.2.1, same.2.2]
      exact ⟨same.1, requests, integrity.declarations⟩
    · simp only [Platform.held, Prod.mk.injEq] at held
      rw [held.2.1, held.2.2]
      refine ⟨held.1, List.forall_mem_append.mpr ⟨requests, ?_⟩, integrity.declarations⟩
      rw [same]
      simpa using fits
    · simp only [Platform.held, Prod.mk.injEq] at held
      rw [held.2.1, held.2.2]
      exact ⟨held.1, requests, List.forall_mem_append.mpr ⟨integrity.declarations, by simpa using stuck⟩⟩
  refine ⟨frame.settleable integrity.settleable, ?_, effect.custody integrity.custody sound,
    effect.crediting integrity.crediting sound, requested, declared⟩
  rw [desk]
  exact fits

theorem Integrity.advanced (integrity : Integrity s) {core : Core} {desk : Desk} (advances : Advances s.db.core core)
    (settleable : Settleable core) (fits : DeskFits core desk) :
    Integrity { s with db := { s.db with core := core }, desk := desk } := by
  refine ⟨settleable, fits, ?_, ?_, ?_, integrity.declarations⟩
  · exact integrity.custody.moved rfl rfl advances.moved rfl
  · exact integrity.crediting.moved rfl advances.moved rfl
  · exact fun prepared member => (integrity.requests prepared member).carried advances.moved.assets rfl

theorem Integrity.traded (integrity : Integrity s) {core : Core} {desk : Desk} (effect : TradingEffect s.db.core core)
    (fits : DeskFits core desk) : Integrity { s with db := { s.db with core := core }, desk := desk } :=
  integrity.advanced (effect.advances integrity.settleable.ordered) (integrity.settleable.step effect) fits

theorem Integrity.step (integrity : Integrity s) (action : Action) : Integrity (s.step config action) := by
  cases action with
  | wallet action => exact integrity.walletStep action
  | trading action =>
    exact integrity.traded (tradingStep_effect integrity.settleable.ordered integrity.fits action)
      (tradingStep_fits integrity.settleable.ordered integrity.fits action)

theorem Reached.integrity (reached : Reached config s) : Integrity s := by
  refine Reachable.invariant Integrity ?_ ?_ reached
  · rintro _ ⟨seed, rfl⟩
    exact .initial seed
  · exact fun s action _ integrity => integrity.step action

end Runs

end Platform

end VerdictVaut
