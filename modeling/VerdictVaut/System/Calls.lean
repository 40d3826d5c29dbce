import VerdictVaut.System.Integrity

set_option autoImplicit false

namespace VerdictVaut

open Relational Relational.Tx WithdrawalsService DepositsService

namespace WithdrawalsService

structure RowMoved (operation : Operation) (db db' : Db) (id : Nat) (old new : Withdrawal) : Prop where
  -- one row of the withdrawals makes a transition
  found : db.wallet.withdrawals.get? id = some old
  moves : ∃ funds, Moves operation old new funds
  wrote : Table.Wrote db.wallet.withdrawals db'.wallet.withdrawals id new

/-- The operations that are one call each; the other three are the transactions of `approve`. -/
def Operation.isPlain : Operation → Prop
  | .approve | .claimLease | .recordExecution _ => False
  | _ => True

theorem Changed.rowMoved {operation : Operation} {db db' : Db} {id : Nat} {old new : Withdrawal} {funds : Funds}
    (changed : Changed operation db db' id old new funds) : RowMoved operation db db' id old new := by
  obtain ⟨t, l, rfl, wrote, -⟩ := changed.result
  exact ⟨changed.found, ⟨funds, changed.moves⟩, wrote⟩

theorem RowMoved.row {operation : Operation} {db db' : Db} {i : Nat} {old new : Withdrawal}
    (moved : RowMoved operation db db' i old new) {id : Nat} {w : Withdrawal}
    (found : db.wallet.withdrawals.get? id = some w) :
    (id ≠ i ∧ db'.wallet.withdrawals.get? id = some w) ∨
      (id = i ∧ w = old ∧ db'.wallet.withdrawals.get? id = some new) := by
  by_cases same : id = i
  · subst same
    rw [moved.found] at found
    cases found
    exact .inr ⟨rfl, rfl, moved.wrote.get⟩
  · exact .inl ⟨same, (moved.wrote.other same).trans found⟩

end WithdrawalsService

section Steps

/-- The phases between which a call of `approve` moves without a transaction. -/
inductive Turn : ApprovePhase → ApprovePhase → Prop
  | lost : Turn .approved .ended
  | aborted : Turn .leased (.returned none)
  | answered (outcome : ExecutionOutcome) : Turn .executing (.returned outcome)
  | unrecorded (outcome : ExecutionOutcome) : Turn (.returned outcome) .ended

inductive CallStep (s s' : Platform) : Prop
  -- what a step changes of the withdrawals, the calls and the log
  | quiet (withdrawals : s'.db.wallet.withdrawals = s.db.wallet.withdrawals) (approvals : s'.approvals = s.approvals)
      (watched : s'.watched = s.watched) (confirming : s'.confirming = s.confirming)
      (log : ∃ inputs : List ObservedTransactionInput, s'.log = s.log ++ inputs.map .observed)
  | requested {row : Withdrawal} (review : row.status = .riskReview)
      (wrote : Table.Wrote s.db.wallet.withdrawals s'.db.wallet.withdrawals s.db.wallet.withdrawals.size row)
      (approvals : s'.approvals = s.approvals) (watched : s'.watched = s.watched) (confirming : s'.confirming = s.confirming)
      (log : s'.log = s.log)
  | moved {operation : Operation} {id : Nat} {old new : Withdrawal} (plain : Operation.isPlain operation)
      (moved : RowMoved operation s.db s'.db id old new) (approvals : s'.approvals = s.approvals)
      (watched : s'.watched = s.watched) (confirming : s'.confirming = s.confirming)
      (log : s'.log = s.log ++ [.moved id operation] ∨ (operation = .recordUnconfirmed ∧ s'.log = s.log))
  | approved {id : Nat} {old new : Withdrawal} (moved : RowMoved .approve s.db s'.db id old new)
      (approvals : s'.approvals = s.approvals ++ [{ withdrawalId := id, phase := .approved, leasedAt := 0 }])
      (watched : s'.watched = s.watched) (confirming : s'.confirming = s.confirming)
      (log : s'.log = s.log ++ [.moved id .approve])
  | leased {k : Nat} {call : ApproveCall} {old new : Withdrawal} (listed : s.approvals[k]? = some call)
      (waiting : call.phase = .approved) (moved : RowMoved .claimLease s.db s'.db call.withdrawalId old new)
      (approvals : s'.approvals =
        s.approvals.set k { withdrawalId := call.withdrawalId, phase := .leased, leasedAt := s.log.length + 1 })
      (watched : s'.watched = s.watched) (confirming : s'.confirming = s.confirming)
      (log : s'.log = s.log ++ [.moved call.withdrawalId .claimLease])
  | executing {k : Nat} {call : ApproveCall} (listed : s.approvals[k]? = some call) (holds : call.phase = .leased)
      (withdrawals : s'.db.wallet.withdrawals = s.db.wallet.withdrawals)
      (approvals : s'.approvals = s.approvals.set k { call with phase := .executing })
      (watched : s'.watched = s.watched) (confirming : s'.confirming = s.confirming)
      (log : s'.log = s.log ++ [.executed call.withdrawalId])
  | turned {k : Nat} {call : ApproveCall} {phase : ApprovePhase} (listed : s.approvals[k]? = some call)
      (turn : Turn call.phase phase) (withdrawals : s'.db.wallet.withdrawals = s.db.wallet.withdrawals)
      (approvals : s'.approvals = s.approvals.set k { call with phase := phase })
      (watched : s'.watched = s.watched) (confirming : s'.confirming = s.confirming) (log : s'.log = s.log)
  | recorded {k : Nat} {call : ApproveCall} {outcome : ExecutionOutcome} {old new : Withdrawal}
      (listed : s.approvals[k]? = some call) (answered : call.phase = .returned outcome)
      (moved : RowMoved (.recordExecution outcome) s.db s'.db call.withdrawalId old new)
      (approvals : s'.approvals = s.approvals.set k { call with phase := .ended })
      (watched : s'.watched = s.watched) (confirming : s'.confirming = s.confirming)
      (log : s'.log = s.log ++ [.moved call.withdrawalId (.recordExecution outcome)])
  | watches {watch : Watch} {w : Withdrawal} (found : s.db.wallet.withdrawals.get? watch.withdrawalId = some w)
      (sent : w.status ∈ [WithdrawalStatus.broadcast, .confirming]) (hash : w.txHash = some watch.txHash)
      (readAt : watch.readAt = s.log.length) (withdrawals : s'.db.wallet.withdrawals = s.db.wallet.withdrawals)
      (approvals : s'.approvals = s.approvals) (watched : s'.watched = s.watched ++ [watch])
      (confirming : s'.confirming = s.confirming) (log : s'.log = s.log)
  | confirms {confirmation : Confirmation} (origin : ∀ watch, confirmation.watch = some watch →
        watch ∈ s.watched ∧ watch.withdrawalId = confirmation.withdrawalId)
      (withdrawals : s'.db.wallet.withdrawals = s.db.wallet.withdrawals) (approvals : s'.approvals = s.approvals)
      (watched : s'.watched = s.watched) (confirming : s'.confirming = s.confirming ++ [confirmation]) (log : s'.log = s.log)

theorem CallStep.same (s : Platform) : CallStep s s := .quiet rfl rfl rfl rfl ⟨[], (List.append_nil _).symm⟩

theorem CallStep.log {s s' : Platform} (step : CallStep s s') : ∃ events, s'.log = s.log ++ events := by
  have unchanged : s'.log = s.log → ∃ events, s'.log = s.log ++ events := fun same => ⟨[], by rw [same, List.append_nil]⟩
  cases step with
  | quiet _ _ _ _ log =>
    obtain ⟨inputs, log⟩ := log
    exact ⟨_, log⟩
  | requested _ _ _ _ _ log | turned _ _ _ _ _ _ log | watches _ _ _ _ _ _ _ _ log | confirms _ _ _ _ _ log =>
    exact unchanged log
  | approved _ _ _ _ log | leased _ _ _ _ _ _ log | executing _ _ _ _ _ _ log | recorded _ _ _ _ _ _ log => exact ⟨_, log⟩
  | moved _ _ _ _ _ log =>
    rcases log with log | ⟨-, log⟩
    · exact ⟨_, log⟩
    · exact unchanged log

end Steps

namespace Platform

variable {config : WalletConfig} {s : Platform}

section Effects

variable {α : Type} {body : Tx Db Fault α}

theorem transact_moved (operation : Operation) (id : Nat) {events : α → List Event} (plain : Operation.isPlain operation)
    (effect : ∀ a db, body.run s.db = .ok (a, db) → (db = s.db ∧ events a = []) ∨
      ((∃ old new funds, Changed operation s.db db id old new funds) ∧ events a = [.moved id operation])) :
    CallStep s (s.transact body events) := by
  -- a transaction that is one call: it throws, changes no withdrawal, or moves one and says so
  rcases transact_cases s body events with same | ⟨a, db, ran, same⟩
  · rw [same]
    exact .same s
  · rw [same]
    rcases effect a db ran with ⟨rfl, none⟩ | ⟨⟨old, new, funds, changed⟩, one⟩
    · rw [none, List.append_nil]
      exact .same s
    · rw [one]
      exact .moved plain changed.rowMoved rfl rfl rfl (.inl rfl)

theorem transact_quiet {events : α → List Event} (effect : ∀ a db, body.run s.db = .ok (a, db) →
      db.wallet.withdrawals = s.db.wallet.withdrawals ∧
      ∃ inputs : List ObservedTransactionInput, events a = inputs.map .observed) :
    CallStep s (s.transact body events) := by
  rcases transact_cases s body events with same | ⟨a, db, ran, same⟩
  · rw [same]
    exact .same s
  · rw [same]
    obtain ⟨withdrawals, inputs, observed⟩ := effect a db ran
    exact .quiet withdrawals rfl rfl rfl ⟨inputs, by rw [observed]⟩

theorem confirm_step {withdrawalId : Nat} {confirmations required : Int} {observed : Option ObservedChainTransaction}
    {watch : Option Watch} (origin : ∀ w, watch = some w → w ∈ s.watched ∧ w.withdrawalId = withdrawalId) :
    CallStep s (s.confirm config withdrawalId confirmations required observed watch) := by
  unfold confirm
  split
  · rcases transact_cases s (recordUnconfirmed withdrawalId) (fun _ => []) with same | ⟨a, db, ran, same⟩
    · rw [same]
      exact .same s
    · rw [same, List.append_nil]
      rcases recordUnconfirmed_ok ran with rfl | ⟨old, new, changed⟩
      · exact .same s
      · exact @CallStep.moved _ _ .recordUnconfirmed _ _ _ trivial changed.rowMoved rfl rfl rfl (.inr ⟨rfl, rfl⟩)
  · split
    · exact .confirms origin rfl rfl rfl rfl rfl
    · exact .same s

theorem request_calls (k : Nat) (now : Time) : CallStep s (s.walletStep config (.request k now)) := by
  simp only [walletStep]
  split
  next prepared listed =>
    rcases transact_cases s (request now prepared) (fun _ => []) with same | ⟨a, db, ran, same⟩
    · rw [same]
      exact .same s
    · rw [same, List.append_nil]
      rcases request_ok ran with ⟨rfl, -⟩ | ⟨-, requested⟩
      · exact .same s
      · obtain ⟨t, l, assetId, asset, rfl, wrote, -⟩ := requested.result
        exact .requested rfl wrote rfl rfl rfl rfl
  next => exact .same s

theorem creditConfirmed_calls (k : Nat) (now : Time) : CallStep s (s.walletStep config (.creditConfirmed k now)) := by
  simp only [walletStep]
  split
  next confirmation listed =>
    refine transact_moved .creditConfirmed confirmation.withdrawalId trivial fun a db ran => ?_
    rcases creditConfirmed_ok ran with ⟨rfl, same⟩ | ⟨rfl, old, new, changed⟩
    · exact .inl ⟨same, rfl⟩
    · exact .inr ⟨⟨old, new, _, changed⟩, rfl⟩
  next => exact .same s

theorem declareExecutionAmbiguous_calls (integrity : Integrity s) (k : Nat) (reason : String) :
    CallStep s (s.walletStep config (.declareExecutionAmbiguous k reason)) := by
  simp only [walletStep]
  split
  next declaration listed =>
    refine transact_moved .declareExecutionAmbiguous declaration.withdrawalId trivial fun a db ran => .inr ⟨?_, rfl⟩
    obtain ⟨old, new, changed, -⟩ := declareExecutionAmbiguous_ok ran
      (integrity.declarations declaration (List.mem_of_getElem? listed))
    exact ⟨old, new, _, changed⟩
  next => exact .same s

theorem claimLease_calls (k : Nat) : CallStep s (s.walletStep config (.claimLease k)) := by
  simp only [walletStep]
  split
  next withdrawalId leasedAt listed =>
    split
    next a db ran =>
      obtain ⟨old, new, changed⟩ := claimLease_ok (attempt_some ran)
      exact .leased listed rfl changed.rowMoved rfl rfl rfl rfl
    next => exact .turned listed .lost rfl rfl rfl rfl rfl
  next => exact .same s

theorem startExecution_calls (k : Nat) : CallStep s (s.walletStep config (.startExecution k)) := by
  simp only [walletStep]
  split
  next withdrawalId leasedAt listed =>
    split
    · exact .executing listed rfl rfl rfl rfl rfl rfl
    · exact .same s
  next => exact .same s

theorem recordExecution_calls (k : Nat) (now : Time) : CallStep s (s.walletStep config (.recordExecution k now)) := by
  simp only [walletStep]
  split
  next withdrawalId outcome leasedAt listed =>
    rcases transact_cases s (recordExecution now withdrawalId outcome)
      (fun _ => [.moved withdrawalId (.recordExecution outcome)]) with same | ⟨a, db, ran, same⟩
    · rw [same]
      exact .turned listed (.unrecorded outcome) rfl rfl rfl rfl rfl
    · rw [same]
      obtain ⟨old, new, changed⟩ := recordExecution_ok ran
      exact .recorded listed rfl changed.rowMoved rfl rfl rfl rfl
  next => exact .same s

theorem readBroadcast_calls (withdrawalId : Nat) : CallStep s (s.walletStep config (.readBroadcast withdrawalId)) := by
  simp only [walletStep]
  split
  next w found =>
    split
    next txHash sent hash =>
      refine @CallStep.watches _ _ { withdrawalId := withdrawalId, txHash := txHash, readAt := s.log.length } w found ?_ hash
        rfl rfl rfl rfl rfl rfl
      simpa [statusIn] using sent
    next => exact .same s
  next => exact .same s

theorem checkOne_calls (k : Nat) (status : ChainTransactionStatus) (required : Int) : CallStep s (s.walletStep config (.checkOne k status required)) := by
  simp only [walletStep]
  split
  next watch listed =>
    split
    next => exact .same s
    next reason _ =>
      refine transact_moved .fail watch.withdrawalId trivial fun a db ran => .inr ⟨?_, rfl⟩
      obtain ⟨old, new, changed⟩ := fail_ok ran
      exact ⟨old, new, _, changed⟩
    next =>
      refine confirm_step ?_
      rintro w ⟨⟩
      exact ⟨List.mem_of_getElem? listed, rfl⟩
  next => exact .same s

theorem walletStep_calls (integrity : Integrity s) (action : WalletAction) : CallStep s (s.walletStep config action) := by
  cases action with
  | recordObservedTransaction now input =>
    refine transact_quiet fun a db ran => ?_
    obtain ⟨depositId, row, observed⟩ := recordObservedTransaction_ok ran
    obtain ⟨t, l, rfl, -⟩ := observed.result
    exact ⟨rfl, [input], rfl⟩
  | rejectIfNotCredited now depositId reason =>
    refine transact_quiet fun a db ran => ?_
    rcases rejectIfNotCredited_ok ran with rfl | ⟨e, t, -, -, rfl, -⟩
    · exact ⟨rfl, [], rfl⟩
    · exact ⟨rfl, [], rfl⟩
  | prepareRequest | gatherEvidence =>
    simp only [walletStep]
    split
    · exact .quiet rfl rfl rfl rfl ⟨[], (List.append_nil _).symm⟩
    · exact .same s
  | request k now => exact request_calls k now
  | cancel userId withdrawalId =>
    refine transact_moved .cancel withdrawalId trivial fun a db ran => .inr ⟨?_, rfl⟩
    obtain ⟨old, new, changed⟩ := cancel_ok ran
    exact ⟨old, new, _, changed⟩
  | reject withdrawalId reason actorId =>
    refine transact_moved .reject withdrawalId trivial fun a db ran => .inr ⟨?_, rfl⟩
    obtain ⟨old, new, changed⟩ := reject_ok ran
    exact ⟨old, new, _, changed⟩
  | fail withdrawalId reason =>
    refine transact_moved .fail withdrawalId trivial fun a db ran => .inr ⟨?_, rfl⟩
    obtain ⟨old, new, changed⟩ := fail_ok ran
    exact ⟨old, new, _, changed⟩
  | resolveAmbiguousExecution now withdrawalId actorId resolution =>
    refine transact_moved .resolveAmbiguousExecution withdrawalId trivial fun a db ran => .inr ⟨?_, rfl⟩
    obtain ⟨old, new, changed⟩ := resolveAmbiguousExecution_ok ran
    exact ⟨old, new, _, changed⟩
  | recordManualBroadcast now withdrawalId adminId txHash =>
    refine transact_moved .recordManualBroadcast withdrawalId trivial fun a db ran => .inr ⟨?_, rfl⟩
    obtain ⟨old, new, changed⟩ := recordManualBroadcast_ok ran
    exact ⟨old, new, _, changed⟩
  | failProviderRejectedSubmission withdrawalId reason =>
    refine transact_moved .failProviderRejectedSubmission withdrawalId trivial fun a db ran => ?_
    rcases failProviderRejectedSubmission_ok ran with ⟨rfl, same⟩ | ⟨rfl, old, new, changed⟩
    · exact .inl ⟨same, rfl⟩
    · exact .inr ⟨⟨old, new, _, changed⟩, rfl⟩
  | recordProviderBroadcast now withdrawalId txHash providerReference =>
    refine transact_moved (.recordProviderBroadcast txHash) withdrawalId trivial fun a db ran => ?_
    rcases recordProviderBroadcast_ok ran with ⟨rfl, same⟩ | ⟨rfl, old, new, changed⟩
    · exact .inl ⟨same, rfl⟩
    · exact .inr ⟨⟨old, new, _, changed⟩, rfl⟩
  | creditConfirmed k now => exact creditConfirmed_calls k now
  | declareExecutionAmbiguous k reason => exact declareExecutionAmbiguous_calls integrity k reason
  | approve withdrawalId actorId =>
    simp only [walletStep]
    split
    next a db ran =>
      obtain ⟨old, new, changed⟩ := approve_ok (attempt_some ran)
      exact .approved changed.rowMoved rfl rfl rfl rfl
    next => exact .same s
  | claimLease k => exact claimLease_calls k
  | startExecution k => exact startExecution_calls k
  | abortExecution k =>
    simp only [walletStep]
    split
    next withdrawalId leasedAt listed => exact .turned listed .aborted rfl rfl rfl rfl rfl
    next => exact .same s
  | endExecution k outcome =>
    simp only [walletStep]
    split
    next withdrawalId leasedAt listed => exact .turned listed (.answered outcome) rfl rfl rfl rfl rfl
    next => exact .same s
  | recordExecution k now => exact recordExecution_calls k now
  | readBroadcast withdrawalId => exact readBroadcast_calls withdrawalId
  | checkOne k status required => exact checkOne_calls k status required
  | recordConfirmation withdrawalId confirmations required observed =>
    refine confirm_step ?_
    rintro w ⟨⟩

theorem step_calls (integrity : Integrity s) (action : Action) : CallStep s (s.step config action) := by
  cases action with
  | trading action => exact .quiet rfl rfl rfl rfl ⟨[], (List.append_nil _).symm⟩
  | wallet action => exact walletStep_calls integrity action

end Effects

end Platform

end VerdictVaut
