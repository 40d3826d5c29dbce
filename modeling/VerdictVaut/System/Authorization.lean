import VerdictVaut.System.Charged
import VerdictVaut.System.WithdrawalRuns

set_option autoImplicit false

namespace VerdictVaut

open Relational Relational.Tx WithdrawalsService

namespace WithdrawalsService

def isUndecided (w : Withdrawal) : Bool :=
  -- the statuses in which a withdrawal may be without anybody's approval
  decide (w.status ∈ [WithdrawalStatus.requested, .riskReview, .cancelled, .rejected])

/-- What a withdrawal is about from its request to its end: its terms, and how compliance stood to it. -/
def agreed (w : Withdrawal) := (terms w, w.complianceDecision)

structure AskedFor (w : Withdrawal) (userId : Nat) (dto : RequestWithdrawalDto)
    (compliance : WithdrawalComplianceAssessment) : Prop where
  -- the withdrawal is the one that its owner asked for, and compliance did not block it
  owner : w.userId = userId
  destination : w.destinationAddress = dto.destinationAddress
  tag : w.destinationTag = dto.destinationTag
  amount : w.amount = dto.amount
  fee : w.fee < w.amount
  assessed : w.complianceDecision = compliance.decision
  unblocked : compliance.decision ≠ .blocked

section Rows

variable {operation : Operation} {old new w : Withdrawal} {funds : Funds} {db db' : Db} {u : Unit}

theorem AskedFor.carried {w w' : Withdrawal} {userId : Nat} {dto : RequestWithdrawalDto}
    {compliance : WithdrawalComplianceAssessment} (asked : AskedFor w userId dto compliance) (same : agreed w' = agreed w) :
    AskedFor w' userId dto compliance := by
  simp only [agreed, terms, Prod.mk.injEq] at same
  obtain ⟨⟨owner, -, destination, tag, amount, fee, -⟩, assessed⟩ := same
  constructor
  next => rw [owner, asked.owner]
  next => rw [destination, asked.destination]
  next => rw [tag, asked.tag]
  next => rw [amount, asked.amount]
  next =>
    rw [amount, fee]
    exact asked.fee
  next => rw [assessed, asked.assessed]
  next => exact asked.unblocked

theorem Moves.agreed (moves : Moves operation old new funds) : agreed new = agreed old := by
  have compliance : new.complianceDecision = old.complianceDecision := by
    cases moves with
    | recordExecution now outcome allowed =>
      unfold executed
      split <;> rfl
    | _ => rfl
  unfold WithdrawalsService.agreed
  rw [moves.terms, compliance]

theorem Moves.decides (moves : Moves operation old new funds) (before : isUndecided old = true)
    (after : isUndecided new = false) : operation = .approve := by
  cases moves with
  | approve => rfl
  | cancel | reject => simp [isUndecided] at after
  | declareExecutionAmbiguous reason allowed =>
    simp only [isUndecided, List.mem_cons, List.not_mem_nil, or_false, decide_eq_true_eq] at before allowed
    rcases allowed with status | status | status | status <;> simp [status] at before
  | fail reason allowed =>
    simp only [isUndecided, List.mem_cons, List.not_mem_nil, or_false, decide_eq_true_eq] at before allowed
    rcases allowed with status | status | status | status | status <;> simp [status] at before
  | failProviderRejectedSubmission reason allowed =>
    simp only [isUndecided, List.mem_cons, List.not_mem_nil, or_false, decide_eq_true_eq] at before allowed
    rcases allowed with status | status | status <;> simp [status] at before
  | recordUnconfirmed allowed | creditConfirmed now allowed =>
    simp only [isUndecided, List.mem_cons, List.not_mem_nil, or_false, decide_eq_true_eq] at before allowed
    rcases allowed with status | status <;> simp [status] at before
  | claimLease allowed | confirmNotExecuted allowed => simp [isUndecided, allowed] at before
  | recordExecution now outcome allowed => simp [isUndecided, allowed] at before
  | confirmBroadcast now txHash allowed => simp [isUndecided, allowed] at before
  | recordManualBroadcast now adminId txHash allowed => simp [isUndecided, allowed] at before
  | recordProviderBroadcast now txHash providerReference allowed => simp [isUndecided, allowed] at before

theorem RowMoved.decided {i id : Nat} {w' : Withdrawal}
    (moved : RowMoved operation db db' i old new)
    (before : ∀ w, db.wallet.withdrawals.get? id = some w → isUndecided w = true)
    (found : db'.wallet.withdrawals.get? id = some w') (decided : isUndecided w' = false) :
    i = id ∧ operation = .approve := by
  by_cases here : id = i
  next =>
    subst here
    rw [moved.wrote.get] at found
    cases found
    obtain ⟨funds, moves⟩ := moved.moves
    exact ⟨rfl, moves.decides (before old moved.found) decided⟩
  next =>
    rw [moved.wrote.other here] at found
    rw [before w' found] at decided
    cases decided

theorem assertSuperAdmin_role {actorId : Nat} (done : (assertSuperAdmin actorId).run db = .ok (u, db')) :
    ∃ actor, db.core.users.get? actorId = some actor ∧ actor.role = .superAdmin := by
  simp only [assertSuperAdmin, run_bind_ok, run_read, Except.ok.injEq, Prod.mk.injEq, run_orThrow_ok,
    run_throwIf_ok, not_not] at done
  obtain ⟨_, _, ⟨rfl, rfl⟩, actor, _, ⟨found, rfl⟩, role, -⟩ := done
  exact ⟨actor, found, role⟩

theorem approve_role {withdrawalId actorId : Nat} (done : (approve withdrawalId actorId).run db = .ok (w, db')) :
    ∃ actor, db.core.users.get? actorId = some actor ∧ actor.role = .superAdmin := by
  simp only [approve, run_bind_ok] at done
  obtain ⟨_, _, authorized, -⟩ := done
  exact assertSuperAdmin_role authorized

theorem prepare_asked {config : WalletConfig} {userId : Nat} {dto : RequestWithdrawalDto}
    {compliance : WithdrawalComplianceAssessment} {randomUUID : String} {prepared : Prepared} (now : Time)
    (done : (prepare config userId dto compliance randomUUID).run db = .ok (prepared, db')) :
    AskedFor { withdrawalRow now prepared with status := .riskReview } userId dto compliance := by
  simp only [prepare, run_bind_ok, run_throwIf_ok, run_pure, Except.ok.injEq, Prod.mk.injEq] at done
  obtain ⟨_, _, -, _, _, -, _, _, -, _, _, ⟨covered, -⟩, _, _, ⟨unblocked, -⟩, rfl, -⟩ := done
  exact ⟨rfl, rfl, rfl, rfl, not_le.mp covered, rfl, unblocked⟩

theorem executionRequest_asked {id userId : Nat} {dto : RequestWithdrawalDto} {compliance : WithdrawalComplianceAssessment}
    {request : WithdrawalExecutionRequest} (found : db.wallet.withdrawals.get? id = some w)
    (asked : AskedFor w userId dto compliance) (done : (executionRequest id).run db = .ok (request, db')) :
    request.destinationAddress = dto.destinationAddress ∧ request.destinationTag = dto.destinationTag ∧
      request.amount = dto.amount - w.fee := by
  simp only [executionRequest, run_bind_ok, run_pure, Except.ok.injEq, Prod.mk.injEq] at done
  obtain ⟨row, _, read, rfl, -⟩ := done
  have same := (getWithdrawal_ok read).2
  rw [found] at same
  cases same
  exact ⟨asked.destination, asked.tag, by rw [← asked.amount]⟩

end Rows

end WithdrawalsService

section Steps

variable {config : WalletConfig} {s : Platform}

theorem Platform.transact_approvals {α : Type} (s : Platform) (body : Tx Db Fault α) (events : α → List Event) :
    (s.transact body events).approvals = s.approvals ∧ (s.transact body events).requests = s.requests := by
  rcases transact_cases s body events with same | ⟨a, db, -, same⟩
  next => simp [same]
  next => simp [same]

theorem Platform.confirm_approvals {withdrawalId : Nat} {confirmations required : Int}
    {observed : Option ObservedChainTransaction} {watch : Option Watch} :
    (s.confirm config withdrawalId confirmations required observed watch).approvals = s.approvals ∧
      (s.confirm config withdrawalId confirmations required observed watch).requests = s.requests := by
  unfold Platform.confirm
  split
  next => exact Platform.transact_approvals s _ _
  next => split <;> exact ⟨rfl, rfl⟩

/-- Only `approve` opens a call of it, and only `request` takes what it prepares. -/
theorem Platform.walletStep_calls_kept (s : Platform) (action : WalletAction) :
    ((∃ withdrawalId actorId, action = .approve withdrawalId actorId) ∨
        (s.walletStep config action).approvals.length = s.approvals.length) ∧
      ((∃ userId dto compliance randomUUID, action = .prepareRequest userId dto compliance randomUUID) ∨
        (s.walletStep config action).requests = s.requests) := by
  have kept : ∀ {s' : Platform}, s'.approvals = s.approvals ∧ s'.requests = s.requests →
      ((∃ withdrawalId actorId, action = .approve withdrawalId actorId) ∨ s'.approvals.length = s.approvals.length) ∧
        ((∃ userId dto compliance randomUUID, action = .prepareRequest userId dto compliance randomUUID) ∨
          s'.requests = s.requests) := by
    rintro s' ⟨approvals, requests⟩
    exact ⟨.inr (by rw [approvals]), .inr requests⟩
  cases action with
  | approve withdrawalId actorId =>
    refine ⟨.inl ⟨_, _, rfl⟩, .inr ?_⟩
    simp only [walletStep]
    split <;> rfl
  | prepareRequest userId dto compliance randomUUID =>
    refine ⟨.inr ?_, .inl ⟨_, _, _, _, rfl⟩⟩
    simp only [walletStep]
    split <;> rfl
  | recordObservedTransaction | rejectIfNotCredited | cancel | reject | fail | failProviderRejectedSubmission
  | resolveAmbiguousExecution | recordManualBroadcast | recordProviderBroadcast =>
    exact kept (Platform.transact_approvals s _ _)
  | recordConfirmation => exact kept Platform.confirm_approvals
  | request k | declareExecutionAmbiguous k | creditConfirmed k =>
    simp only [walletStep]
    split
    next => exact kept (Platform.transact_approvals s _ _)
    next => exact kept ⟨rfl, rfl⟩
  | gatherEvidence =>
    simp only [walletStep]
    split <;> exact kept ⟨rfl, rfl⟩
  | abortExecution | endExecution =>
    simp only [walletStep]
    split
    next => exact ⟨.inr (by simp [setPhase]), .inr rfl⟩
    next => exact kept ⟨rfl, rfl⟩
  | claimLease =>
    simp only [walletStep]
    split
    next => split <;> exact ⟨.inr (by simp [setPhase]), .inr rfl⟩
    next => exact kept ⟨rfl, rfl⟩
  | startExecution =>
    simp only [walletStep]
    split
    next => split <;> exact ⟨.inr (by simp), .inr rfl⟩
    next => exact kept ⟨rfl, rfl⟩
  | readBroadcast =>
    simp only [walletStep]
    split
    next => split <;> exact kept ⟨rfl, rfl⟩
    next => exact kept ⟨rfl, rfl⟩
  | recordExecution k now =>
    simp only [walletStep]
    split
    next withdrawalId outcome leasedAt listed =>
      have same := Platform.transact_approvals s (recordExecution now withdrawalId outcome)
        fun _ => [.moved withdrawalId (.recordExecution outcome)]
      exact ⟨.inr (by simp [setPhase, same.1]), .inr same.2⟩
    next => exact kept ⟨rfl, rfl⟩
  | checkOne k status required =>
    simp only [walletStep]
    split
    next =>
      split
      next => exact kept ⟨rfl, rfl⟩
      next => exact kept (Platform.transact_approvals s _ _)
      next => exact kept Platform.confirm_approvals
    next => exact kept ⟨rfl, rfl⟩

/-- A call of `approve` has been opened for the withdrawal. -/
def Platform.IsApproved (s : Platform) (id : Nat) : Prop := ∃ call ∈ s.approvals, call.withdrawalId = id

theorem Platform.walletStep_approves {action : WalletAction} {id : Nat} (before : ¬ s.IsApproved id)
    (step : CallStep s (s.walletStep config action)) (after : (s.walletStep config action).IsApproved id) :
    ∃ actorId, action = .approve id actorId ∧
      (∃ actor, s.db.core.users.get? actorId = some actor ∧ actor.role = .superAdmin) ∧
      ∃ reviewed, s.db.wallet.withdrawals.get? id = some reviewed ∧ reviewed.status = .riskReview := by
  have inside : id ∈ (s.walletStep config action).approvals.map ApproveCall.withdrawalId := List.mem_map.mpr after
  have outside : id ∉ s.approvals.map ApproveCall.withdrawalId := fun member => before (List.mem_map.mp member)
  rcases (walletStep_calls_kept s action).1 with ⟨withdrawalId, actorId, rfl⟩ | kept
  next =>
    simp only [walletStep] at inside
    split at inside
    next w db ran =>
      -- the call that is opened is the only new one
      simp only [List.map_append, List.map_cons, List.map_nil, List.mem_append, List.mem_singleton] at inside
      obtain rfl := inside.resolve_left outside
      have done := attempt_some ran
      obtain ⟨old, new, changed⟩ := approve_ok done
      exact ⟨actorId, rfl, approve_role done, old, changed.found, (RowMoved.approve_review changed.rowMoved).1⟩
    next => exact absurd inside outside
  next =>
    apply absurd inside
    cases step with
    | approved moved approvals =>
      rw [approvals] at kept
      simp at kept
    | quiet _ approvals | requested _ _ approvals | moved _ _ approvals | watches _ _ _ _ _ approvals
    | confirms _ _ approvals =>
      rw [approvals]
      exact outside
    | leased listed _ _ approvals | executing listed _ _ approvals | turned listed _ _ approvals
    | recorded listed _ _ approvals =>
      rw [approvals, withdrawalIds_set listed]
      exact outside

theorem Platform.walletStep_requests {action : WalletAction} {id : Nat} (integrity : s.Integrity)
    (before : s.db.wallet.withdrawals.get? id = none)
    (after : (s.walletStep config action).db.wallet.withdrawals.get? id ≠ none) :
    ∃ k now prepared, action = .request k now ∧ prepared ∈ s.requests ∧
      (s.walletStep config action).db.wallet.withdrawals.get? id =
        some { withdrawalRow now prepared with status := .riskReview } := by
  -- a row comes from the second half of a request, and is what its first half prepared
  cases deposit : action.isDeposit with
  | true =>
    rw [(@walletStep_deposits config s action deposit).2] at after
    exact absurd before after
  | false =>
    cases requested : action.isRequest with
    | false =>
      cases @walletStep_standing config s integrity.declarations action deposit requested with
      | unchanged same =>
        rw [same] at after
        exact absurd before after
      | changed done =>
        obtain ⟨t, l, same, wrote, -⟩ := done.result
        rw [same] at after
        have other : id ≠ _ := fun here => by
          rw [here, done.found] at before
          cases before
        exact absurd ((wrote.other other).trans before) after
    | true =>
      cases action with
      | request k now =>
        simp only [walletStep] at after ⊢
        split at after
        next prepared listed =>
          refine ⟨k, now, prepared, rfl, List.mem_of_getElem? listed, ?_⟩
          rcases transact_cases s (request now prepared) (fun _ => []) with same | ⟨a, db, ran, same⟩
          next =>
            rw [same] at after
            exact absurd before after
          next =>
            rw [same] at after ⊢
            rcases request_ok ran with ⟨kept, -⟩ | ⟨-, created⟩
            next =>
              rw [kept] at after
              exact absurd before after
            next =>
              obtain ⟨t, l, assetId, asset, rfl, wrote, -⟩ := created.result
              by_cases here : id = s.db.wallet.withdrawals.size
              next =>
                rw [here]
                exact wrote.get
              next => exact absurd ((wrote.other here).trans before) after
        next => exact absurd before after
      | _ => cases requested

theorem Platform.walletStep_prepares {action : WalletAction} {prepared : Prepared} (before : prepared ∉ s.requests)
    (after : prepared ∈ (s.walletStep config action).requests) : ∃ userId dto compliance randomUUID db,
      action = .prepareRequest userId dto compliance randomUUID ∧
        (prepare config userId dto compliance randomUUID).run s.db = .ok (prepared, db) := by
  rcases (walletStep_calls_kept s action).2 with ⟨userId, dto, compliance, randomUUID, rfl⟩ | kept
  next =>
    simp only [walletStep] at after
    split at after
    next other seen =>
      obtain rfl := List.mem_singleton.mp ((List.mem_append.mp after).resolve_left before)
      obtain ⟨db, done⟩ := look_some seen
      exact ⟨userId, dto, compliance, randomUUID, db, rfl, done⟩
    next => exact absurd after before
  next =>
    rw [kept] at after
    exact absurd after before

theorem RowStep.agreed {s s' : Platform} {id : Nat} {w w' : Withdrawal} (row : RowStep s s' id w w') :
    agreed w' = agreed w := by
  cases row with
  | same => rfl
  | moved _ moves | approved moves | leased _ _ _ moves | recorded _ _ _ moves => exact moves.agreed

theorem CallStep.decided {s s' : Platform} (step : CallStep s s') {id : Nat} {w' : Withdrawal}
    (before : ∀ w, s.db.wallet.withdrawals.get? id = some w → isUndecided w = false → s.IsApproved id)
    (found : s'.db.wallet.withdrawals.get? id = some w') (decided : isUndecided w' = false) : s'.IsApproved id := by
  by_cases known : s.IsApproved id
  next => exact step.stays known
  next =>
    have undecided : ∀ w, s.db.wallet.withdrawals.get? id = some w → isUndecided w = true := by
      intro w old
      by_contra other
      exact known (before w old (by simpa using other))
    have unchanged : s'.db.wallet.withdrawals = s.db.wallet.withdrawals → s'.IsApproved id := by
      intro same
      rw [same] at found
      rw [undecided w' found] at decided
      cases decided
    cases step with
    | quiet withdrawals | executing _ _ withdrawals | turned _ _ withdrawals | watches _ _ _ _ withdrawals
    | confirms _ withdrawals => exact unchanged withdrawals
    | requested review wrote =>
      by_cases here : id = s.db.wallet.withdrawals.size
      next =>
        rw [here, wrote.get] at found
        cases found
        simp [isUndecided, review] at decided
      next =>
        rw [wrote.other here] at found
        rw [undecided w' found] at decided
        cases decided
    | approved moved approvals =>
      obtain ⟨rfl, -⟩ := moved.decided undecided found decided
      unfold Platform.IsApproved
      rw [approvals]
      exact ⟨_, List.mem_append_right _ (List.mem_singleton_self _), rfl⟩
    | moved plain moved =>
      obtain ⟨-, rfl⟩ := moved.decided undecided found decided
      exact plain.elim
    | leased _ _ moved | recorded _ _ moved => cases (moved.decided undecided found decided).2

end Steps

section Runs

variable {fees : FeeCalculator} {config : WalletConfig} {s : Platform}

theorem Platform.stepUnder_calls (integrity : s.Integrity) (action : Action) :
    CallStep s (s.stepUnder fees config action) := by
  cases action with
  | trading action => exact .quiet rfl rfl rfl rfl ⟨[], (List.append_nil _).symm⟩
  | wallet action => exact walletStep_calls integrity action

theorem Platform.ReachedUnder.calls (reserve : fees.Reserves) (reached : Platform.ReachedUnder fees config s) : Calls s := by
  apply Reachable.invariant Calls _ _ reached
  next =>
    rintro _ ⟨seed, rfl⟩
    exact .initial seed
  next => exact fun s action earlier calls =>
    calls.step (Platform.stepUnder_calls (Platform.ReachedUnder.integrity reserve earlier) action)

theorem Platform.ReachedUnder.decided (reserve : fees.Reserves) (reached : Platform.ReachedUnder fees config s) :
    ∀ id w, s.db.wallet.withdrawals.get? id = some w → isUndecided w = false → s.IsApproved id := by
  apply Reachable.invariant (fun s : Platform => ∀ id w, s.db.wallet.withdrawals.get? id = some w →
    isUndecided w = false → s.IsApproved id) _ _ reached
  next =>
    rintro _ ⟨seed, rfl⟩ id w found
    cases found
  next =>
    rintro s action earlier before id w found decided
    have step := @Platform.stepUnder_calls fees config s (Platform.ReachedUnder.integrity reserve earlier) action
    exact step.decided (before id) found decided

theorem Platform.ReachedUnder.agreed (reserve : fees.Reserves) (reached : Platform.ReachedUnder fees config s)
    {id : Nat} {w : Withdrawal} (found : s.db.wallet.withdrawals.get? id = some w) (actions : List Action) :
    ∃ w', (actions.foldl (Platform.stepUnder fees config) s).db.wallet.withdrawals.get? id = some w' ∧
      WithdrawalsService.agreed w' = WithdrawalsService.agreed w := by
  induction actions generalizing s w with
  | nil => exact ⟨w, found, rfl⟩
  | cons action rest ih =>
    have step := @Platform.stepUnder_calls fees config s (Platform.ReachedUnder.integrity reserve reached) action
    obtain ⟨w', next, row⟩ := step.row found
    obtain ⟨last, there, same⟩ := ih (reached.tail action) next
    exact ⟨last, there, same.trans row.agreed⟩

variable {seed : Seed}

def Platform.ran (fees : FeeCalculator) (config : WalletConfig) (seed : Seed) (actions : List Action) : Platform :=
  actions.foldl (Platform.stepUnder fees config) (.initial seed)

theorem Platform.ran_reached (actions : List Action) :
    Platform.ReachedUnder fees config (Platform.ran fees config seed actions) :=
  Reachable.foldl (.refl ⟨seed, rfl⟩) actions

theorem Platform.ran_prepared {actions : List Action} {prepared : Prepared}
    (listed : prepared ∈ (Platform.ran fees config seed actions).requests) :
    ∃ earlier userId dto compliance randomUUID later db,
      actions = earlier ++ .wallet (.prepareRequest userId dto compliance randomUUID) :: later ∧
        (prepare config userId dto compliance randomUUID).run (Platform.ran fees config seed earlier).db =
          .ok (prepared, db) := by
  obtain ⟨earlier, action, later, rfl, before, after⟩ := @foldl_turns _ _ (Platform.stepUnder fees config)
    (fun s : Platform => prepared ∈ s.requests) (.initial seed) actions (by simp [Platform.initial]) listed
  cases action with
  | trading action => exact absurd after before
  | wallet action =>
    obtain ⟨userId, dto, compliance, randomUUID, db, rfl, done⟩ := walletStep_prepares before after
    exact ⟨earlier, userId, dto, compliance, randomUUID, later, db, rfl, done⟩

theorem Platform.ran_asked (reserve : fees.Reserves) {actions : List Action} {id : Nat} {w : Withdrawal}
    (found : (Platform.ran fees config seed actions).db.wallet.withdrawals.get? id = some w) :
    ∃ earlier userId dto compliance randomUUID later,
      actions = earlier ++ .wallet (.prepareRequest userId dto compliance randomUUID) :: later ∧
        AskedFor w userId dto compliance := by
  -- every withdrawal of a run was asked for in it, and is still what was asked for
  obtain ⟨earlier, action, later, rfl, before, after⟩ := @foldl_turns _ _ (Platform.stepUnder fees config)
    (fun s : Platform => s.db.wallet.withdrawals.get? id ≠ none) (.initial seed) actions (fun known => known rfl)
    (fun lost => by
      unfold Platform.ran at found
      rw [found] at lost
      cases lost)
  have reached : Platform.ReachedUnder fees config (Platform.ran fees config seed earlier) := ran_reached earlier
  cases action with
  | trading action => exact absurd after before
  | wallet action =>
    obtain ⟨k, now, prepared, rfl, listed, created⟩ :=
      walletStep_requests (Platform.ReachedUnder.integrity reserve reached) (not_not.mp before) after
    obtain ⟨first, userId, dto, compliance, randomUUID, rest, db, rfl, done⟩ := ran_prepared listed
    have requested := reached.tail (.wallet (.request k now))
    obtain ⟨last, there, same⟩ := Platform.ReachedUnder.agreed reserve requested created later
    refine ⟨first, userId, dto, compliance, randomUUID, rest ++ .wallet (.request k now) :: later, by simp, ?_⟩
    unfold Platform.ran at found
    rw [List.foldl_append, List.foldl_cons] at found
    cases found.symm.trans there
    exact (prepare_asked now done).carried same

/-- What leaves the platform was asked for by its owner, and then, with the terms as they were asked for, approved by a
super admin out of review; the executor can be told nothing else. -/
theorem reached_authorized (reserve : fees.Reserves) (actions : List Action) {id : Nat} {w : Withdrawal}
    (found : (Platform.ran fees config seed actions).db.wallet.withdrawals.get? id = some w)
    (sent : isUndecided w = false ∨ 0 < (Platform.ran fees config seed actions).executions id) :
    ∃ asked userId dto compliance randomUUID between actorId later, ∃ reviewed : Platform,
      actions = asked ++ .wallet (.prepareRequest userId dto compliance randomUUID) :: between ++
        .wallet (.approve id actorId) :: later ∧
      reviewed = Platform.ran fees config seed
        (asked ++ .wallet (.prepareRequest userId dto compliance randomUUID) :: between) ∧
      AskedFor w userId dto compliance ∧
      (∃ actor, reviewed.db.core.users.get? actorId = some actor ∧ actor.role = .superAdmin) ∧
      (∃ row, reviewed.db.wallet.withdrawals.get? id = some row ∧ row.status = .riskReview ∧ agreed row = agreed w) ∧
      ∀ request db, (executionRequest id).run (Platform.ran fees config seed actions).db = .ok (request, db) →
        request.destinationAddress = dto.destinationAddress ∧ request.destinationTag = dto.destinationTag ∧
          request.amount = dto.amount - w.fee := by
  have approved : (Platform.ran fees config seed actions).IsApproved id := by
    rcases sent with decided | executed
    next => exact Platform.ReachedUnder.decided reserve (Platform.ran_reached actions) id w found decided
    next => exact (Platform.ReachedUnder.calls reserve (Platform.ran_reached actions)).called id executed
  obtain ⟨earlier, action, later, rfl, before, after⟩ := @foldl_turns _ _ (Platform.stepUnder fees config)
    (fun s : Platform => s.IsApproved id) (.initial seed) actions (by simp [Platform.IsApproved, Platform.initial])
    approved
  have reached : Platform.ReachedUnder fees config (Platform.ran fees config seed earlier) := Platform.ran_reached earlier
  cases action with
  | trading action => exact absurd after before
  | wallet action =>
    have integrity := Platform.ReachedUnder.integrity reserve reached
    obtain ⟨actorId, rfl, authorized, row, known, review⟩ :=
      Platform.walletStep_approves before (Platform.walletStep_calls integrity action) after
    -- the row that is approved has been asked for before, and nothing rewrites its terms
    obtain ⟨asked, userId, dto, compliance, randomUUID, between, rfl, fits⟩ := Platform.ran_asked reserve known
    obtain ⟨last, there, same⟩ := Platform.ReachedUnder.agreed reserve reached known (.wallet (.approve id actorId) :: later)
    have final := found
    unfold Platform.ran at final
    rw [List.foldl_append] at final
    cases final.symm.trans there
    exact ⟨asked, userId, dto, compliance, randomUUID, between, actorId, later, _, rfl, rfl, fits.carried same, authorized,
      ⟨row, known, review, same.symm⟩, fun request db done => executionRequest_asked found (fits.carried same) done⟩

theorem sentWithdrawal_authorized : ∃ w asked userId dto compliance randomUUID between actorId later,
    (Platform.ran percentFees .sample .sample sentWithdrawal).db.wallet.withdrawals.get? 0 = some w ∧
      sentWithdrawal = asked ++ .wallet (.prepareRequest userId dto compliance randomUUID) :: between ++
        .wallet (.approve 0 actorId) :: later ∧
      AskedFor w userId dto compliance := by
  have row : ((Platform.ran percentFees .sample .sample sentWithdrawal).db.wallet.withdrawals.get? 0).map isUndecided =
      some false := by decide +kernel
  obtain ⟨w, found, decided⟩ := Option.map_eq_some_iff.mp row
  obtain ⟨asked, userId, dto, compliance, randomUUID, between, actorId, later, reviewed, split, -, fits, -⟩ :=
    reached_authorized percentFees_funded.reserves sentWithdrawal found (.inl decided)
  exact ⟨w, asked, userId, dto, compliance, randomUUID, between, actorId, later, found, split, fits⟩

end Runs

end VerdictVaut
