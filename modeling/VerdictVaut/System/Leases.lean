import VerdictVaut.System.Calls

set_option autoImplicit false

namespace VerdictVaut

open Relational Relational.Tx WithdrawalsService DepositsService

section Logs

def Event.isExecuted (id : Nat) : Event → Bool
  | .executed other => decide (other = id)
  | _ => false

/-- How often `executor.execute()` has been started for a withdrawal. -/
def Platform.executions (s : Platform) (id : Nat) : Nat := (s.log.filter (Event.isExecuted id)).length

/-- Whether a declaration was committed on the withdrawal since the log had `n` events. -/
def Platform.DeclaredSince (s : Platform) (id n : Nat) : Prop := Event.moved id .declareExecutionAmbiguous ∈ s.log.drop n

/-- Whether the withdrawal was failed, by either operation, since the log had `n` events. -/
def Platform.FailedSince (s : Platform) (id n : Nat) : Prop :=
  Event.moved id .fail ∈ s.log.drop n ∨ Event.moved id .failProviderRejectedSubmission ∈ s.log.drop n

instance (s : Platform) (id n : Nat) : Decidable (s.DeclaredSince id n) := inferInstanceAs (Decidable (_ ∈ _))

theorem mem_drop_append {n : Nat} {log events : List Event} (within : n ≤ log.length) {e : Event} :
    e ∈ (log ++ events).drop n ↔ e ∈ log.drop n ∨ e ∈ events := by
  rw [List.drop_append_of_le_length within, List.mem_append]

variable {s s' : Platform} {id n : Nat} {events : List Event}

theorem Platform.DeclaredSince.mono (declared : s.DeclaredSince id n) (within : n ≤ s.log.length)
    (log : s'.log = s.log ++ events) : s'.DeclaredSince id n := by
  unfold Platform.DeclaredSince
  rw [log]
  exact (mem_drop_append within).mpr (.inl declared)

theorem Platform.FailedSince.mono (failed : s.FailedSince id n) (within : n ≤ s.log.length)
    (log : s'.log = s.log ++ events) : s'.FailedSince id n := by
  unfold Platform.FailedSince
  rw [log, mem_drop_append within, mem_drop_append within]
  exact failed.imp .inl .inl

theorem Platform.executions_append (log : s'.log = s.log ++ events)
    (others : ∀ e ∈ events, e.isExecuted id = false) : s'.executions id = s.executions id := by
  have none : events.filter (Event.isExecuted id) = [] := List.filter_eq_nil_iff.mpr (by simpa using others)
  unfold Platform.executions
  rw [log, List.filter_append, none, List.append_nil]

end Logs

section Invariant

def ApprovePhase.holdsLease : ApprovePhase → Bool
  | .leased | .executing | .returned _ => true
  | .approved | .ended => false

def ApprovePhase.isEarly : ApprovePhase → Bool
  -- the phases before the executor is called
  | .approved | .leased => true
  | .executing | .returned _ | .ended => false

/-- Under the lease the row stays BROADCASTING, unless it is failed or somebody declares it ambiguous. -/
structure LeaseHeld (s : Platform) (call : ApproveCall) (w : Withdrawal) : Prop where
  since : call.leasedAt ≤ s.log.length
  status : ¬ s.DeclaredSince call.withdrawalId call.leasedAt →
    w.status = .broadcasting ∨ (w.status = .failed ∧ s.FailedSince call.withdrawalId call.leasedAt)

structure CallFits (s : Platform) (call : ApproveCall) : Prop where
  row : ∃ w, s.db.wallet.withdrawals.get? call.withdrawalId = some w ∧
    w.status ≠ .requested ∧ w.status ≠ .riskReview ∧ (call.phase ≠ .ended → w.status ≠ .pendingManualBroadcast) ∧
    (call.phase.holdsLease = true → LeaseHeld s call w)
  unexecuted : call.phase.isEarly = true → s.executions call.withdrawalId = 0

structure WatchFits (s : Platform) (watch : Watch) : Prop where
  -- what the watcher has read stays true of its row, until somebody declares it ambiguous
  since : watch.readAt ≤ s.log.length
  row : ∃ w, s.db.wallet.withdrawals.get? watch.withdrawalId = some w ∧
    (¬ s.DeclaredSince watch.withdrawalId watch.readAt → w.txHash = some watch.txHash ∧
      w.status ∈ [WithdrawalStatus.broadcast, .confirming, .credited, .failed])

/-- Once the provider's broadcast is recorded, no call can send the withdrawal to the provider again. -/
structure Sent (s : Platform) (id : Nat) : Prop where
  row : ∃ w, s.db.wallet.withdrawals.get? id = some w ∧
    w.status ≠ .requested ∧ w.status ≠ .riskReview ∧ w.status ≠ .pendingManualBroadcast
  calls : ∀ call ∈ s.approvals, call.withdrawalId = id → call.phase = .ended

structure Calls (s : Platform) : Prop where
  single : (s.approvals.map ApproveCall.withdrawalId).Nodup
  fits : ∀ call ∈ s.approvals, CallFits s call
  once : ∀ id, s.executions id ≤ 1
  called : ∀ id, 0 < s.executions id → ∃ call ∈ s.approvals, call.withdrawalId = id
  watches : ∀ watch ∈ s.watched, WatchFits s watch
  confirmations : ∀ confirmation ∈ s.confirming, ∀ watch, confirmation.watch = some watch →
    watch ∈ s.watched ∧ watch.withdrawalId = confirmation.withdrawalId
  sent : ∀ id txHash, Event.moved id (.recordProviderBroadcast txHash) ∈ s.log → Sent s id

end Invariant

namespace WithdrawalsService

section Rows

variable {operation : Operation} {old new : Withdrawal} {funds : Funds}

/-- The statuses that only `request` and the three transactions of `approve` lead to. -/
theorem Moves.plain_status (moves : Moves operation old new funds) (plain : Operation.isPlain operation) :
    new.status ≠ .requested ∧ new.status ≠ .riskReview ∧ new.status ≠ .broadcasting ∧
      new.status ≠ .pendingManualBroadcast := by
  cases moves with
  | approve | claimLease | recordExecution => exact plain.elim
  | _ => simp

theorem Moves.from_broadcasting (moves : Moves operation old new funds) (plain : Operation.isPlain operation)
    (lease : old.status = .broadcasting) : (new.status = .failed ∧ (operation = .fail ∨
      operation = .failProviderRejectedSubmission)) ∨ operation = .declareExecutionAmbiguous := by
  -- under the lease, the plain operations can only fail the row or declare it ambiguous
  cases moves with
  | approve | claimLease | recordExecution => exact plain.elim
  | fail => exact .inl ⟨rfl, .inl rfl⟩
  | failProviderRejectedSubmission => exact .inl ⟨rfl, .inr rfl⟩
  | declareExecutionAmbiguous => exact .inr rfl
  | cancel allowed | reject reason allowed => simp [lease] at allowed
  | confirmBroadcast now txHash allowed => simp [lease] at allowed
  | confirmNotExecuted allowed => simp [lease] at allowed
  | recordManualBroadcast now adminId txHash allowed => simp [lease] at allowed
  | recordProviderBroadcast now txHash providerReference allowed => simp [lease] at allowed
  | recordUnconfirmed allowed => simp [lease] at allowed
  | creditConfirmed now allowed => simp [lease] at allowed

theorem Moves.not_failed (moves : Moves operation old new funds) : old.status ≠ .failed := by
  intro failed
  have reservation : old.status.reservation = some .released := by rw [failed]; rfl
  cases (moves.status reservation).1

theorem Moves.keeps_hash (moves : Moves operation old new funds)
    (sent : old.status ∈ [WithdrawalStatus.broadcast, .confirming, .credited, .failed]) :
    (new.txHash = old.txHash ∧ new.status ∈ [WithdrawalStatus.broadcast, .confirming, .credited, .failed]) ∨
      operation = .declareExecutionAmbiguous := by
  cases moves with
  | fail | creditConfirmed | recordUnconfirmed => exact .inl ⟨rfl, by simp⟩
  | declareExecutionAmbiguous => exact .inr rfl
  | failProviderRejectedSubmission reason allowed | cancel allowed | reject reason allowed =>
    simp only [List.mem_cons, List.not_mem_nil, or_false] at sent allowed
    rcases sent with sent | sent | sent | sent <;> simp [sent] at allowed
  | _ =>
    rename_i allowed
    rw [allowed] at sent
    simp at sent

end Rows

end WithdrawalsService

section Steps

variable {s s' : Platform}

inductive RowStep (s s' : Platform) (id : Nat) (w : Withdrawal) : Withdrawal → Prop
  -- what a step makes of a row that is there
  | same : RowStep s s' id w w
  | moved {operation : Operation} {w' : Withdrawal} {funds : Funds} (plain : Operation.isPlain operation)
      (moves : Moves operation w w' funds) (logged : operation = .recordUnconfirmed ∨ s'.log = s.log ++ [.moved id operation]) :
      RowStep s s' id w w'
  | approved {w' : Withdrawal} {funds : Funds} (moves : Moves .approve w w' funds) : RowStep s s' id w w'
  | leased {w' : Withdrawal} {funds : Funds} {call : ApproveCall} (member : call ∈ s.approvals)
      (mine : call.withdrawalId = id) (waiting : call.phase = .approved) (moves : Moves .claimLease w w' funds) :
      RowStep s s' id w w'
  | recorded {w' : Withdrawal} {funds : Funds} {call : ApproveCall} {outcome : ExecutionOutcome}
      (member : call ∈ s.approvals) (mine : call.withdrawalId = id) (answered : call.phase = .returned outcome)
      (moves : Moves (.recordExecution outcome) w w' funds) : RowStep s s' id w w'

theorem CallStep.row (step : CallStep s s') {id : Nat} {w : Withdrawal}
    (found : s.db.wallet.withdrawals.get? id = some w) :
    ∃ w', s'.db.wallet.withdrawals.get? id = some w' ∧ RowStep s s' id w w' := by
  have unchanged : s'.db.wallet.withdrawals = s.db.wallet.withdrawals →
      ∃ w', s'.db.wallet.withdrawals.get? id = some w' ∧ RowStep s s' id w w' :=
    fun same => ⟨w, by rw [same]; exact found, .same⟩
  cases step with
  | quiet withdrawals => exact unchanged withdrawals
  | executing _ _ withdrawals => exact unchanged withdrawals
  | turned _ _ withdrawals => exact unchanged withdrawals
  | watches _ _ _ _ withdrawals => exact unchanged withdrawals
  | confirms _ withdrawals => exact unchanged withdrawals
  | requested review wrote =>
    exact ⟨w, (wrote.other (Table.get?_lt found).ne).trans found, .same⟩
  | moved plain moved _ _ _ log =>
    rcases moved.row found with ⟨-, kept⟩ | ⟨rfl, rfl, new⟩
    · exact ⟨w, kept, .same⟩
    · obtain ⟨funds, moves⟩ := moved.moves
      exact ⟨_, new, .moved plain moves (log.symm.imp_left And.left)⟩
  | approved moved =>
    rcases moved.row found with ⟨-, kept⟩ | ⟨rfl, rfl, new⟩
    · exact ⟨w, kept, .same⟩
    · obtain ⟨funds, moves⟩ := moved.moves
      exact ⟨_, new, .approved moves⟩
  | leased listed waiting moved =>
    rcases moved.row found with ⟨-, kept⟩ | ⟨rfl, rfl, new⟩
    · exact ⟨w, kept, .same⟩
    · obtain ⟨funds, moves⟩ := moved.moves
      exact ⟨_, new, .leased (List.mem_of_getElem? listed) rfl waiting moves⟩
  | recorded listed answered moved =>
    rcases moved.row found with ⟨-, kept⟩ | ⟨rfl, rfl, new⟩
    · exact ⟨w, kept, .same⟩
    · obtain ⟨funds, moves⟩ := moved.moves
      exact ⟨_, new, .recorded (List.mem_of_getElem? listed) rfl answered moves⟩

/-- The calls of `approve` are about different withdrawals, so a step of one is about no other. -/
theorem other_call {calls : List ApproveCall} (single : (calls.map ApproveCall.withdrawalId).Nodup) {k : Nat}
    {call new other : ApproveCall} (listed : calls[k]? = some call) (member : other ∈ calls.set k new) :
    other = new ∨ (other ∈ calls ∧ other.withdrawalId ≠ call.withdrawalId) := by
  obtain ⟨j, found⟩ := List.mem_iff_getElem?.mp member
  rw [List.getElem?_set] at found
  split at found
  next same =>
    split at found
    · exact .inl (Option.some.inj found).symm
    · cases found
  next different =>
    refine .inr ⟨List.mem_of_getElem? found, fun same => different ?_⟩
    have inside : k < (calls.map ApproveCall.withdrawalId).length := by
      rw [List.length_map]
      exact (List.getElem?_eq_some_iff.mp listed).1
    refine (List.getElem?_inj inside single).mp ?_
    rw [List.getElem?_map, List.getElem?_map, listed, found, Option.map_some, Option.map_some, same]

theorem withdrawalIds_set {calls : List ApproveCall} {k : Nat} {call : ApproveCall} (listed : calls[k]? = some call)
    (phase : ApprovePhase) (leasedAt : Nat) :
    (calls.set k { withdrawalId := call.withdrawalId, phase := phase, leasedAt := leasedAt }).map ApproveCall.withdrawalId =
      calls.map ApproveCall.withdrawalId := by
  rw [List.map_set]
  refine List.ext_getElem? fun j => ?_
  rw [List.getElem?_set]
  split
  next here =>
    subst here
    rw [List.getElem?_map, listed, List.length_map, if_pos (List.getElem?_eq_some_iff.mp listed).1]
    rfl
  next => rfl

theorem Calls.fresh (calls : Calls s) {id : Nat} {w : Withdrawal} (found : s.db.wallet.withdrawals.get? id = some w)
    (review : w.status = .riskReview) : ∀ call ∈ s.approvals, call.withdrawalId ≠ id := by
  rintro call member rfl
  obtain ⟨w', found', -, reviewed, -⟩ := (calls.fits call member).row
  rw [found] at found'
  cases found'
  exact reviewed review

theorem RowMoved.approve_review {db db' : Db} {id : Nat} {old new : Withdrawal}
    (moved : RowMoved .approve db db' id old new) : old.status = .riskReview ∧ new.status = .approved := by
  obtain ⟨funds, moves⟩ := moved.moves
  cases moves with
  | approve allowed => exact ⟨allowed, rfl⟩

theorem CallStep.single (step : CallStep s s') (calls : Calls s) :
    (s'.approvals.map ApproveCall.withdrawalId).Nodup := by
  cases step with
  | quiet _ approvals | requested _ _ approvals | moved _ _ approvals | watches _ _ _ _ _ approvals
  | confirms _ _ approvals =>
    rw [approvals]
    exact calls.single
  | leased listed _ _ approvals | executing listed _ _ approvals | turned listed _ _ approvals
  | recorded listed _ _ approvals =>
    rw [approvals, withdrawalIds_set listed]
    exact calls.single
  | approved moved approvals =>
    rw [approvals, List.map_append, List.map_singleton]
    refine List.nodup_append.mpr ⟨calls.single, List.nodup_singleton _, ?_⟩
    intro a member b new
    obtain ⟨call, inside, rfl⟩ := List.mem_map.mp member
    obtain rfl := List.mem_singleton.mp new
    exact calls.fresh moved.found (RowMoved.approve_review moved).1 call inside

variable {call : ApproveCall} {events : List Event}

theorem CallFits.kept (fits : CallFits s call) (log : s'.log = s.log ++ events)
    (others : ∀ e ∈ events, e.isExecuted call.withdrawalId = false)
    (row : ∀ w, s.db.wallet.withdrawals.get? call.withdrawalId = some w →
      ∃ w', s'.db.wallet.withdrawals.get? call.withdrawalId = some w' ∧
        (w' = w ∨ ∃ operation funds, Operation.isPlain operation ∧ Moves operation w w' funds ∧
          (operation = .recordUnconfirmed ∨ Event.moved call.withdrawalId operation ∈ events))) : CallFits s' call := by
  -- a call that does not move itself still fits, whatever plain operation its row went through
  obtain ⟨w, found, requested, review, pending, lease⟩ := fits.row
  refine ⟨?_, fun early => by rw [Platform.executions_append log others]; exact fits.unexecuted early⟩
  obtain ⟨w', found', rfl | ⟨operation, funds, plain, moves, logged⟩⟩ := row w found
  · refine ⟨w', found', requested, review, pending, fun holds => ?_⟩
    obtain ⟨since, status⟩ := lease holds
    refine ⟨by rw [log, List.length_append]; omega, fun undeclared => ?_⟩
    exact (status fun declared => undeclared (declared.mono since log)).imp_right
      fun failed => ⟨failed.1, failed.2.mono since log⟩
  · obtain ⟨notRequested, notReview, -, notPending⟩ := moves.plain_status plain
    refine ⟨w', found', notRequested, notReview, fun _ => notPending, fun holds => ?_⟩
    obtain ⟨since, status⟩ := lease holds
    refine ⟨by rw [log, List.length_append]; omega, fun undeclared => ?_⟩
    have recent : ∀ {e : Event}, e ∈ events → e ∈ s'.log.drop call.leasedAt := by
      intro e member
      rw [log]
      exact (mem_drop_append since).mpr (.inr member)
    rcases status fun declared => undeclared (declared.mono since log) with broadcasting | ⟨failed, -⟩
    · rcases moves.from_broadcasting plain broadcasting with ⟨failed, rfl | rfl⟩ | rfl
      · exact .inr ⟨failed, .inl (recent (logged.resolve_left (by simp)))⟩
      · exact .inr ⟨failed, .inr (recent (logged.resolve_left (by simp)))⟩
      · exact absurd (recent (logged.resolve_left (by simp))) undeclared
    · exact absurd failed moves.not_failed

theorem CallFits.turned (fits : CallFits s call) (log : s'.log = s.log ++ events) {phase : ApprovePhase}
    (rows : s'.db.wallet.withdrawals = s.db.wallet.withdrawals) (ended : call.phase ≠ .ended)
    (holds : phase.holdsLease = true → call.phase.holdsLease = true) (late : phase.isEarly = false) :
    CallFits s' { call with phase := phase } := by
  obtain ⟨w, found, requested, review, pending, lease⟩ := fits.row
  refine ⟨⟨w, by rw [rows]; exact found, requested, review, fun _ => pending ended, fun held => ?_⟩, ?_⟩
  · obtain ⟨since, status⟩ := lease (holds held)
    refine ⟨by rw [log, List.length_append]; exact Nat.le_add_right_of_le since, fun undeclared => ?_⟩
    exact (status fun declared => undeclared (declared.mono since log)).imp_right
      fun failed => ⟨failed.1, failed.2.mono since log⟩
  · intro early
    rw [late] at early
    cases early

theorem CallStep.fits (step : CallStep s s') (calls : Calls s) : ∀ call ∈ s'.approvals, CallFits s' call := by
  have unmoved : ∀ (id : Nat) (operation : Operation), ∀ e ∈ [Event.moved id operation], ∀ other,
      e.isExecuted other = false := by
    intro id operation e member other
    obtain rfl := List.mem_singleton.mp member
    rfl
  have same : ∀ {call : ApproveCall}, s'.db.wallet.withdrawals.get? call.withdrawalId =
      s.db.wallet.withdrawals.get? call.withdrawalId → ∀ {events : List Event}, ∀ w,
      s.db.wallet.withdrawals.get? call.withdrawalId = some w →
      ∃ w', s'.db.wallet.withdrawals.get? call.withdrawalId = some w' ∧
        (w' = w ∨ ∃ operation funds, Operation.isPlain operation ∧ Moves operation w w' funds ∧
          (operation = .recordUnconfirmed ∨ Event.moved call.withdrawalId operation ∈ events)) :=
    fun kept _ w found => ⟨w, kept.trans found, .inl rfl⟩
  have idle : s'.db.wallet.withdrawals = s.db.wallet.withdrawals → s'.approvals = s.approvals → s'.log = s.log →
      ∀ call ∈ s'.approvals, CallFits s' call := by
    intro withdrawals approvals log call member
    rw [approvals] at member
    exact (calls.fits call member).kept (by rw [log, List.append_nil]) (by simp) (same (by rw [withdrawals]))
  cases step with
  | quiet withdrawals approvals _ _ log =>
    obtain ⟨inputs, log⟩ := log
    intro call member
    rw [approvals] at member
    refine (calls.fits call member).kept log ?_ (same (by rw [withdrawals]))
    intro e inside
    obtain ⟨input, -, rfl⟩ := List.mem_map.mp inside
    rfl
  | watches _ _ _ _ withdrawals approvals _ _ log => exact idle withdrawals approvals log
  | confirms _ withdrawals approvals _ _ log => exact idle withdrawals approvals log
  | requested review wrote approvals _ _ log =>
    intro call member
    rw [approvals] at member
    obtain ⟨w, found, -⟩ := (calls.fits call member).row
    exact (calls.fits call member).kept (by rw [log, List.append_nil]) (by simp)
      (same (wrote.other (Table.get?_lt found).ne))
  | @moved operation id old new plain moved approvals _ _ log =>
    intro call member
    rw [approvals] at member
    obtain ⟨events, logged, event, quiet⟩ : ∃ events, s'.log = s.log ++ events ∧
        (operation = .recordUnconfirmed ∨ Event.moved id operation ∈ events) ∧
        ∀ e ∈ events, e.isExecuted call.withdrawalId = false := by
      rcases log with log | ⟨unlogged, log⟩
      · exact ⟨_, log, .inr (by simp), fun e inside => unmoved id operation e inside _⟩
      · exact ⟨[], by rw [log, List.append_nil], .inl unlogged, by simp⟩
    refine (calls.fits call member).kept logged quiet fun w found => ?_
    rcases moved.row found with ⟨-, kept⟩ | ⟨rfl, rfl, after⟩
    · exact ⟨w, kept, .inl rfl⟩
    · obtain ⟨funds, moves⟩ := moved.moves
      exact ⟨new, after, .inr ⟨operation, funds, plain, moves, event⟩⟩
  | @approved id old new moved approvals _ _ log =>
    obtain ⟨review, status⟩ := RowMoved.approve_review moved
    have fresh := calls.fresh moved.found review
    intro call member
    rw [approvals] at member
    rcases List.mem_append.mp member with inside | last
    · exact (calls.fits call inside).kept log (fun e here => unmoved _ _ e here _)
        (same (moved.wrote.other (fresh call inside)))
    · obtain rfl := List.mem_singleton.mp last
      refine ⟨⟨new, moved.wrote.get, by simp [status], by simp [status], by simp [status], by simp [ApprovePhase.holdsLease]⟩,
        fun _ => ?_⟩
      rw [Platform.executions_append log fun e here => unmoved _ _ e here _]
      by_contra some
      obtain ⟨call, inside, mine⟩ := calls.called id (Nat.pos_of_ne_zero some)
      exact fresh call inside mine
  | @leased k call old new listed waiting moved approvals _ _ log =>
    intro other member
    rw [approvals] at member
    rcases other_call calls.single listed member with rfl | ⟨inside, apart⟩
    · have status : new.status = .broadcasting := by
        obtain ⟨funds, moves⟩ := moved.moves
        cases moves with
        | claimLease => rfl
      have mine := calls.fits call (List.mem_of_getElem? listed)
      refine ⟨⟨new, moved.wrote.get, by simp [status], by simp [status], by simp [status], fun _ => ⟨?_, fun _ => .inl status⟩⟩,
        fun _ => ?_⟩
      · rw [log, List.length_append]
        rfl
      · rw [Platform.executions_append log fun e here => unmoved _ _ e here _]
        exact mine.unexecuted (by rw [waiting]; rfl)
    · exact (calls.fits other inside).kept log (fun e here => unmoved _ _ e here _) (same (moved.wrote.other apart))
  | @executing k call listed holds withdrawals approvals _ _ log =>
    intro other member
    rw [approvals] at member
    rcases other_call calls.single listed member with rfl | ⟨inside, apart⟩
    · exact (calls.fits call (List.mem_of_getElem? listed)).turned log withdrawals (by simp [holds])
        (fun _ => by rw [holds]; rfl) rfl
    · refine (calls.fits other inside).kept log ?_ (same (by rw [withdrawals]))
      intro e here
      obtain rfl := List.mem_singleton.mp here
      exact decide_eq_false apart.symm
  | @turned k call phase listed turn withdrawals approvals _ _ log =>
    have log' : s'.log = s.log ++ [] := by rw [log, List.append_nil]
    intro other member
    rw [approvals] at member
    rcases other_call calls.single listed member with rfl | ⟨inside, apart⟩
    · refine (calls.fits call (List.mem_of_getElem? listed)).turned log' withdrawals ?_ ?_ ?_
      all_goals
        generalize call.phase = before at turn
        cases turn <;> simp [ApprovePhase.holdsLease, ApprovePhase.isEarly]
    · exact (calls.fits other inside).kept log' (by simp) (same (by rw [withdrawals]))
  | @recorded k call outcome old new listed answered moved approvals _ _ log =>
    intro other member
    rw [approvals] at member
    rcases other_call calls.single listed member with rfl | ⟨inside, apart⟩
    · have status : new.status ≠ .requested ∧ new.status ≠ .riskReview := by
        obtain ⟨funds, moves⟩ := moved.moves
        cases moves with
        | recordExecution now =>
          rcases outcome with _ | result
          · simp [executed]
          · cases result <;> simp [executed]
      refine ⟨⟨new, moved.wrote.get, status.1, status.2, by simp, by simp [ApprovePhase.holdsLease]⟩, ?_⟩
      simp [ApprovePhase.isEarly]
    · exact (calls.fits other inside).kept log (fun e here => unmoved _ _ e here _) (same (moved.wrote.other apart))

theorem CallStep.executions (step : CallStep s s') (calls : Calls s) (id : Nat) :
    s'.executions id = s.executions id ∨
      (s'.executions id = 1 ∧ ∃ call ∈ s.approvals, call.withdrawalId = id) := by
  have unchanged : ∀ {events : List Event}, s'.log = s.log ++ events → (∀ e ∈ events, e.isExecuted id = false) →
      s'.executions id = s.executions id ∨ (s'.executions id = 1 ∧ ∃ call ∈ s.approvals, call.withdrawalId = id) :=
    fun log others => .inl (Platform.executions_append log others)
  have quiet : s'.log = s.log → s'.executions id = s.executions id ∨
      (s'.executions id = 1 ∧ ∃ call ∈ s.approvals, call.withdrawalId = id) :=
    fun log => @unchanged [] (by rw [log, List.append_nil]) (by simp)
  cases step with
  | quiet _ _ _ _ log =>
    obtain ⟨inputs, log⟩ := log
    refine unchanged log ?_
    intro e inside
    obtain ⟨input, -, rfl⟩ := List.mem_map.mp inside
    rfl
  | requested _ _ _ _ _ log | turned _ _ _ _ _ _ log | watches _ _ _ _ _ _ _ _ log | confirms _ _ _ _ _ log =>
    exact quiet log
  | approved _ _ _ _ log | leased _ _ _ _ _ _ log | recorded _ _ _ _ _ _ log =>
    exact unchanged log (by simp [Event.isExecuted])
  | moved _ _ _ _ _ log =>
    rcases log with log | ⟨-, log⟩
    · exact unchanged log (by simp [Event.isExecuted])
    · exact quiet log
  | @executing k call listed holds _ _ _ _ log =>
    have member := List.mem_of_getElem? listed
    by_cases mine : call.withdrawalId = id
    · have none := (calls.fits call member).unexecuted (by rw [holds]; rfl)
      rw [mine] at none
      refine .inr ⟨?_, call, member, mine⟩
      unfold Platform.executions at none ⊢
      rw [log, List.filter_append, List.length_append, none]
      simp [Event.isExecuted, mine]
    · refine unchanged log ?_
      intro e inside
      obtain rfl := List.mem_singleton.mp inside
      exact decide_eq_false mine

theorem CallStep.stays (step : CallStep s s') {id : Nat} (before : ∃ call ∈ s.approvals, call.withdrawalId = id) :
    ∃ call ∈ s'.approvals, call.withdrawalId = id := by
  have inside : id ∈ s.approvals.map ApproveCall.withdrawalId := List.mem_map.mpr before
  refine List.mem_map.mp ?_
  cases step with
  | quiet _ approvals | requested _ _ approvals | moved _ _ approvals | watches _ _ _ _ _ approvals
  | confirms _ _ approvals =>
    rw [approvals]
    exact inside
  | leased listed _ _ approvals | executing listed _ _ approvals | turned listed _ _ approvals
  | recorded listed _ _ approvals =>
    rw [approvals, withdrawalIds_set listed]
    exact inside
  | approved moved approvals =>
    rw [approvals, List.map_append]
    exact List.mem_append_left _ inside

theorem RowStep.declared {id : Nat} {w w' : Withdrawal} (row : RowStep s s' id w w')
    (sent : w.status ∈ [WithdrawalStatus.broadcast, .confirming, .credited, .failed]) :
    (w'.txHash = w.txHash ∧ w'.status ∈ [WithdrawalStatus.broadcast, .confirming, .credited, .failed]) ∨
      s'.log = s.log ++ [.moved id .declareExecutionAmbiguous] := by
  cases row with
  | same => exact .inl ⟨rfl, sent⟩
  | moved plain moves logged =>
    rcases moves.keeps_hash sent with kept | rfl
    · exact .inl kept
    · exact .inr (logged.resolve_left (by simp))
  | approved moves => exact .inl ((moves.keeps_hash sent).resolve_right (by simp))
  | leased member mine waiting moves => exact .inl ((moves.keeps_hash sent).resolve_right (by simp))
  | recorded member mine answered moves => exact .inl ((moves.keeps_hash sent).resolve_right (by simp))

theorem WatchFits.kept {watch : Watch} (fits : WatchFits s watch) (step : CallStep s s') : WatchFits s' watch := by
  obtain ⟨events, log⟩ := step.log
  obtain ⟨w, found, known⟩ := fits.row
  obtain ⟨w', found', row⟩ := step.row found
  refine ⟨by rw [log, List.length_append]; exact Nat.le_add_right_of_le fits.since, w', found', fun undeclared => ?_⟩
  obtain ⟨hash, sent⟩ := known fun declared => undeclared (declared.mono fits.since log)
  rcases row.declared sent with ⟨same, sent'⟩ | declared
  · exact ⟨same.trans hash, sent'⟩
  · refine absurd ?_ undeclared
    unfold Platform.DeclaredSince
    rw [declared]
    exact (mem_drop_append fits.since).mpr (.inr (by simp))

theorem CallStep.watches_fit (step : CallStep s s') (calls : Calls s) : ∀ watch ∈ s'.watched, WatchFits s' watch := by
  have kept : ∀ watch ∈ s.watched, WatchFits s' watch := fun watch member => (calls.watches watch member).kept step
  cases step with
  | quiet _ _ watched | requested _ _ _ watched | moved _ _ _ watched | approved _ _ watched | leased _ _ _ _ watched
  | executing _ _ _ _ watched | turned _ _ _ _ watched | recorded _ _ _ _ watched | confirms _ _ _ watched =>
    rw [watched]
    exact kept
  | @watches watch w found sent hash readAt withdrawals _ watched _ log =>
    rw [watched]
    refine List.forall_mem_append.mpr ⟨kept, ?_⟩
    rintro other member
    obtain rfl := List.mem_singleton.mp member
    refine ⟨by rw [readAt, log], w, by rw [withdrawals]; exact found, fun _ => ⟨hash, ?_⟩⟩
    simp only [List.mem_cons, List.not_mem_nil, or_false] at sent ⊢
    tauto

theorem CallStep.confirmations (step : CallStep s s') (calls : Calls s) :
    ∀ confirmation ∈ s'.confirming, ∀ watch, confirmation.watch = some watch →
      watch ∈ s'.watched ∧ watch.withdrawalId = confirmation.withdrawalId := by
  cases step with
  | quiet _ _ watched confirming | requested _ _ _ watched confirming | moved _ _ _ watched confirming
  | approved _ _ watched confirming | leased _ _ _ _ watched confirming | executing _ _ _ _ watched confirming
  | turned _ _ _ _ watched confirming | recorded _ _ _ _ watched confirming =>
    rw [watched, confirming]
    exact calls.confirmations
  | watches _ _ _ _ _ _ watched confirming =>
    rw [watched, confirming]
    intro confirmation member watch origin
    obtain ⟨inside, same⟩ := calls.confirmations confirmation member watch origin
    exact ⟨List.mem_append_left _ inside, same⟩
  | confirms origin _ _ watched confirming =>
    rw [watched, confirming]
    refine List.forall_mem_append.mpr ⟨calls.confirmations, ?_⟩
    intro confirmation member
    obtain rfl := List.mem_singleton.mp member
    exact origin

theorem Sent.kept {id : Nat} (sent : Sent s id) (step : CallStep s s') (calls : Calls s) : Sent s' id := by
  obtain ⟨w, found, requested, review, pending⟩ := sent.row
  obtain ⟨w', found', row⟩ := step.row found
  have ended : ∀ {k : Nat} {call : ApproveCall} {new : ApproveCall}, s.approvals[k]? = some call → call.phase ≠ .ended →
      s'.approvals = s.approvals.set k new → ∀ other ∈ s'.approvals, new.withdrawalId = call.withdrawalId →
      other.withdrawalId = id → other.phase = .ended := by
    intro k call new listed running approvals other member same mine
    rw [approvals] at member
    rcases other_call calls.single listed member with rfl | ⟨inside, -⟩
    · exact absurd (sent.calls call (List.mem_of_getElem? listed) (same.symm.trans mine)) running
    · exact sent.calls other inside mine
  constructor
  · refine ⟨w', found', ?_⟩
    cases row with
    | same => exact ⟨requested, review, pending⟩
    | moved plain moves logged =>
      obtain ⟨first, second, -, third⟩ := moves.plain_status plain
      exact ⟨first, second, third⟩
    | approved moves =>
      cases moves with
      | approve allowed => exact absurd allowed review
    | leased member mine waiting moves =>
      cases moves with
      | claimLease => simp
    | recorded member mine answered moves =>
      have final := sent.calls _ member mine
      rw [answered] at final
      cases final
  · intro other member mine
    cases step with
    | quiet _ approvals | requested _ _ approvals | moved _ _ approvals | watches _ _ _ _ _ approvals
    | confirms _ _ approvals =>
      rw [approvals] at member
      exact sent.calls other member mine
    | @approved i old new moved approvals =>
      rw [approvals] at member
      rcases List.mem_append.mp member with inside | last
      · exact sent.calls other inside mine
      · obtain rfl := List.mem_singleton.mp last
        obtain rfl : i = id := mine
        have was := moved.found
        rw [found] at was
        cases was
        exact absurd (RowMoved.approve_review moved).1 review
    | leased listed waiting _ approvals => exact ended listed (by simp [waiting]) approvals other member rfl mine
    | executing listed holds _ approvals => exact ended listed (by simp [holds]) approvals other member rfl mine
    | recorded listed answered _ approvals => exact ended listed (by simp [answered]) approvals other member rfl mine
    | @turned k call phase listed turn _ approvals =>
      refine ended listed ?_ approvals other member rfl mine
      generalize call.phase = before at turn
      cases turn <;> simp

theorem CallStep.sent (step : CallStep s s') (calls : Calls s) {id : Nat} {txHash : String}
    (event : Event.moved id (.recordProviderBroadcast txHash) ∈ s'.log) : Sent s' id := by
  by_cases known : Event.moved id (.recordProviderBroadcast txHash) ∈ s.log
  · exact (calls.sent id txHash known).kept step calls
  · have new : ∀ {events : List Event}, s'.log = s.log ++ events → Event.moved id (.recordProviderBroadcast txHash) ∈ events := by
      intro events log
      rw [log] at event
      exact (List.mem_append.mp event).resolve_left known
    cases step with
    | quiet _ _ _ _ log =>
      obtain ⟨inputs, log⟩ := log
      simpa using new log
    | requested _ _ _ _ _ log | turned _ _ _ _ _ _ log | watches _ _ _ _ _ _ _ _ log | confirms _ _ _ _ _ log =>
      rw [log] at event
      exact absurd event known
    | approved _ _ _ _ log | leased _ _ _ _ _ _ log | executing _ _ _ _ _ _ log | recorded _ _ _ _ _ _ log =>
      simpa using new log
    | @moved operation i old w plain moved approvals _ _ log =>
      rcases log with log | ⟨-, log⟩
      · have same := new log
        simp only [List.mem_singleton, Event.moved.injEq] at same
        obtain ⟨rfl, rfl⟩ := same
        obtain ⟨funds, moves⟩ := moved.moves
        have pending : old.status = .pendingManualBroadcast := by
          cases moves with
          | recordProviderBroadcast now txHash providerReference allowed => exact allowed
        obtain ⟨first, second, -, third⟩ := moves.plain_status plain
        refine ⟨⟨w, moved.wrote.get, first, second, third⟩, ?_⟩
        intro call member mine
        rw [approvals] at member
        -- the row waited for its broadcast, so its call had ended
        obtain ⟨w', found, -, -, waiting, -⟩ := (calls.fits call member).row
        rw [mine, moved.found] at found
        cases found
        by_contra running
        exact waiting running pending
      · rw [log] at event
        exact absurd event known

theorem Calls.step (calls : Calls s) (step : CallStep s s') : Calls s' := by
  refine ⟨step.single calls, step.fits calls, ?_, ?_, step.watches_fit calls, step.confirmations calls,
    fun id txHash event => step.sent calls event⟩
  · intro id
    rcases step.executions calls id with same | ⟨one, -⟩
    · rw [same]
      exact calls.once id
    · rw [one]
  · intro id some
    refine step.stays ?_
    rcases step.executions calls id with same | ⟨-, call⟩
    · rw [same] at some
      exact calls.called id some
    · exact call

end Steps

section Runs

variable {config : WalletConfig} {s : Platform}

theorem Calls.initial (seed : Seed) : Calls (Platform.initial seed) := by
  constructor <;> simp [Platform.initial, Platform.executions]

theorem Platform.Reached.calls (reached : Platform.Reached config s) : Calls s := by
  refine Reachable.invariant Calls ?_ ?_ reached
  · rintro _ ⟨seed, rfl⟩
    exact .initial seed
  · exact fun s action earlier calls => calls.step (Platform.step_calls (Platform.Reached.integrity earlier) action)

end Runs

end VerdictVaut
