import VerdictVaut.System.Calls

set_option autoImplicit false

namespace VerdictVaut

open Relational Relational.Tx WithdrawalsService DepositsService

section Steps

inductive DepositStep (action : Action) (s s' : Platform) : Prop
  -- what a step changes of the deposits and the log
  | quiet (deposits : s'.db.wallet.deposits = s.db.wallet.deposits) (log : ∃ events, s'.log = s.log ++ events)
  | observed {now : Time} {input : ObservedTransactionInput} {id : Nat} {row : Deposit}
      (report : action = .wallet (.recordObservedTransaction now input)) (done : Observed s.db s'.db input id row)
      (log : s'.log = s.log ++ [.observed input])
  | rejected {id : Nat} {e row : Deposit} (found : s.db.wallet.deposits.get? id = some e)
      (waiting : e.status = .pending ∨ e.status = .confirmed) (status : row.status = .rejected)
      (wrote : Table.Wrote s.db.wallet.deposits s'.db.wallet.deposits id row) (log : s'.log = s.log)

variable {config : WalletConfig} {s s' : Platform}

theorem Platform.step_deposits (integrity : Platform.Integrity s) (action : Action) :
    DepositStep action s (s.step config action) := by
  cases action with
  | trading action => exact .quiet rfl ⟨[], (List.append_nil _).symm⟩
  | wallet action =>
    have log := (@Platform.step_calls config s integrity (.wallet action)).log
    change DepositStep (.wallet action) s (s.walletStep config action)
    cases deposit : action.isDeposit with
    | false => exact .quiet (Platform.walletStep_withdrawals integrity deposit).deposits log
    | true =>
      cases action with
      | recordObservedTransaction now input =>
        simp only [Platform.walletStep]
        rcases Platform.transact_cases s (recordObservedTransaction now input) (fun _ => [.observed input]) with
          same | ⟨a, db, ran, same⟩
        · rw [same]
          exact .quiet rfl ⟨[], (List.append_nil _).symm⟩
        · rw [same]
          obtain ⟨depositId, row, observed⟩ := recordObservedTransaction_ok ran
          exact .observed rfl observed rfl
      | rejectIfNotCredited now depositId reason =>
        simp only [Platform.walletStep]
        rcases Platform.transact_cases s (rejectIfNotCredited now depositId reason) (fun _ => []) with
          same | ⟨a, db, ran, same⟩
        · rw [same]
          exact .quiet rfl ⟨[], (List.append_nil _).symm⟩
        · rw [same, List.append_nil]
          rcases rejectIfNotCredited_ok ran with rfl | ⟨e, t, found, waiting, rfl, wrote⟩
          · exact .quiet rfl ⟨[], (List.append_nil _).symm⟩
          · exact .rejected found waiting rfl wrote rfl
      | _ => cases deposit

theorem Platform.step_qualifies (integrity : Platform.Integrity s) (action : Action) (input : ObservedTransactionInput) :
    Qualifies (s.step config action).db.wallet input ↔ Qualifies s.db.wallet input := by
  cases action with
  | trading action => rfl
  | wallet action =>
    have frame := (@Platform.walletStep_effect config s integrity action).frame
    change Qualifies (s.walletStep config action).db.wallet input ↔ _
    simp only [Qualifies, frame.assetNetworks, frame.walletAddresses]

end Steps

section Credits

def Reported (s : Platform) (deposit : Deposit) : Prop :=
  -- the reports of an event that may credit it
  ∃ input, Event.observed input ∈ s.log ∧ isEvent input deposit = true ∧ Qualifies s.db.wallet input

def Justified (s : Platform) : Prop :=
  -- every credited deposit was reported with enough confirmations and the right tag
  ∀ id deposit, s.db.wallet.deposits.get? id = some deposit → deposit.status = .credited → Reported s deposit

variable {config : WalletConfig} {s : Platform}

theorem isEvent_iff {input : ObservedTransactionInput} {deposit : Deposit} : isEvent input deposit = true ↔
    deposit.assetNetworkId = input.assetNetworkId ∧ deposit.txHash = input.txHash ∧
      deposit.eventIndex = input.eventIndex.getD 0 := by
  simp [isEvent, and_assoc]

theorem Justified.step (justified : Justified s) (integrity : Platform.Integrity s) (action : Action) :
    Justified (s.step config action) := by
  have qualifies := @Platform.step_qualifies config s integrity action
  have carried : ∀ {deposit : Deposit}, Reported s deposit → ∀ events,
      (s.step config action).log = s.log ++ events → Reported (s.step config action) deposit := by
    rintro deposit ⟨input, logged, event, good⟩ events log
    exact ⟨input, by rw [log]; exact List.mem_append_left _ logged, event, (qualifies input).mpr good⟩
  intro id deposit found credited
  cases @Platform.step_deposits config s integrity action with
  | quiet deposits log =>
    obtain ⟨events, log⟩ := log
    rw [deposits] at found
    exact carried (justified id deposit found credited) events log
  | rejected before waiting status wrote log =>
    refine carried (justified id deposit ?_ credited) [] (by rw [log, List.append_nil])
    rw [← wrote.other]
    · exact found
    · rintro rfl
      rw [wrote.get] at found
      cases found
      rw [status] at credited
      cases credited
  | @observed now input i row report done log =>
    have wrote := done.wrote
    obtain ⟨t, l, -, -, how⟩ := done.result
    by_cases mine : id = i
    · subst mine
      rw [wrote.get] at found
      cases found
      rcases how with ⟨good, -⟩ | ⟨-, -, only, -⟩
      · exact ⟨input, by rw [log]; simp, done.updated.event, (qualifies input).mpr good⟩
      · -- an unqualified report finds the row credited already
        obtain ⟨e, before, was⟩ := only credited
        obtain ⟨other, logged, event, good⟩ := carried (justified id e before was) _ log
        refine ⟨other, logged, ?_, good⟩
        obtain ⟨absent, -⟩ | ⟨e', before', event'⟩ := done.place
        · simp [absent] at before
        rw [before] at before'
        cases before'
        rw [isEvent_iff] at event event' ⊢
        have row := isEvent_iff.mp done.updated.event
        rw [row.1, row.2.1, row.2.2, ← event'.1, ← event'.2.1, ← event'.2.2]
        exact event
    · rw [wrote.other mine] at found
      exact carried (justified id deposit found credited) _ log

theorem Platform.Reached.justified (reached : Platform.Reached config s) : Justified s := by
  refine Reachable.invariant Justified ?_ ?_ reached
  · rintro _ ⟨seed, rfl⟩ id deposit found
    simp [Platform.initial, Seed.wallet] at found
  · exact fun s action earlier justified => justified.step (Platform.Reached.integrity earlier) action

/-- A deposit has one row, at most one ledger transaction, and the transaction exactly when it is credited. -/
structure CreditedOnce (s : Platform) (id : Nat) (deposit : Deposit) : Prop where
  only : ∀ other d, s.db.wallet.deposits.get? other = some d → d.assetNetworkId = deposit.assetNetworkId →
    d.txHash = deposit.txHash → d.eventIndex = deposit.eventIndex → other = id
  once : (s.db.core.ledger.transactionsFor .deposit id).length ≤ 1
  credited : (deposit.status = .credited ∧ deposit.ledgerTransactionId ≠ none) ↔
    s.db.core.ledger.transactionsFor .deposit id ≠ []
  amount : ∀ t ∈ s.db.core.ledger.transactionsFor .deposit id, ∃ k, deposit.ledgerTransactionId = some k ∧
    t.type = .deposit ∧ s.db.core.ledger.PostedAs k t
      [{ account := .user deposit.userId, amount := deposit.amount },
        { account := .house .externalChain, amount := -deposit.amount }]
  reported : s.db.core.ledger.transactionsFor .deposit id ≠ [] → Reported s deposit

theorem Crediting.creditedOnce (crediting : Crediting s.db) (justified : Justified s) {id : Nat} {deposit : Deposit}
    (found : s.db.wallet.deposits.get? id = some deposit) : CreditedOnce s id deposit := by
  have only : ∀ other d, s.db.wallet.deposits.get? other = some d → d.assetNetworkId = deposit.assetNetworkId →
      d.txHash = deposit.txHash → d.eventIndex = deposit.eventIndex → other = id := by
    intro other d found' network hash event
    by_contra different
    have apart := Table.clash_of_ne found' found different
    simp [RowSpec.clash, network, hash, event] at apart
  by_cases status : deposit.status = .credited
  · obtain ⟨k, t, linked, one, type, posted⟩ := (crediting.credited id deposit found status).posted
    refine ⟨only, by simp [one], by simp [one, status, linked], ?_, fun _ => justified id deposit found status⟩
    intro t' member
    rw [one] at member
    obtain rfl := List.mem_singleton.mp member
    exact ⟨k, linked, type, posted⟩
  · have none := crediting.uncredited id (by
      intro d found'
      rw [found] at found'
      cases found'
      exact status)
    exact ⟨only, by simp [none], by simp [none, status], by simp [none], fun some => absurd none some⟩

theorem DepositStep.credited_stays {action : Action} {s s' : Platform} (step : DepositStep action s s') {id : Nat}
    {deposit : Deposit} (found : s.db.wallet.deposits.get? id = some deposit) (credited : deposit.status = .credited) :
    ∃ later, s'.db.wallet.deposits.get? id = some later ∧ later.status = .credited ∧ later.userId = deposit.userId ∧
      later.amount = deposit.amount := by
  cases step with
  | quiet deposits log => exact ⟨deposit, by rw [deposits]; exact found, credited, rfl, rfl⟩
  | rejected before waiting status wrote log =>
    refine ⟨deposit, ?_, credited, rfl, rfl⟩
    rw [wrote.other]
    · exact found
    · rintro rfl
      rw [before] at found
      cases found
      rcases waiting with waiting | waiting <;> simp [credited] at waiting
  | @observed now input i row report done log =>
    have updated := done.updated
    have wrote := done.wrote
    by_cases mine : id = i
    · subst mine
      exact ⟨row, wrote.get, (updated.credited deposit found credited).1, updated.identity deposit found⟩
    · exact ⟨deposit, (wrote.other mine).trans found, credited, rfl, rfl⟩

theorem Platform.Reached.credited_stays (reached : Platform.Reached config s) {id : Nat} {deposit : Deposit}
    (found : s.db.wallet.deposits.get? id = some deposit) (credited : deposit.status = .credited) (actions : List Action) :
    ∃ later, (actions.foldl (Platform.step config) s).db.wallet.deposits.get? id = some later ∧
      later.status = .credited ∧ later.userId = deposit.userId ∧ later.amount = deposit.amount := by
  induction actions generalizing s deposit with
  | nil => exact ⟨deposit, found, credited, rfl, rfl⟩
  | cons action rest ih =>
    obtain ⟨next, found', credited', user, amount⟩ :=
      (@Platform.step_deposits config s reached.integrity action).credited_stays found credited
    obtain ⟨later, found'', credited'', user', amount'⟩ := ih (reached.tail action) found' credited'
    exact ⟨later, found'', credited'', user'.trans user, amount'.trans amount⟩

/-- Deposits are credited exactly once, and only on a report that qualifies. -/
theorem reached_creditedOnce (reached : Platform.Reached config s) :
    (∀ id, s.db.wallet.deposits.get? id = none → s.db.core.ledger.transactionsFor .deposit id = []) ∧
    ∀ id deposit, s.db.wallet.deposits.get? id = some deposit → CreditedOnce s id deposit ∧
      (deposit.status = .credited → ∀ actions : List Action, ∃ later,
        (actions.foldl (Platform.step config) s).db.wallet.deposits.get? id = some later ∧
          later.status = .credited ∧ later.userId = deposit.userId ∧ later.amount = deposit.amount) := by
  have crediting := reached.integrity.crediting
  refine ⟨?_, ?_⟩
  · intro id absent
    refine crediting.uncredited id fun d found => ?_
    simp [absent] at found
  · intro id deposit found
    exact ⟨Crediting.creditedOnce crediting reached.justified found, fun credited => reached.credited_stays found credited⟩

theorem deposit_creditedOnce :
    ((Platform.after [.deposit 1 "0x1" 100]).db.wallet.deposits.get? 0).map Deposit.status = some .credited ∧
    (∀ id, (Platform.after [.deposit 1 "0x1" 100]).db.wallet.deposits.get? id = none →
      (Platform.after [.deposit 1 "0x1" 100]).db.core.ledger.transactionsFor .deposit id = []) ∧
    ∀ id deposit, (Platform.after [.deposit 1 "0x1" 100]).db.wallet.deposits.get? id = some deposit →
      CreditedOnce (Platform.after [.deposit 1 "0x1" 100]) id deposit ∧
      (deposit.status = .credited → ∀ actions : List Action, ∃ later,
        (actions.foldl (Platform.step .sample) (Platform.after [.deposit 1 "0x1" 100])).db.wallet.deposits.get? id =
          some later ∧ later.status = .credited ∧ later.userId = deposit.userId ∧ later.amount = deposit.amount) :=
  ⟨by decide +kernel, reached_creditedOnce (Platform.reached_after _)⟩

end Credits

section Rejections

variable {config : WalletConfig} {s : Platform}

def QualifyingReport (wallet : Wallet) (deposit : Deposit) : Action → Prop
  -- a report of the deposit's event that may credit it
  | .wallet (.recordObservedTransaction _ input) => isEvent input deposit = true ∧ Qualifies wallet input
  | _ => False

theorem DepositStep.rejected_stays {action : Action} {s s' : Platform} (step : DepositStep action s s') {id : Nat}
    {deposit : Deposit} (found : s.db.wallet.deposits.get? id = some deposit) (rejected : deposit.status = .rejected)
    (unqualified : ¬ QualifyingReport s.db.wallet deposit action) :
    ∃ later, s'.db.wallet.deposits.get? id = some later ∧ later.status = .rejected ∧
      ∀ input, isEvent input later = isEvent input deposit := by
  cases step with
  | quiet deposits log => exact ⟨deposit, by rw [deposits]; exact found, rejected, fun _ => rfl⟩
  | rejected before waiting status wrote log =>
    refine ⟨deposit, ?_, rejected, fun _ => rfl⟩
    rw [wrote.other]
    · exact found
    · rintro rfl
      rw [before] at found
      cases found
      rcases waiting with waiting | waiting <;> simp [rejected] at waiting
  | @observed now input i row report done log =>
    subst report
    have updated := done.updated
    have place := done.place
    have wrote := done.wrote
    obtain ⟨t, l, -, -, how⟩ := done.result
    by_cases mine : id = i
    · subst mine
      obtain ⟨absent, -⟩ | ⟨e, before, event⟩ := place
      · simp [absent] at found
      rw [found] at before
      cases before
      rcases how with ⟨good, -⟩ | ⟨-, -, -, kept⟩
      · exact absurd ⟨event, good⟩ unqualified
      · refine ⟨row, wrote.get, kept deposit found rejected, fun other => ?_⟩
        have first := isEvent_iff.mp updated.event
        have second := isEvent_iff.mp event
        simp only [isEvent, first, second]
    · exact ⟨deposit, (wrote.other mine).trans found, rejected, fun _ => rfl⟩

/-- Over any run in which no report of a rejected deposit qualifies, it stays rejected and nothing is posted for it. -/
theorem reached_rejected_stays (reached : Platform.Reached config s) {id : Nat} {deposit : Deposit}
    (found : s.db.wallet.deposits.get? id = some deposit) (rejected : deposit.status = .rejected) (actions : List Action)
    (unqualified : ∀ action ∈ actions, ¬ QualifyingReport s.db.wallet deposit action) :
    (∃ later, (actions.foldl (Platform.step config) s).db.wallet.deposits.get? id = some later ∧ later.status = .rejected) ∧
      (actions.foldl (Platform.step config) s).db.core.ledger.transactionsFor .deposit id = [] := by
  induction actions generalizing s deposit with
  | nil =>
    refine ⟨⟨deposit, found, rejected⟩, reached.integrity.crediting.uncredited id fun d found' => ?_⟩
    have same := found.symm.trans found'
    cases same
    simp [rejected]
  | cons action rest ih =>
    obtain ⟨next, found', rejected', event⟩ := (@Platform.step_deposits config s reached.integrity action).rejected_stays
      found rejected (unqualified action (by simp))
    refine ih (reached.tail action) found' rejected' ?_
    intro later member report
    refine unqualified later (by simp [member]) ?_
    unfold QualifyingReport at report ⊢
    split at report
    next now input =>
      rw [event, Platform.step_qualifies reached.integrity action] at report
      exact report
    next => exact report

def Action.report (confirmations : Int) : Action :=
  -- a report of one deposit, with the given number of confirmations out of twelve
  .wallet (.recordObservedTransaction 0
    { userId := 1, assetSymbol := "USDC", assetNetworkId := 0, walletAddressId := 0, txHash := "0x1", eventIndex := none,
      amount := 100, confirmations := confirmations, requiredConfirmations := 12, destinationTag := none })

def rejectedDeposit : List Action := [.report 1, .wallet (.rejectIfNotCredited 0 0 "dropped by a reorg")]

theorem rejectedDeposit_rejected :
    ((Platform.after rejectedDeposit).db.wallet.deposits.get? 0).map Deposit.status = some .rejected := by
  decide +kernel

theorem rejectedDeposit_stays : ∃ deposit, (Platform.after rejectedDeposit).db.wallet.deposits.get? 0 = some deposit ∧
    deposit.status = .rejected ∧
    (∃ later, ([Action.report 2].foldl (Platform.step .sample) (Platform.after rejectedDeposit)).db.wallet.deposits.get? 0 =
      some later ∧ later.status = .rejected) ∧
    ([Action.report 2].foldl (Platform.step .sample) (Platform.after rejectedDeposit)).db.core.ledger.transactionsFor
      .deposit 0 = [] := by
  obtain ⟨deposit, found, rejected⟩ := Option.map_eq_some_iff.mp rejectedDeposit_rejected
  refine ⟨deposit, found, rejected, reached_rejected_stays (Platform.reached_after _) found rejected _ ?_⟩
  intro action member
  obtain rfl := List.mem_singleton.mp member
  simp [Action.report, QualifyingReport, Qualifies]

/-- A later report with enough confirmations credits the rejected deposit. -/
theorem rejectedDeposit_credited :
    ((Platform.after rejectedDeposit).db.wallet.deposits.get? 0).map Deposit.status = some .rejected ∧
    ¬ ∀ actions : List Action, ((actions.foldl (Platform.step .sample)
      (Platform.after rejectedDeposit)).db.wallet.deposits.get? 0).map Deposit.status = some .rejected := by
  refine ⟨rejectedDeposit_rejected, fun claimed => ?_⟩
  have credited : (([Action.report 12].foldl (Platform.step .sample)
      (Platform.after rejectedDeposit)).db.wallet.deposits.get? 0).map Deposit.status = some .credited := by
    decide +kernel
  rw [claimed [.report 12]] at credited
  cases credited

end Rejections

end VerdictVaut
