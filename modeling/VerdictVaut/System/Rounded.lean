import VerdictVaut.System.Platform
import VerdictVaut.Wallet.Rounded

set_option autoImplicit false

namespace VerdictVaut.Rounded

open Relational Relational.Tx Decimals Db DepositsService WithdrawalsService

section Runs

inductive Action
  -- the transactions that a deposit or a withdrawal goes through until it is credited
  | recordObservedTransaction (now : Time) (input : ObservedTransactionInput)
  | request (now : Time) (prepared : Prepared)
  | approve (withdrawalId actorId : Nat)
  | claimLease (withdrawalId : Nat)
  | recordExecution (now : Time) (withdrawalId : Nat) (outcome : ExecutionOutcome)
  | recordUnconfirmed (withdrawalId : Nat)
  | creditConfirmed (now : Time) (withdrawalId : Nat)

def commits {α : Type} (body : Tx Db Fault α) (db : Db) : Db :=
  commit (runTransaction ledgerField body) db

def step (db : Db) : Action → Db
  | .recordObservedTransaction now input => commits (recordObservedTransaction now input) db
  | .request now prepared => commits (request now prepared) db
  | .approve withdrawalId actorId => commits (approve withdrawalId actorId) db
  | .claimLease withdrawalId => commits (claimLease withdrawalId) db
  | .recordExecution now withdrawalId outcome => commits (recordExecution now withdrawalId outcome) db
  | .recordUnconfirmed withdrawalId => commits (recordUnconfirmed withdrawalId) db
  | .creditConfirmed now withdrawalId => commits (creditConfirmed now withdrawalId) db

def Permitted (db : Db) : Action → Prop
  | .recordObservedTransaction _ input => CreditFits db input
  | .creditConfirmed _ withdrawalId => ConfirmFits db withdrawalId
  | _ => True

inductive Conforming : Db → Prop
  -- runs from the reference data, all of whose steps meet the condition
  | initial (seed : Seed) : Conforming (Platform.initial seed).db
  | step {db : Db} (earlier : Conforming db) (a : Action) (permitted : Permitted db a) : Conforming (step db a)

variable {db : Db}

theorem Sound.initial (seed : Seed) : Sound (Platform.initial seed).db where
  kept := ⟨Ledger.Books.initial seed.assets, by simp [Platform.initial, Seed.core, Ledger.initial, Ledger.accounts]⟩
  deposits := by simp [Platform.initial, Seed.wallet]
  withdrawals := by simp [Platform.initial, Seed.wallet]

theorem Sound.commits {α : Type} {body : Tx Db Fault α} (sound : Sound db)
    (kept : ∀ a db', body.run db = .ok (a, db') → Sound db') : Sound (commits body db) := by
  rcases commit_cases (runTransaction ledgerField body) db with same | ⟨a, ran⟩
  · rwa [Rounded.commits, same]
  · exact kept a _ (runTransaction_ok ran)

theorem Sound.step (sound : Sound db) (a : Action) (permitted : Permitted db a) : Sound (step db a) := by
  cases a with
  | recordObservedTransaction now input => exact sound.commits fun _ _ => sound.recordObservedTransaction permitted
  | request now prepared => exact sound.commits fun _ _ => sound.request
  | approve withdrawalId actorId =>
    refine sound.commits fun w db' ran => ?_
    obtain ⟨old, new, changed⟩ := approve_ok ran
    exact sound.changed changed
  | claimLease withdrawalId =>
    refine sound.commits fun w db' ran => ?_
    obtain ⟨old, new, changed⟩ := claimLease_ok ran
    exact sound.changed changed
  | recordExecution now withdrawalId outcome =>
    refine sound.commits fun w db' ran => ?_
    obtain ⟨old, new, changed⟩ := recordExecution_ok ran
    exact sound.changed changed
  | recordUnconfirmed withdrawalId =>
    refine sound.commits fun u db' ran => ?_
    rcases recordUnconfirmed_ok ran with rfl | ⟨old, new, changed⟩
    · exact sound
    · exact sound.changed changed
  | creditConfirmed now withdrawalId => exact sound.commits fun _ _ => sound.creditConfirmed permitted

theorem Conforming.sound (run : Conforming db) : Sound db := by
  induction run with
  | initial seed => exact .initial seed
  | step earlier a permitted sound => exact sound.step a permitted

/-- In a run whose steps meet the condition every balance is the sum of its account's entries, every transaction's
entries sum to zero, and the deferred trigger changes nothing about a confirmation that meets it. -/
theorem conforming_exact (run : Conforming db) :
    (∀ (i : Nat) account, db.core.ledger.accounts.get? i = some account → account.cachedBalance =
      sumWhere (Ledger.ofAccount i) LedgerEntry.amount db.core.ledger.entries.rows) ∧
    (∀ t, sumWhere (Ledger.ofTransaction t) LedgerEntry.amount db.core.ledger.entries.rows = 0) ∧
    ∀ now withdrawalId, ConfirmFits db withdrawalId →
      (runTransaction ledgerField (creditConfirmed now withdrawalId)).run db = (creditConfirmed now withdrawalId).run db := by
  have sound := run.sound
  refine ⟨sound.kept.books.follows.sum, sound.kept.books.balanced, fun now withdrawalId fits => ?_⟩
  exact runTransaction_of_check fun count db' ran => (sound.creditConfirmed fits ran).kept.books.trigger

end Runs

section Sample

def Seed.sample : Seed := { VerdictVaut.Seed.sample with assets := ⟨[⟨"ETH", 18, true⟩], by decide, by decide⟩ }

def after (actions : List Action) : Db := actions.foldl step (Platform.initial Seed.sample).db

def deposited (txHash : String) (amount : ℚ) : Action :=
  .recordObservedTransaction 0
    { userId := 1, assetSymbol := "ETH", assetNetworkId := 0, walletAddressId := 0, txHash := txHash,
      eventIndex := none, amount := amount, confirmations := 12, requiredConfirmations := 12, destinationTag := none }

def withdrawn (amount : ℚ) : List Action :=
  [.request 0
      { userId := 1, assetId := 0, assetSymbol := "ETH", assetNetworkId := 0, destinationAddress := "0xc",
        destinationTag := none, amount := amount, fee := 0, clientWithdrawalId := "client",
        compliance := { decision := .pass, reason := none } },
    .approve 0 0, .claimLease 0, .recordExecution 0 0 (some (.broadcast "0xd" none))]

theorem conforming_small : Conforming (after (deposited "0x1" 5 :: withdrawn 2)) := by
  simp only [after, withdrawn, List.foldl_cons, List.foldl_nil]
  refine .step (.step (.step (.step (.step (.initial _) _ ?_) _ ?_) _ ?_) _ ?_) _ ?_
  · intro _ _ _
    decide +kernel
  all_goals trivial

/-- A withdrawal of 2 out of 5 is confirmed without rounding. -/
theorem smallWithdrawal_exact :
    (∀ (i : Nat) account, (after (deposited "0x1" 5 :: withdrawn 2)).core.ledger.accounts.get? i = some account →
      account.cachedBalance = sumWhere (Ledger.ofAccount i) LedgerEntry.amount
        (after (deposited "0x1" 5 :: withdrawn 2)).core.ledger.entries.rows) ∧
    (runTransaction ledgerField (creditConfirmed 0 0)).run (after (deposited "0x1" 5 :: withdrawn 2)) =
      (creditConfirmed 0 0).run (after (deposited "0x1" 5 :: withdrawn 2)) := by
  obtain ⟨balances, -, confirms⟩ := conforming_exact conforming_small
  exact ⟨balances, confirms 0 0 (by decide +kernel)⟩

/-- A withdrawal of 21 digits is debited in full and paid out rounded, which the trigger refuses; a deposit of 1e-18 on
top of 100 is entered in the ledger and lost from the balance. -/
theorem longWithdrawal_rejected :
    (runTransaction ledgerField (creditConfirmed 0 0)).run (after (deposited "0x1" 200 :: withdrawn (100 + 1 / 10 ^ 18))) =
      .error .ledgerBalanceTrigger ∧
    (after [deposited "0x1" 100, deposited "0x2" (1 / 10 ^ 18)]).core.ledger.accounts.rows.map LedgerAccount.cachedBalance =
      [100, -100] ∧
    sumWhere (Ledger.ofAccount 0) LedgerEntry.amount
      (after [deposited "0x1" 100, deposited "0x2" (1 / 10 ^ 18)]).core.ledger.entries.rows = 100 + 1 / 10 ^ 18 := by
  refine ⟨?_, by decide +kernel, by decide +kernel⟩
  have unbalanced : ((creditConfirmed 0 0).run (after (deposited "0x1" 200 :: withdrawn (100 + 1 / 10 ^ 18)))).toOption.map
      (fun ended => checkLedgerTransactionBalance
        (after (deposited "0x1" 200 :: withdrawn (100 + 1 / 10 ^ 18))).core.ledger ended.2.core.ledger) = some false := by
    decide +kernel
  cases ended : (creditConfirmed 0 0).run (after (deposited "0x1" 200 :: withdrawn (100 + 1 / 10 ^ 18))) with
  | error e =>
    rw [ended] at unbalanced
    cases unbalanced
  | ok pair =>
    rw [ended] at unbalanced
    exact runTransaction_refused ended (Option.some.inj unbalanced)

end Sample

end VerdictVaut.Rounded
