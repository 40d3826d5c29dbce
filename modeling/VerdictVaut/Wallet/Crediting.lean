import VerdictVaut.Wallet.Custody

set_option autoImplicit false

namespace VerdictVaut.DepositsService

open Relational

structure Credited (db : Db) (depositId : Nat) (deposit : Deposit) : Prop where
  -- the one ledger transaction of a credited deposit: the row's user gains the row's amount
  posted : ∃ k t, deposit.ledgerTransactionId = some k ∧ db.core.ledger.transactionsFor .deposit depositId = [t] ∧
    t.type = .deposit ∧
    db.core.ledger.PostedAs k t
      [{ account := .user deposit.userId, amount := deposit.amount },
        { account := .house .externalChain, amount := -deposit.amount }]

structure Crediting (db : Db) : Prop where
  credited : ∀ depositId deposit, db.wallet.deposits.get? depositId = some deposit → deposit.status = .credited →
    Credited db depositId deposit
  uncredited : ∀ depositId, (∀ deposit, db.wallet.deposits.get? depositId = some deposit → deposit.status ≠ .credited) →
    db.core.ledger.transactionsFor .deposit depositId = []

variable {db db' : Db} {kinds : ReferenceType → Bool} {depositId : Nat} {deposit : Deposit}

theorem Credited.moved (credited : Credited db depositId deposit)
    (moved : Ledger.Moved kinds db.core.ledger db'.core.ledger)
    (transactions : db'.core.ledger.transactionsFor .deposit depositId = db.core.ledger.transactionsFor .deposit depositId)
    {deposit' : Deposit} (user : deposit'.userId = deposit.userId) (amount : deposit'.amount = deposit.amount)
    (link : deposit'.ledgerTransactionId = deposit.ledgerTransactionId) : Credited db' depositId deposit' := by
  obtain ⟨k, t, linked, one, type, posted⟩ := credited.posted
  refine ⟨k, t, link.trans linked, transactions.trans one, type, ?_⟩
  rw [user, amount]
  exact posted.moved moved

theorem Crediting.moved (crediting : Crediting db) (deposits : db'.wallet.deposits = db.wallet.deposits)
    (moved : Ledger.Moved kinds db.core.ledger db'.core.ledger) (outside : kinds .deposit = false) : Crediting db' := by
  constructor
  · intro id deposit found credited
    rw [deposits] at found
    exact (crediting.credited id deposit found credited).moved moved (moved.transactionsFor id outside) rfl rfl rfl
  · intro id none
    rw [deposits] at none
    rw [moved.transactionsFor id outside]
    exact crediting.uncredited id none

theorem Crediting.rejected (crediting : Crediting db) {e : Deposit} (found : db.wallet.deposits.get? depositId = some e)
    (open_ : e.status = .pending ∨ e.status = .confirmed) (uncredited : deposit.status ≠ .credited) {t : Table Deposit}
    (wrote : Table.Wrote db.wallet.deposits t depositId deposit) :
    Crediting { db with wallet := { db.wallet with deposits := t } } := by
  have before : e.status ≠ .credited := by rcases open_ with status | status <;> simp [status]
  constructor
  · intro id d found' credited
    by_cases same : id = depositId
    · subst same
      have new := wrote.get.symm.trans found'
      cases new
      exact absurd credited uncredited
    · exact ⟨(crediting.credited id d ((wrote.other same).symm.trans found') credited).posted⟩
  · intro id none
    refine crediting.uncredited id ?_
    intro d found'
    by_cases same : id = depositId
    · subst same
      rw [found] at found'
      cases found'
      exact before
    · exact none d ((wrote.other same).trans found')

theorem Observed.wrote {input : ObservedTransactionInput} (observed : Observed db db' input depositId deposit) :
    Table.Wrote db.wallet.deposits db'.wallet.deposits depositId deposit := by
  obtain ⟨t, l, rfl, wrote, -⟩ := observed.result
  exact wrote

theorem Observed.ledger {input : ObservedTransactionInput} (observed : Observed db db' input depositId deposit) :
    WalletMoved .deposit db.core.ledger db'.core.ledger ∧
      ∀ id, id ≠ depositId → db'.core.ledger.transactionsFor .deposit id = db.core.ledger.transactionsFor .deposit id := by
  obtain ⟨t, l, rfl, -, ⟨-, -, posted, ran, -⟩ | ⟨-, rfl, -⟩⟩ := observed.result
  · rcases Ledger.postTransaction_ok ran with ⟨-, rfl, -⟩ | ⟨-, -, assetId, effect⟩
    · exact ⟨.refl _ _, fun _ _ => rfl⟩
    · refine ⟨.posted effect rfl rfl (by simp [creditInput]), fun id other => ?_⟩
      refine (Ledger.transactionsFor_posted effect .deposit id).trans ?_
      rw [if_neg fun mine => other mine.2.symm, List.append_nil]
  · exact ⟨.refl _ _, fun _ _ => rfl⟩

theorem Observed.mine {input : ObservedTransactionInput} (observed : Observed db db' input depositId deposit)
    (crediting : Crediting db) (sound : db.core.ledger.Sound) :
    (deposit.status = .credited → Credited db' depositId deposit) ∧
      (deposit.status ≠ .credited → db'.core.ledger.transactionsFor .deposit depositId = []) := by
  have before : ∀ e, db.wallet.deposits.get? depositId = some e → e.status = .credited →
      db'.core.ledger.transactionsFor .deposit depositId = db.core.ledger.transactionsFor .deposit depositId →
      Credited db' depositId deposit := by
    intro e found was same
    obtain ⟨user, amount⟩ := observed.updated.identity e found
    exact (crediting.credited depositId e found was).moved observed.ledger.1.moved same user amount
      (observed.updated.credited e found was).2
  obtain ⟨t, l, rfl, wrote, ⟨-, status, posted, ran, link⟩ | ⟨-, rfl, only, -⟩⟩ := observed.result
  · refine ⟨fun _ => ?_, fun uncredited => absurd status uncredited⟩
    by_cases was : ∃ e, db.wallet.deposits.get? depositId = some e ∧ e.status = .credited
    · obtain ⟨e, found, was⟩ := was
      obtain ⟨k, stored, -, one, -, -⟩ := (crediting.credited depositId e found was).posted
      have member : stored ∈ db.core.ledger.transactionsFor .deposit depositId := by simp [one]
      obtain ⟨inside, ref⟩ := List.mem_filter.mp member
      simp only [Bool.and_eq_true, decide_eq_true_eq] at ref
      rcases Ledger.postTransaction_ok ran with ⟨-, rfl, -⟩ | ⟨-, -, assetId, effect⟩
      · exact before e found was rfl
      · refine absurd ?_ (effect.fresh stored inside)
        rw [sound.transactionKeys stored inside, ref.1, ref.2]
        rfl
    · have open_ : ∀ e, db.wallet.deposits.get? depositId = some e → e.status ≠ .credited :=
        fun e found credited => was ⟨e, found, credited⟩
      have none := crediting.uncredited depositId open_
      rcases Ledger.postTransaction_ok ran with ⟨-, rfl, stored, position, key⟩ | ⟨-, id, assetId, effect⟩
      · have inside := @Ledger.mem_transactionsFor _ sound _ (Table.get?_mem position) .deposit depositId key
        simp [none] at inside
      · refine ⟨_, (creditInput depositId deposit.userId deposit.amount input.assetSymbol).row assetId, link open_, ?_, rfl, ?_⟩
        · refine (Ledger.transactionsFor_posted effect .deposit depositId).trans ?_
          rw [none]
          exact if_pos ⟨rfl, rfl⟩
        · rw [id]
          exact effect.postedAs sound.books
  · refine ⟨fun status => ?_, fun uncredited => ?_⟩
    · obtain ⟨e, found, was⟩ := only status
      exact before e found was rfl
    · refine crediting.uncredited depositId fun e found was => uncredited ?_
      exact (observed.updated.credited e found was).1

theorem Crediting.observed (crediting : Crediting db) (sound : db.core.ledger.Sound) {input : ObservedTransactionInput}
    (observed : Observed db db' input depositId deposit) : Crediting db' := by
  obtain ⟨credited, uncredited⟩ := observed.mine crediting sound
  obtain ⟨moved, others⟩ := observed.ledger
  obtain ⟨t, l, rfl, wrote, -⟩ := observed.result
  constructor
  · intro id d found status
    by_cases same : id = depositId
    · subst same
      have new := wrote.get.symm.trans found
      cases new
      exact credited status
    · exact (crediting.credited id d ((wrote.other same).symm.trans found) status).moved moved.moved (others id same)
        rfl rfl rfl
  · intro id none
    by_cases same : id = depositId
    · subst same
      exact uncredited (none deposit wrote.get)
    · rw [others id same]
      exact crediting.uncredited id fun d found => none d ((wrote.other same).trans found)

end VerdictVaut.DepositsService
