import VerdictVaut.Wallet.Deposits
import VerdictVaut.Wallet.Withdrawals

set_option autoImplicit false

namespace VerdictVaut

open Relational Relational.Tx Db

def onlyKind (kind type : ReferenceType) : Bool := decide (type = kind)

/-- What the wallet does to the ledger: it is about references of one kind, and no market's account moves. -/
structure WalletMoved (kind : ReferenceType) (l l' : Ledger) : Prop where
  moved : Ledger.Moved (onlyKind kind) l l'
  markets : ∀ m asset, Ledger.balanceOf l' (.market m) asset = Ledger.balanceOf l (.market m) asset

section Ledgers

variable {kind : ReferenceType} {l l' l'' : Ledger}

theorem WalletMoved.refl (kind : ReferenceType) (l : Ledger) : WalletMoved kind l l := ⟨.refl _ _, fun _ _ => rfl⟩

theorem WalletMoved.trans (first : WalletMoved kind l l') (second : WalletMoved kind l' l'') : WalletMoved kind l l'' :=
  ⟨first.moved.trans second.moved, fun m asset => (second.markets m asset).trans (first.markets m asset)⟩

theorem WalletMoved.rewritten {funds : Reserved LedgerAccount} {k : Nat} {old new : Reservation}
    (rewritten : Reserved.Rewritten l.funds funds k old new) (mine : old.referenceType = kind) :
    WalletMoved kind l { l with funds := funds } :=
  ⟨.rewritten rewritten (decide_eq_true mine), fun _ asset => Ledger.balanceOf_rewritten rewritten _ asset⟩

theorem posted_elsewhere {ref : AccountRef} {assetId asset : Nat} {postings : List Ledger.Posting}
    (elsewhere : ∀ posting ∈ postings, posting.account ≠ ref) :
    Ledger.posted (Ledger.only ref asset) assetId postings = 0 := by
  refine sumWhere_eq_zero _ _ _ ?_
  intro posting member
  simp [share, Ledger.only, elsewhere posting member]

theorem WalletMoved.posted {input : Ledger.PostTransactionInput} {assetId : Nat}
    (effect : Ledger.Posted l l' input assetId) (mine : input.referenceType = kind)
    (key : input.idempotencyKey = Ledger.postKey input.referenceType input.referenceId)
    (elsewhere : ∀ posting ∈ input.postings, ∀ m, posting.account ≠ .market m) : WalletMoved kind l l' := by
  refine ⟨.posted effect (decide_eq_true mine) key, ?_⟩
  intro m asset
  have none := @posted_elsewhere (.market m) assetId asset _ fun posting member => elsewhere posting member m
  rw [Ledger.balanceOf, effect.held, none, add_zero, Ledger.balanceOf]

end Ledgers

namespace DepositsService

/-- A report that may credit: enough confirmations and, where the network asks for one, the address's own tag. -/
def Qualifies (wallet : Wallet) (input : ObservedTransactionInput) : Prop :=
  input.requiredConfirmations ≤ input.confirmations ∧ ∃ assetNetwork walletAddress,
    wallet.assetNetworks.get? input.assetNetworkId = some assetNetwork ∧
    wallet.walletAddresses.get? input.walletAddressId = some walletAddress ∧
    (assetNetwork.memoRequired = true →
      input.destinationTag ≠ none ∧ input.destinationTag = walletAddress.destinationTag)

structure Updated (prior : Option Deposit) (input : ObservedTransactionInput) (row : Deposit) : Prop where
  -- what a report leaves in its deposit's row, given the row that was there
  event : isEvent input row = true
  identity : ∀ e, prior = some e → row.userId = e.userId ∧ row.amount = e.amount
  credited : ∀ e, prior = some e → e.status = .credited →
    row.status = .credited ∧ row.ledgerTransactionId = e.ledgerTransactionId

structure Observed (db db' : Db) (input : ObservedTransactionInput) (depositId : Nat) (row : Deposit) : Prop where
  place : (db.wallet.deposits.get? depositId = none ∧ depositId = db.wallet.deposits.size) ∨
    ∃ e, db.wallet.deposits.get? depositId = some e ∧ isEvent input e = true
  updated : Updated (db.wallet.deposits.get? depositId) input row
  result : ∃ t l, db' = { core := { db.core with ledger := l }, wallet := { db.wallet with deposits := t } } ∧
    Table.Wrote db.wallet.deposits t depositId row ∧
    ((Qualifies db.wallet input ∧ row.status = .credited ∧ ∃ posted,
        (Ledger.postTransaction (creditInput depositId row.userId row.amount input.assetSymbol)).run db.core.ledger =
          .ok (posted, l) ∧
        ((∀ e, db.wallet.deposits.get? depositId = some e → e.status ≠ .credited) →
          row.ledgerTransactionId = some posted.transactionId)) ∨
      (¬ Qualifies db.wallet input ∧ l = db.core.ledger ∧
        (row.status = .credited → ∃ e, db.wallet.deposits.get? depositId = some e ∧ e.status = .credited) ∧
        ∀ e, db.wallet.deposits.get? depositId = some e → e.status = .rejected → row.status = .rejected))

section Observing

variable {db db' : Db} {now : Time} {input : ObservedTransactionInput} {assetNetwork : AssetNetwork}
  {walletAddress : WalletAddress} {depositId : Nat} {upserted : Deposit}

theorem qualifies_iff (network : db.wallet.assetNetworks.get? input.assetNetworkId = some assetNetwork)
    (address : db.wallet.walletAddresses.get? input.walletAddressId = some walletAddress) :
    Qualifies db.wallet input ↔ input.isConfirmed = true ∧ tagValid input assetNetwork walletAddress = true := by
  have valid : tagValid input assetNetwork walletAddress = true ↔ (assetNetwork.memoRequired = true →
      input.destinationTag ≠ none ∧ input.destinationTag = walletAddress.destinationTag) := by
    simp only [tagValid, Bool.or_eq_true, Bool.not_eq_true', Bool.and_eq_true, Option.isSome_iff_ne_none,
      decide_eq_true_eq]
    cases assetNetwork.memoRequired <;> simp
  rw [valid, ObservedTransactionInput.isConfirmed, decide_eq_true_eq]
  constructor
  · rintro ⟨enough, n, a, foundN, foundA, tagged⟩
    rw [network] at foundN
    rw [address] at foundA
    cases foundN
    cases foundA
    exact ⟨enough, tagged⟩
  · rintro ⟨enough, tagged⟩
    exact ⟨enough, assetNetwork, walletAddress, network, address, tagged⟩

theorem upsertDeposit_ok
    (done : (upsertDeposit now input assetNetwork walletAddress).run db = .ok ((depositId, upserted), db')) :
    ∃ t, db' = { db with wallet := { db.wallet with deposits := t } } ∧
      Table.Wrote db.wallet.deposits t depositId upserted ∧ isEvent input upserted = true ∧
      ((db.wallet.deposits.get? depositId = none ∧ depositId = db.wallet.deposits.size ∧
          upserted = depositRow now input assetNetwork walletAddress) ∨
        ∃ e, db.wallet.deposits.get? depositId = some e ∧ isEvent input e = true ∧ upserted.userId = e.userId ∧
          upserted.amount = e.amount ∧ upserted.status = e.status ∧
          upserted.ledgerTransactionId = e.ledgerTransactionId) := by
  unfold upsertDeposit at done
  rw [run_bind_of_ok run_find?] at done
  rw [depositsField_get] at done
  cases found : db.wallet.deposits.find? (isEvent input) with
  | none =>
    simp only [found, run_bind_ok, run_create_ok, run_pure, depositsField_get, depositsField_set] at done
    obtain ⟨_, _, ⟨t, inserted, rfl, rfl⟩, same⟩ := done
    cases same
    refine ⟨t, rfl, .of_insert inserted, by simp [isEvent, depositRow], .inl ⟨?_, rfl, rfl⟩⟩
    exact List.getElem?_eq_none (le_refl _)
  | some pair =>
    obtain ⟨i, e⟩ := pair
    obtain ⟨position, mine⟩ := Table.find?_some found
    simp only [found, run_bind_ok, run_update_ok, run_pure, depositsField_get, depositsField_set] at done
    obtain ⟨_, _, ⟨t, updated, rfl⟩, same⟩ := done
    cases same
    exact ⟨t, rfl, .of_update updated, mine, .inr ⟨e, position, mine, rfl, rfl, rfl, rfl⟩⟩

theorem advanceDeposit_ok {u : Unit}
    (done : (advanceDeposit now input assetNetwork walletAddress depositId upserted).run db = .ok (u, db'))
    (found : db.wallet.deposits.get? depositId = some upserted) :
    ∃ t row, db' = { db with wallet := { db.wallet with deposits := t } } ∧
      Table.Wrote db.wallet.deposits t depositId row ∧
      (isEvent input row = isEvent input upserted ∧ row.userId = upserted.userId ∧ row.amount = upserted.amount ∧
        row.ledgerTransactionId = upserted.ledgerTransactionId) ∧
      (row.status = upserted.status ∨
        ((upserted.status = .pending ∨ upserted.status = .confirmed) ∧
          (row.status = .failed ∨ row.status = .confirmed))) := by
  have unchanged : ∃ t row, db = { db with wallet := { db.wallet with deposits := t } } ∧
      Table.Wrote db.wallet.deposits t depositId row ∧
      (isEvent input row = isEvent input upserted ∧ row.userId = upserted.userId ∧ row.amount = upserted.amount ∧
        row.ledgerTransactionId = upserted.ledgerTransactionId) ∧
      (row.status = upserted.status ∨
        ((upserted.status = .pending ∨ upserted.status = .confirmed) ∧
          (row.status = .failed ∨ row.status = .confirmed))) :=
    ⟨_, upserted, rfl, .refl found, ⟨rfl, rfl, rfl, rfl⟩, .inl rfl⟩
  simp only [advanceDeposit, run_ite] at done
  split at done
  next =>
    simp only [run_bind_ok, run_pure] at done
    obtain ⟨_, _, ran, same⟩ := done
    cases same
    rcases run_updateMany_wrote ran found with ⟨-, rfl, -⟩ | ⟨-, picked, t, rfl, wrote⟩
    · exact unchanged
    · exact ⟨t, _, rfl, wrote, ⟨rfl, rfl, rfl, rfl⟩, .inr ⟨by simpa using picked, .inl rfl⟩⟩
  next =>
    split at done
    next =>
      simp only [run_bind_ok, run_pure] at done
      obtain ⟨_, _, ran, same⟩ := done
      cases same
      rcases run_updateMany_wrote ran found with ⟨-, rfl, -⟩ | ⟨-, picked, t, rfl, wrote⟩
      · exact unchanged
      · exact ⟨t, _, rfl, wrote, ⟨rfl, rfl, rfl, rfl⟩, .inr ⟨.inl (by simpa using picked), .inr rfl⟩⟩
    next =>
      simp only [run_pure] at done
      cases done
      exact unchanged

variable (input) in
theorem creditDeposit_ok {userId : Nat} {amount : ℚ} {assetSymbol : String} {credited : Bool} {before : Deposit}
    (done : (creditDeposit now depositId userId amount assetSymbol).run db = .ok (credited, db'))
    (found : db.wallet.deposits.get? depositId = some before) :
    ∃ t l posted row, db' = { core := { db.core with ledger := l }, wallet := { db.wallet with deposits := t } } ∧
      (Ledger.postTransaction (creditInput depositId userId amount assetSymbol)).run db.core.ledger = .ok (posted, l) ∧
      Table.Wrote db.wallet.deposits t depositId row ∧
      (isEvent input row = isEvent input before ∧ row.userId = before.userId ∧ row.amount = before.amount) ∧
      row.status = .credited ∧
      ((before.status = .credited ∧ row.ledgerTransactionId = before.ledgerTransactionId) ∨
        (before.status ≠ .credited ∧ row.ledgerTransactionId = some posted.transactionId)) := by
  simp only [creditDeposit, run_bind_ok, run_zoom_ok, ledgerField_get, ledgerField_set] at done
  obtain ⟨posted, _, ⟨l, ran, rfl⟩, count, _, updated, rest⟩ := done
  have same : ∀ {s : Db}, (if posted.alreadyPosted = true then pure false else pure count : Tx Db Fault Bool).run s =
      .ok (credited, db') → s = db' := by
    intro s ended
    rw [run_ite] at ended
    split at ended <;> simp only [run_pure, Except.ok.injEq, Prod.mk.injEq] at ended <;> exact ended.2
  rcases run_updateMany_wrote updated found with ⟨-, rfl, unpicked⟩ | ⟨-, picked, t, rfl, wrote⟩
  · obtain rfl := same rest
    have was : before.status = .credited := by simpa using unpicked
    exact ⟨_, l, posted, before, rfl, ran, .refl found, ⟨rfl, rfl, rfl⟩, was, .inl ⟨was, rfl⟩⟩
  · obtain rfl := same rest
    exact ⟨t, l, posted, _, rfl, ran, wrote, ⟨rfl, rfl, rfl⟩, rfl, .inr ⟨by simpa using picked, rfl⟩⟩

theorem recordObservedTransaction_ok {recorded : Recorded}
    (done : (recordObservedTransaction now input).run db = .ok (recorded, db')) :
    ∃ depositId row, Observed db db' input depositId row := by
  -- every report writes the one row of its event; it credits exactly when it qualifies
  simp only [recordObservedTransaction, run_bind_ok, run_getOrThrow_ok, run_find?, run_pure, assetNetworksField_get,
    walletAddressesField_get, Except.ok.injEq, Prod.mk.injEq] at done
  obtain ⟨assetNetwork, _, ⟨network, rfl⟩, walletAddress, _, ⟨address, rfl⟩, _, _, ⟨-, rfl⟩, ⟨depositId, upserted⟩, db₁,
    upsert, _, db₂, advance, credited, db₃, credit, deposit, _, ⟨-, rfl⟩, -, rfl⟩ := done
  obtain ⟨t₁, rfl, wrote₁, event, place⟩ := upsertDeposit_ok upsert
  obtain ⟨t₂, row₂, rfl, wrote₂, ⟨event₂, user₂, amount₂, link₂⟩, status₂⟩ := advanceDeposit_ok advance wrote₁.get
  have wrote := wrote₁.again wrote₂
  have placed : (db.wallet.deposits.get? depositId = none ∧ depositId = db.wallet.deposits.size) ∨
      ∃ e, db.wallet.deposits.get? depositId = some e ∧ isEvent input e = true := by
    rcases place with ⟨absent, last, -⟩ | ⟨e, old, mine, -⟩
    · exact .inl ⟨absent, last⟩
    · exact .inr ⟨e, old, mine⟩
  have status : ∀ e, db.wallet.deposits.get? depositId = some e → (e.status = .credited ∨ e.status = .rejected) →
      row₂.status = e.status ∧ row₂.ledgerTransactionId = e.ledgerTransactionId := by
    intro e found final
    obtain ⟨absent, -⟩ | ⟨e', old, -, -, -, same, link⟩ := place
    · simp [absent] at found
    rw [found] at old
    cases old
    refine ⟨status₂.elim (fun kept => kept.trans same) fun moved => ?_, link₂.trans link⟩
    rw [same] at moved
    rcases final with final | final <;> simp [final] at moved
  have identity : ∀ e, db.wallet.deposits.get? depositId = some e → row₂.userId = e.userId ∧ row₂.amount = e.amount := by
    intro e found
    obtain ⟨absent, -⟩ | ⟨e', old, -, user, amount, -⟩ := place
    · simp [absent] at found
    rw [found] at old
    cases old
    exact ⟨user₂.trans user, amount₂.trans amount⟩
  have qualifies := qualifies_iff network address
  rw [creditWhenFinal, run_ite] at credit
  split at credit
  next holds =>
    rw [Bool.and_eq_true] at holds
    obtain ⟨t₃, l, posted, row, rfl, ran, wrote₃, ⟨event₃, user₃, amount₃⟩, isCredited, link₃⟩ :=
      creditDeposit_ok input credit wrote₂.get
    rw [← user₂, ← amount₂, ← user₃, ← amount₃] at ran
    refine ⟨depositId, row, placed, ⟨event₃.trans (event₂.trans event), ?_, ?_⟩,
      t₃, l, rfl, wrote.again wrote₃, .inl ⟨qualifies.mpr holds, isCredited, posted, ran, ?_⟩⟩
    · intro e found
      obtain ⟨user, amount⟩ := identity e found
      exact ⟨user₃.trans user, amount₃.trans amount⟩
    · intro e found was
      obtain ⟨same, link⟩ := status e found (.inl was)
      refine ⟨isCredited, ?_⟩
      rcases link₃ with ⟨-, kept⟩ | ⟨fresh, -⟩
      · exact kept.trans link
      · exact absurd (same.trans was) fresh
    · intro uncredited
      rcases link₃ with ⟨was, -⟩ | ⟨-, fresh⟩
      · exfalso
        rcases place with ⟨absent, -, new⟩ | ⟨e, old, -, -, -, same, -⟩
        · rcases status₂ with kept | ⟨-, moved⟩
          · rw [kept, new] at was
            simp only [depositRow] at was
            split_ifs at was
          · rcases moved with moved | moved <;> simp [moved] at was
        · rcases status₂ with kept | ⟨-, moved⟩
          · exact uncredited e old (same ▸ kept ▸ was)
          · rcases moved with moved | moved <;> simp [moved] at was
      · exact fresh
  next fails =>
    simp only [run_pure, Except.ok.injEq, Prod.mk.injEq] at credit
    obtain ⟨-, rfl⟩ := credit
    refine ⟨depositId, row₂, placed, ⟨event₂.trans event, identity, ?_⟩,
      t₂, _, rfl, wrote, .inr ⟨fun holds => fails ?_, rfl, ?_, ?_⟩⟩
    · intro e found was
      obtain ⟨same, link⟩ := status e found (.inl was)
      exact ⟨same.trans was, link⟩
    · rw [Bool.and_eq_true]
      exact qualifies.mp holds
    · intro now_
      rcases place with ⟨absent, -, new⟩ | ⟨e, old, -, -, -, same, -⟩
      · rcases status₂ with kept | ⟨-, moved⟩
        · rw [kept, new] at now_
          simp only [depositRow] at now_
          split_ifs at now_
        · rcases moved with moved | moved <;> simp [moved] at now_
      · rcases status₂ with kept | ⟨-, moved⟩
        · exact ⟨e, old, same ▸ kept ▸ now_⟩
        · rcases moved with moved | moved <;> simp [moved] at now_
    · intro e found was
      exact (status e found (.inr was)).1.trans was

/-- `rejectIfNotCredited` changes at most one row, which was pending or confirmed. -/
theorem rejectIfNotCredited_ok {reason : String} {result : Deposit × Bool}
    (done : (rejectIfNotCredited now depositId reason).run db = .ok (result, db')) :
    db' = db ∨ ∃ e t, db.wallet.deposits.get? depositId = some e ∧ (e.status = .pending ∨ e.status = .confirmed) ∧
      db' = { db with wallet := { db.wallet with deposits := t } } ∧
      Table.Wrote db.wallet.deposits t depositId
        { e with status := .rejected, failureReason := some reason, lastCheckedAt := some now } := by
  simp only [rejectIfNotCredited, run_bind_ok, run_getOrThrow_ok, run_pure, Except.ok.injEq, Prod.mk.injEq] at done
  obtain ⟨count, _, ran, deposit, _, ⟨-, rfl⟩, -, rfl⟩ := done
  rcases run_updateMany_ok ran with ⟨-, rfl, -⟩ | ⟨-, e, t, found, picked, updated, rfl⟩
  · exact .inl rfl
  · exact .inr ⟨e, t, found, by simpa using picked, rfl, .of_update updated⟩

end Observing

end DepositsService

end VerdictVaut
