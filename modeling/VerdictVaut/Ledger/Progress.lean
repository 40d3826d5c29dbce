import VerdictVaut.Ledger.Moves

set_option autoImplicit false

namespace VerdictVaut.Ledger

open Relational Relational.Tx

variable {l l' : Ledger} {assetId transactionId : Nat} {posting : Posting}

/-- The account of the posting can take it: the house's always, another one when what it has reserved
stays covered. -/
def Covers (l : Ledger) (assetId : Nat) (posting : Posting) : Prop :=
  posting.account.isHouse = true ∨
    reservedOf l posting.account assetId ≤ balanceOf l posting.account assetId + posting.amount

theorem resolveAccount_succeeds (l : Ledger) (assetId : Nat) (ref : AccountRef) :
    ∃ found l', (resolveAccount assetId ref).run l = .ok (found, l') := by
  unfold resolveAccount
  cases present : l.accounts.find? (isAccount assetId ref) with
  | some found =>
    refine ⟨found, l, run_upsert_ok.mpr (.inl ⟨?_, rfl⟩)⟩
    simpa using present
  | none =>
    have fresh : ∀ other ∈ l.accounts.rows, RowSpec.clash (openedAccount assetId ref) other = none := by
      intro other member
      have absent := Table.find?_none.mp present other member
      simp only [isAccount, Bool.and_eq_false_iff, decide_eq_false_iff_not] at absent
      refine uniqueOn_eq_none.mpr ?_
      rintro ⟨owner, asset⟩
      rcases absent with different | different
      · exact different owner.symm
      · exact different asset.symm
    obtain ⟨t, inserted, -⟩ := Table.insert_eq_ok (openedAccount assetId ref)
      (by cases ref <;> simp [RowSpec.check, LedgerAccount.check, openedAccount]) fresh
    refine ⟨_, _, run_upsert_ok.mpr (.inr ⟨?_, t, ?_, rfl, rfl⟩)⟩
    · simpa using present
    · simpa using inserted

theorem resolveAccount_views {accountId : Nat} {account : LedgerAccount} {ref : AccountRef}
    (done : (resolveAccount assetId ref).run l = .ok ((accountId, account), l')) :
    account.cachedBalance = balanceOf l ref assetId ∧ account.reservedBalance = reservedOf l ref assetId := by
  obtain ⟨accounts, rfl, found, owner, asset, rows⟩ := resolveAccount_ok done
  let opened : Ledger := { l with funds := { l.funds with holders := accounts } }
  have member : account ∈ opened.accounts.rows := Table.get?_mem found
  have balance := balanceOf_eq member
  have reserved := reservedOf_eq member
  rw [owner, asset] at balance reserved
  constructor
  · rw [← balance]
    rcases rows with rfl | appended
    · rfl
    · simp [opened, balanceOf, held, appended, share, openedAccount]
  · rw [← reserved]
    rcases rows with rfl | appended
    · rfl
    · simp [opened, reservedOf, appended, share, openedAccount]

theorem postEntry_succeeds (transactionId : Nat) (covered : Covers l assetId posting) :
    ∃ l', (postEntry transactionId assetId posting).run l = .ok ((), l') := by
  obtain ⟨⟨accountId, account⟩, l₁, resolved⟩ := resolveAccount_succeeds l assetId posting.account
  obtain ⟨balance, reserved⟩ := resolveAccount_views resolved
  obtain ⟨accounts, rfl, found, owner, asset, -⟩ := resolveAccount_ok resolved
  have nonneg := LedgerAccount.reserved_nonneg (Table.get?_mem found)
  have enough : account.owner.isHouse = true ∨
      account.reservedBalance ≤ account.cachedBalance + posting.amount := by
    rw [owner, balance, reserved]
    exact covered
  obtain ⟨entries, inserted, -⟩ := Table.insert_eq_ok (t := l.entries)
    { transactionId := transactionId, accountId := accountId, amount := posting.amount,
      balanceAfter := account.cachedBalance + posting.amount } rfl (by simp [RowSpec.clash])
  obtain ⟨after, updated, -⟩ := Table.update_eq_ok (t := accounts)
    { account with cachedBalance := account.cachedBalance + posting.amount } (Table.get?_lt found)
    (by
      simp only [RowSpec.check, LedgerAccount.check, Bool.and_eq_true, Bool.or_eq_true, decide_eq_true_eq]
      exact ⟨nonneg, enough.imp_right fun below => ⟨nonneg.trans below, below⟩⟩)
    (by
      intro j other different position
      have apart := Table.clash_of_ne found position (Ne.symm different)
      exact apart)
  have accepted : ¬ (account.owner.isHouse = false ∧ account.cachedBalance + posting.amount < 0) := by
    rintro ⟨owned, negative⟩
    rcases enough with house | below
    · rw [house] at owned
      cases owned
    · linarith
  unfold postEntry
  refine ⟨{ l with funds := { l.funds with holders := after }, entries := entries }, ?_⟩
  rw [run_bind_of_ok resolved]
  simp only [run_bind_ok, run_throwIf_ok, run_create_ok, run_update_ok, entriesField_get, entriesField_set,
    accountsField_get, accountsField_set]
  exact ⟨(), _, ⟨accepted, rfl⟩, _, _, ⟨entries, inserted, rfl, rfl⟩, after, updated, rfl⟩

theorem covers_postEntry {other : Posting} {u : Unit} (different : posting.account ≠ other.account)
    (covered : Covers l assetId other)
    (done : (postEntry transactionId assetId posting).run l = .ok (u, l')) : Covers l' assetId other := by
  refine covered.imp_right fun below => ?_
  have balance : balanceOf l' other.account assetId = balanceOf l other.account assetId := by
    have change := held_postEntry (only other.account assetId) done
    simpa [balanceOf, only, different] using change
  rw [(accounts_postEntry done).2, balance]
  exact below

theorem postEntries_succeeds (transactionId : Nat) (postings : List Posting)
    (distinct : postings.Pairwise fun a b => a.account ≠ b.account)
    (covered : ∀ posting ∈ postings, Covers l assetId posting) :
    ∃ l', (postEntries transactionId assetId postings).run l = .ok ((), l') := by
  induction postings generalizing l with
  | nil => exact ⟨l, rfl⟩
  | cons posting rest ih =>
    rw [List.pairwise_cons] at distinct
    obtain ⟨l₁, first⟩ := postEntry_succeeds transactionId (covered posting (by simp))
    obtain ⟨l₂, others⟩ := ih distinct.2 fun other member =>
      covers_postEntry (distinct.1 other member) (covered other (List.mem_cons_of_mem _ member)) first
    exact ⟨l₂, by rw [postEntries, run_bind_of_ok first, others]⟩

theorem postTransaction_succeeds (input : PostTransactionInput) {asset : Asset}
    (named : l.assets.find? (fun asset => decide (asset.symbol = input.assetSymbol)) = some (assetId, asset))
    (legs : 2 ≤ input.postings.length) (balanced : (input.postings.map Posting.amount).sum = 0)
    (distinct : input.postings.Pairwise fun a b => a.account ≠ b.account)
    (covered : ∀ posting ∈ input.postings, Covers l assetId posting) :
    ∃ result l', (postTransaction input).run l = .ok (result, l') := by
  -- a balanced call on distinct accounts that can all take their posting goes through
  have looked : (assetBySymbol input.assetSymbol).run l = .ok ((assetId, asset), l) := by
    simp [assetBySymbol, named]
  have enough : ¬ input.postings.length < 2 := not_lt.mpr legs
  unfold postTransaction
  simp only [throwIf, enough, if_false]
  rw [run_bind_of_ok (run_pure _ _), run_bind_of_ok looked]
  simp only [sumAmounts, balanced, ne_eq, not_true_eq_false, if_false]
  rw [run_bind_of_ok (run_pure _ _)]
  obtain ⟨transactionId, existed, l₁, created⟩ := run_createOnce_succeeds transactionsField "idempotencyKey"
    (input.row assetId) (fun t => decide (t.idempotencyKey = input.idempotencyKey))
    (Fault.staleSnapshotConflict "idempotencyKey") l rfl (by
      intro other _ target clash
      obtain ⟨same, rfl⟩ := uniqueOn_eq_some.mp clash
      exact ⟨by simp, decide_eq_true same.symm⟩)
  rw [run_bind_of_ok created]
  rcases run_createOnce_ok created with ⟨rfl, -, t, inserted, rfl⟩ | ⟨rfl, -⟩
  · obtain ⟨l₂, ran⟩ := postEntries_succeeds (l := transactionsField.set t l) transactionId input.postings
      distinct covered
    exact ⟨_, l₂, run_bind_of_ok ran⟩
  · exact ⟨_, l₁, rfl⟩

end VerdictVaut.Ledger
