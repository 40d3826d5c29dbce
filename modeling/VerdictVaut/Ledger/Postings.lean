import VerdictVaut.Ledger.Service

set_option autoImplicit false

namespace VerdictVaut.Ledger

open Relational Relational.Tx

def held (selected : AccountRef → Nat → Bool) (l : Ledger) : ℚ :=
  -- the sum of the balances of the accounts that an owner and an asset select
  sumWhere (fun account => selected account.owner account.assetId) LedgerAccount.cachedBalance
    l.accounts.rows

def posted (selected : AccountRef → Nat → Bool) (assetId : Nat) (postings : List Posting) : ℚ :=
  -- the part of a list of postings that falls on the accounts selected
  sumWhere (fun posting => selected posting.account assetId) Posting.amount postings

def only (ref : AccountRef) (assetId : Nat) (owner : AccountRef) (asset : Nat) : Bool :=
  decide (owner = ref) && decide (asset = assetId)

def balanceOf (l : Ledger) (ref : AccountRef) (assetId : Nat) : ℚ := held (only ref assetId) l

def reservedOf (l : Ledger) (ref : AccountRef) (assetId : Nat) : ℚ :=
  sumWhere (fun account => only ref assetId account.owner account.assetId)
    LedgerAccount.reservedBalance l.accounts.rows

def available (l : Ledger) (ref : AccountRef) (assetId : Nat) : ℚ := balanceOf l ref assetId - reservedOf l ref assetId

section Accounts

variable {l l' : Ledger}

theorem only_clash {ref : AccountRef} {assetId : Nat} (a b : LedgerAccount)
    (first : only ref assetId a.owner a.assetId = true)
    (second : only ref assetId b.owner b.assetId = true) : RowSpec.clash a b ≠ none := by
  simp only [only, Bool.and_eq_true, decide_eq_true_eq] at first second
  simp [RowSpec.clash, first, second]

theorem balanceOf_eq {account : LedgerAccount} (member : account ∈ l.accounts.rows) :
    balanceOf l account.owner account.assetId = account.cachedBalance :=
  Table.sumWhere_of_unique _ member (by simp [only]) only_clash

theorem reservedOf_eq {account : LedgerAccount} (member : account ∈ l.accounts.rows) :
    reservedOf l account.owner account.assetId = account.reservedBalance :=
  Table.sumWhere_of_unique _ member (by simp [only]) only_clash

theorem reservedOf_nonneg (ref : AccountRef) (assetId : Nat) : 0 ≤ reservedOf l ref assetId := by
  refine sumWhere_nonneg _ _ _ ?_
  intro account member
  have := LedgerAccount.reserved_nonneg member
  unfold share
  split <;> simp [this]

/-- What `ledger_accounts_user_balance_check` says of the account behind a reference. -/
theorem reservedOf_le_balanceOf {ref : AccountRef} (owned : ref.isHouse = false) (assetId : Nat) :
    reservedOf l ref assetId ≤ balanceOf l ref assetId := by
  by_cases present : ∃ account ∈ l.accounts.rows, account.owner = ref ∧ account.assetId = assetId
  · obtain ⟨account, member, rfl, rfl⟩ := present
    rw [balanceOf_eq member, reservedOf_eq member]
    exact (LedgerAccount.bounds member owned).2
  · have absent : ∀ account ∈ l.accounts.rows, only ref assetId account.owner account.assetId = false := by
      intro account member
      by_contra picked
      exact present ⟨account, member, by simpa [only] using picked⟩
    have nothing : reservedOf l ref assetId = 0 :=
      sumWhere_eq_zero _ _ _ fun account member => by simp [share, absent account member]
    have nothing' : balanceOf l ref assetId = 0 :=
      sumWhere_eq_zero _ _ _ fun account member => by simp [share, absent account member]
    rw [nothing, nothing']

theorem balanceOf_nonneg {ref : AccountRef} (owned : ref.isHouse = false) (assetId : Nat) :
    0 ≤ balanceOf l ref assetId :=
  (reservedOf_nonneg ref assetId).trans (reservedOf_le_balanceOf owned assetId)

end Accounts

section Effects

variable {l l' : Ledger} {assetId transactionId : Nat} {ref : AccountRef} {posting : Posting}

theorem assetBySymbol_ok {symbol : String} {found : Nat × Asset}
    (done : (assetBySymbol symbol).run l = .ok (found, l')) :
    l' = l ∧ l.assets.find? (fun asset => decide (asset.symbol = symbol)) = some found := by
  simp only [assetBySymbol, run_findOrThrow_ok, assetsField_get] at done
  exact ⟨done.2.symm, done.1⟩

/-- `resolveAccount` returns the account's row, and adds it, empty, when there is none. -/
theorem resolveAccount_ok {accountId : Nat} {account : LedgerAccount}
    (done : (resolveAccount assetId ref).run l = .ok ((accountId, account), l')) :
    ∃ accounts : Table LedgerAccount, l' = { l with funds := { l.funds with holders := accounts } } ∧
      accounts.get? accountId = some account ∧ account.owner = ref ∧ account.assetId = assetId ∧
      (accounts = l.accounts ∨ accounts.rows = l.accounts.rows ++ [openedAccount assetId ref]) := by
  simp only [resolveAccount, run_upsert_ok, accountsField_get, accountsField_set] at done
  rcases done with ⟨found, rfl⟩ | ⟨-, t, inserted, same, rfl⟩
  · obtain ⟨position, holds⟩ := Table.find?_some found
    simp only [isAccount, Bool.and_eq_true, decide_eq_true_eq] at holds
    exact ⟨l.accounts, rfl, position, holds.1, holds.2, .inl rfl⟩
  · cases same
    obtain ⟨-, -, rows⟩ := Table.insert_ok inserted
    refine ⟨t, rfl, ?_, rfl, rfl, .inr rows⟩
    rw [Table.get?_of_append rows, if_pos rfl]

structure PostFrame (l l' : Ledger) : Prop where
  -- nothing but the accounts and the entries changes
  assets : l'.assets = l.assets
  transactions : l'.transactions = l.transactions
  reservations : l'.funds.reservations = l.funds.reservations

theorem PostFrame.refl (l : Ledger) : PostFrame l l := ⟨rfl, rfl, rfl⟩

theorem PostFrame.trans {a b c : Ledger} (first : PostFrame a b) (second : PostFrame b c) :
    PostFrame a c :=
  ⟨second.assets.trans first.assets, second.transactions.trans first.transactions,
    second.reservations.trans first.reservations⟩

/-- One posting: one entry, and the balance of its account moved to the entry's `balanceAfter`. -/
theorem postEntry_ok {u : Unit} (done : (postEntry transactionId assetId posting).run l = .ok (u, l')) :
    PostFrame l l' ∧ ∃ (accounts : Table LedgerAccount) (accountId : Nat) (account : LedgerAccount),
      (accounts = l.accounts ∨
        accounts.rows = l.accounts.rows ++ [openedAccount assetId posting.account]) ∧
      accounts.get? accountId = some account ∧
      account.owner = posting.account ∧ account.assetId = assetId ∧
      l'.accounts.rows = accounts.rows.set accountId
        { account with cachedBalance := account.cachedBalance + posting.amount } ∧
      l'.entries.rows = l.entries.rows ++
        [{ transactionId := transactionId, accountId := accountId, amount := posting.amount,
           balanceAfter := account.cachedBalance + posting.amount }] := by
  unfold postEntry at done
  simp only [run_bind_ok] at done
  obtain ⟨⟨accountId, account⟩, l₁, resolved, rest⟩ := done
  obtain ⟨accounts, rfl, found, owner, asset, rows⟩ := resolveAccount_ok resolved
  simp only [run_throwIf_ok, run_create_ok, run_update_ok, entriesField_get,
    entriesField_set, accountsField_get, accountsField_set] at rest
  obtain ⟨_, _, ⟨-, rfl⟩, _, _, ⟨entries, inserted, rfl, rfl⟩, after, updated, rfl⟩ := rest
  obtain ⟨-, -, entryRows⟩ := Table.insert_ok inserted
  obtain ⟨-, -, -, accountRows⟩ := Table.update_ok updated
  exact ⟨⟨rfl, rfl, rfl⟩, accounts, accountId, account, rows, found, owner, asset, accountRows,
    entryRows⟩

theorem held_postEntry {u : Unit} (selected : AccountRef → Nat → Bool)
    (done : (postEntry transactionId assetId posting).run l = .ok (u, l')) :
    held selected l' = held selected l + if selected posting.account assetId then posting.amount else 0 := by
  obtain ⟨-, accounts, accountId, account, opened, found, owner, asset, rows, -⟩ := postEntry_ok done
  have before : sumWhere (fun account => selected account.owner account.assetId)
      LedgerAccount.cachedBalance accounts.rows = held selected l := by
    rcases opened with rfl | appended
    · rfl
    · simp [appended, held, share, openedAccount]
  rw [held, rows, sumWhere_set _ _ _ _ _ _ found, before]
  simp only [share, owner, asset]
  split <;> ring

theorem accounts_postEntry {u : Unit} (done : (postEntry transactionId assetId posting).run l = .ok (u, l')) :
    Table.Carries (fun a => (a.owner, a.assetId, a.reservedBalance)) l.accounts l'.accounts ∧
      ∀ ref asset, reservedOf l' ref asset = reservedOf l ref asset := by
  obtain ⟨-, accounts, accountId, account, opened, found, owner, asset, rows, -⟩ := postEntry_ok done
  have rewritten : Table.Carries (fun a => (a.owner, a.assetId, a.reservedBalance)) accounts l'.accounts :=
    .of_set found rows rfl
  constructor
  · rcases opened with rfl | appended
    · exact rewritten
    · exact (Table.Carries.of_append appended).trans rewritten
  · intro ref other
    rw [reservedOf, rows, sumWhere_set _ _ _ _ _ _ found]
    rcases opened with rfl | appended
    · simp [share, reservedOf]
    · simp [appended, share, reservedOf, openedAccount]

theorem agrees_postEntry {u : Unit} (agrees : l.funds.Agrees)
    (done : (postEntry transactionId assetId posting).run l = .ok (u, l')) : l'.funds.Agrees := by
  obtain ⟨frame, accounts, accountId, account, opened, found, owner, asset, rows, -⟩ := postEntry_ok done
  have middle : (Reserved.mk accounts l.funds.reservations).Agrees := by
    rcases opened with rfl | appended
    · exact agrees
    · exact agrees.insertHolder rfl rfl appended
  exact middle.rewriteHolder found rows rfl frame.reservations

def ofAccount (accountId : Nat) (entry : LedgerEntry) : Bool := decide (entry.accountId = accountId)

/-- Every account's balance is what its entries say: their sum, and the last one's `balanceAfter`. -/
structure Follows (l : Ledger) : Prop where
  sum : ∀ i account, l.accounts.get? i = some account →
    account.cachedBalance = sumWhere (ofAccount i) LedgerEntry.amount l.entries.rows
  last : ∀ i account entry, l.accounts.get? i = some account →
    (l.entries.rows.filter (ofAccount i)).getLast? = some entry → entry.balanceAfter = account.cachedBalance
  inside : ∀ entry ∈ l.entries.rows, entry.accountId < l.accounts.size

theorem Follows.opened {l l' : Ledger} (follows : l.Follows) {assetId : Nat} {ref : AccountRef}
    (accounts : l'.accounts = l.accounts ∨ l'.accounts.rows = l.accounts.rows ++ [openedAccount assetId ref])
    (entries : l'.entries = l.entries) : l'.Follows := by
  rcases accounts with same | appended
  · exact ⟨by rw [same, entries]; exact follows.sum, by rw [same, entries]; exact follows.last,
      by rw [same, entries]; exact follows.inside⟩
  have outside : ∀ entry ∈ l.entries.rows, ofAccount l.accounts.size entry = false := by
    intro entry member
    have := follows.inside entry member
    simp only [ofAccount, decide_eq_false_iff_not]
    omega
  refine ⟨?_, ?_, ?_⟩
  · intro i account found
    rw [Table.get?_of_append appended] at found
    rw [entries]
    split at found
    next fresh =>
      cases found
      subst fresh
      rw [sumWhere_eq_zero _ _ _ fun entry member => by simp [share, outside entry member]]
      rfl
    next => exact follows.sum i account found
  · intro i account entry found latest
    rw [Table.get?_of_append appended] at found
    rw [entries] at latest
    split at found
    next fresh =>
      subst fresh
      have none : l.entries.rows.filter (ofAccount l.accounts.size) = [] :=
        List.filter_eq_nil_iff.mpr fun entry member => by simp [outside entry member]
      simp [none] at latest
    next => exact follows.last i account entry found latest
  · intro entry member
    rw [entries] at member
    rw [Table.size_of_append appended]
    exact Nat.lt_succ_of_lt (follows.inside entry member)

theorem Follows.entered {l l' : Ledger} (follows : l.Follows) {accountId transactionId : Nat}
    {account : LedgerAccount} {amount : ℚ} (found : l.accounts.get? accountId = some account)
    (accounts : l'.accounts.rows = l.accounts.rows.set accountId
      { account with cachedBalance := account.cachedBalance + amount })
    (entries : l'.entries.rows = l.entries.rows ++ [
      { transactionId := transactionId, accountId := accountId, amount := amount,
        balanceAfter := account.cachedBalance + amount }]) : l'.Follows := by
  have inside := Table.get?_lt found
  refine ⟨?_, ?_, ?_⟩
  · intro i row position
    rw [Table.get?_of_set accounts inside] at position
    rw [entries, sumWhere_append]
    split at position
    next same =>
      cases position
      subst same
      simp [follows.sum _ _ found, share, ofAccount]
    next other =>
      rw [follows.sum _ _ position]
      simp [share, ofAccount, Ne.symm other]
  · intro i row entry position latest
    rw [Table.get?_of_set accounts inside] at position
    rw [entries, List.filter_append] at latest
    split at position
    next same =>
      cases position
      subst same
      simp only [ofAccount, List.filter_singleton, decide_true, cond_true, List.getLast?_append,
        List.getLast?_singleton, Option.some_or, Option.some.injEq] at latest
      rw [← latest]
    next other =>
      refine follows.last i row entry position ?_
      simpa [ofAccount, Ne.symm other] using latest
  · intro entry member
    rw [entries] at member
    rw [Table.size_of_set accounts]
    rcases List.mem_append.mp member with old | new
    · exact follows.inside entry old
    · rw [List.mem_singleton.mp new]
      exact inside

theorem Follows.postEntry {l l' : Ledger} {transactionId assetId : Nat} {posting : Posting} {u : Unit}
    (follows : l.Follows) (done : (postEntry transactionId assetId posting).run l = .ok (u, l')) :
    l'.Follows := by
  obtain ⟨-, accounts, accountId, account, opened, found, -, -, rows, entries⟩ := postEntry_ok done
  have middle : ({ l with funds := { l.funds with holders := accounts } } : Ledger).Follows :=
    follows.opened opened rfl
  exact middle.entered found rows entries

def IsLeg (l : Ledger) (transactionId assetId : Nat) (posting : Posting) (entry : LedgerEntry) : Prop :=
  -- the entry that a posting leaves in a ledger
  entry.transactionId = transactionId ∧ entry.amount = posting.amount ∧
    ∃ account, l.accounts.get? entry.accountId = some account ∧
      account.owner = posting.account ∧ account.assetId = assetId

theorem IsLeg.carried {entry : LedgerEntry}
    (carried : Table.Carries (fun a => (a.owner, a.assetId)) l.accounts l'.accounts)
    (leg : IsLeg l transactionId assetId posting entry) : IsLeg l' transactionId assetId posting entry := by
  obtain ⟨transaction, amount, account, found, owner, asset⟩ := leg
  obtain ⟨account', found', same⟩ := carried _ _ found
  simp only [Prod.mk.injEq] at same
  exact ⟨transaction, amount, account', found', same.1.trans owner, same.2.trans asset⟩

structure EntriesPosted (l l' : Ledger) (transactionId assetId : Nat) (postings : List Posting) : Prop where
  -- what the loop over the postings does to the ledger
  frame : PostFrame l l'
  accounts : Table.Carries (fun a => (a.owner, a.assetId, a.reservedBalance)) l.accounts l'.accounts
  reserved : ∀ ref asset, reservedOf l' ref asset = reservedOf l ref asset
  held : ∀ selected, held selected l' = held selected l + posted selected assetId postings
  agrees : l.funds.Agrees → l'.funds.Agrees
  follows : l.Follows → l'.Follows
  entries : ∃ legs, l'.entries.rows = l.entries.rows ++ legs ∧
    List.Forall₂ (IsLeg l' transactionId assetId) postings legs

theorem postEntries_ok {u : Unit} (postings : List Posting)
    (done : (postEntries transactionId assetId postings).run l = .ok (u, l')) :
    EntriesPosted l l' transactionId assetId postings := by
  induction postings generalizing l with
  | nil =>
    cases done
    exact ⟨.refl _, .refl _ _, fun _ _ => rfl, by simp [posted], id, id, [], by simp, .nil⟩
  | cons posting rest ih =>
    simp only [postEntries, run_bind_ok] at done
    obtain ⟨_, l₁, first, others⟩ := done
    have tail := ih others
    obtain ⟨frame, accounts, accountId, account, opened, found, owner, asset, rows, entries⟩ :=
      postEntry_ok first
    obtain ⟨carried, reserved⟩ := accounts_postEntry first
    obtain ⟨legs, entryRows, matched⟩ := tail.entries
    refine ⟨frame.trans tail.frame, carried.trans tail.accounts, ?_, ?_,
      fun agrees => tail.agrees (agrees_postEntry agrees first),
      fun follows => tail.follows (follows.postEntry first), ?_⟩
    · intro ref other
      rw [tail.reserved, reserved]
    · intro selected
      rw [tail.held, held_postEntry selected first]
      simp only [posted, sumWhere_cons, share]
      ring
    · rw [entries, List.append_assoc] at entryRows
      refine ⟨_, entryRows, .cons (IsLeg.carried (tail.accounts.map fun columns => (columns.1, columns.2.1)) ⟨rfl, rfl, ?_⟩) matched⟩
      refine ⟨{ account with cachedBalance := account.cachedBalance + posting.amount }, ?_, owner, asset⟩
      rw [Table.get?_of_set rows (Table.get?_lt found), if_pos rfl]

structure Posted (l l' : Ledger) (input : PostTransactionInput) (assetId : Nat) : Prop where
  -- what a call that posts does to the ledger
  assets : l'.assets = l.assets
  reservations : l'.funds.reservations = l.funds.reservations
  asset : ∃ row, l.assets.find? (fun asset => decide (asset.symbol = input.assetSymbol)) = some (assetId, row)
  legs : 2 ≤ input.postings.length
  balanced : (input.postings.map Posting.amount).sum = 0
  fresh : ∀ t ∈ l.transactions.rows, t.idempotencyKey ≠ input.idempotencyKey
  transactions : l'.transactions.rows = l.transactions.rows ++ [input.row assetId]
  accounts : Table.Carries (fun a => (a.owner, a.assetId, a.reservedBalance)) l.accounts l'.accounts
  reserved : ∀ ref asset, reservedOf l' ref asset = reservedOf l ref asset
  held : ∀ selected, held selected l' = held selected l + posted selected assetId input.postings
  agrees : l.funds.Agrees → l'.funds.Agrees
  follows : l.Follows → l'.Follows
  entries : ∃ legs, l'.entries.rows = l.entries.rows ++ legs ∧
    List.Forall₂ (IsLeg l' l.transactions.size assetId) input.postings legs

theorem postTransaction_ok {input : PostTransactionInput} {result : PostTransactionResult}
    (done : (postTransaction input).run l = .ok (result, l')) :
    (result.alreadyPosted = true ∧ l' = l ∧
        ∃ t, l.transactions.get? result.transactionId = some t ∧ t.idempotencyKey = input.idempotencyKey) ∨
      (result.alreadyPosted = false ∧ result.transactionId = l.transactions.size ∧
        ∃ assetId, Posted l l' input assetId) := by
  -- the two ways a call returns: its key was there and nothing changes, or it posts every leg
  unfold postTransaction at done
  simp only [run_bind_ok, run_throwIf_ok] at done
  obtain ⟨_, _, ⟨enough, rfl⟩, ⟨assetId, asset⟩, _, named, _, _, ⟨balanced, rfl⟩, ⟨i, existed⟩, l₁,
    created, rest⟩ := done
  obtain ⟨rfl, named⟩ := assetBySymbol_ok named
  rcases run_createOnce_ok created with ⟨rfl, rfl, t, inserted, rfl⟩ | ⟨rfl, rfl, t, position, holds⟩
  · right
    simp only [transactionsField_get] at inserted
    obtain ⟨-, fresh, rows⟩ := Table.insert_ok inserted
    simp only [Bool.false_eq_true, if_false, run_bind_ok, run_pure] at rest
    obtain ⟨_, _, ran, same⟩ := rest
    cases same
    have entries := postEntries_ok _ ran
    refine ⟨rfl, rfl, assetId, ⟨entries.frame.assets, entries.frame.reservations, ⟨asset, named⟩,
      not_lt.mp enough, not_not.mp balanced, ?_, ?_, entries.accounts, entries.reserved, entries.held,
      entries.agrees, ?_, entries.entries⟩⟩
    · intro other member same
      simpa [RowSpec.clash, PostTransactionInput.row, same] using fresh other member
    · rw [entries.frame.transactions]
      exact rows
    · intro follows
      exact entries.follows ⟨follows.sum, follows.last, follows.inside⟩
  · left
    simp only [if_true, run_pure] at rest
    cases rest
    exact ⟨rfl, rfl, t, position, by simpa using holds⟩

end Effects

end VerdictVaut.Ledger
