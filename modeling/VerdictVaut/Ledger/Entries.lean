import VerdictVaut.Ledger.Moves

set_option autoImplicit false

namespace VerdictVaut.Ledger

open Relational Relational.Tx

def isOn (selected : AccountRef → Nat → Bool) (accounts : List LedgerAccount) (entry : LedgerEntry) : Bool :=
  -- the entry was made on one of the accounts selected
  accounts[entry.accountId]?.any fun account => selected account.owner account.assetId

section Sums

variable {selected : AccountRef → Nat → Bool}

theorem share_isOn_append (accounts : List LedgerAccount) (account : LedgerAccount) (entry : LedgerEntry) :
    share (isOn selected (accounts ++ [account])) LedgerEntry.amount entry =
      share (isOn selected accounts) LedgerEntry.amount entry +
        if selected account.owner account.assetId then share (ofAccount accounts.length) LedgerEntry.amount entry else 0 := by
  rcases Nat.lt_trichotomy entry.accountId accounts.length with before | last | beyond
  · have same : isOn selected (accounts ++ [account]) entry = isOn selected accounts entry := by
      rw [isOn, List.getElem?_append_left before, isOn]
    simp [share, same, ofAccount, before.ne]
  · simp [share, isOn, ofAccount, last]
  · have absent : (accounts ++ [account])[entry.accountId]? = none := by
      apply List.getElem?_eq_none
      simpa using beyond
    simp [share, isOn, ofAccount, absent, List.getElem?_eq_none beyond.le, beyond.ne']

theorem sumWhere_isOn_append (accounts : List LedgerAccount) (account : LedgerAccount) (entries : List LedgerEntry) :
    sumWhere (isOn selected (accounts ++ [account])) LedgerEntry.amount entries =
      sumWhere (isOn selected accounts) LedgerEntry.amount entries +
        if selected account.owner account.assetId then sumWhere (ofAccount accounts.length) LedgerEntry.amount entries
        else 0 := by
  induction entries with
  | nil => simp
  | cons entry rest ih =>
    simp only [sumWhere_cons, ih, share_isOn_append]
    split
    · ring
    · ring

theorem sumWhere_entries (accounts : List LedgerAccount) (entries : List LedgerEntry)
    (follows : ∀ i account, accounts[i]? = some account →
      account.cachedBalance = sumWhere (ofAccount i) LedgerEntry.amount entries) :
    sumWhere (fun account => selected account.owner account.assetId) LedgerAccount.cachedBalance accounts =
      sumWhere (isOn selected accounts) LedgerEntry.amount entries := by
  -- where every balance is the sum of the account's entries, a sum of balances is a sum of entries
  induction accounts using List.reverseRecOn with
  | nil =>
    symm
    apply sumWhere_eq_zero
    intro entry _
    simp [share, isOn]
  | append_singleton accounts account ih =>
    have last := follows accounts.length account (by simp)
    have others := ih fun i row found => follows i row (by
      rw [List.getElem?_append_left (List.getElem?_eq_some_iff.mp found).1]
      exact found)
    rw [sumWhere_append, others, sumWhere_isOn_append, sumWhere_cons, sumWhere_nil, add_zero, share, last]

end Sums

section Moves

variable {kinds : ReferenceType → Bool} {l l' : Ledger}

theorem Moved.entries_perm (moved : Moved kinds l l') (same : l'.transactions = l.transactions) (books : l.Books)
    (books' : l'.Books) : l'.entries.rows.Perm l.entries.rows := by
  apply List.perm_iff_count.mpr
  intro entry
  by_cases inside : entry.transactionId < l.transactions.size
  · -- the entries of each stored transaction are the same before and after
    have mine : ofTransaction entry.transactionId entry = true := decide_eq_true rfl
    rw [← List.count_filter mine, moved.entries _ inside, List.count_filter mine]
  · have absent : entry ∉ l.entries.rows := fun member => inside (books.named entry member)
    have absent' : entry ∉ l'.entries.rows := by
      intro member
      apply inside
      rw [← same]
      exact books'.named entry member
    rw [List.count_eq_zero_of_not_mem absent, List.count_eq_zero_of_not_mem absent']

theorem Moved.held_same (moved : Moved kinds l l') (same : l'.transactions = l.transactions) (sound : l.Sound)
    (selected : AccountRef → Nat → Bool) : held selected l' = held selected l := by
  have books := sound.books
  have books' := (moved.sound sound).books
  have entries := moved.entries_perm same books books'
  have before := @sumWhere_entries selected _ _ books.follows.sum
  have after := @sumWhere_entries selected _ _ books'.follows.sum
  have perm : sumWhere (isOn selected l'.accounts.rows) LedgerEntry.amount l'.entries.rows =
      sumWhere (isOn selected l'.accounts.rows) LedgerEntry.amount l.entries.rows :=
    ((entries.filter _).map _).sum_eq
  rw [held, after, perm, held, before]
  apply sumWhere_congr
  intro entry member
  -- the account of an entry keeps its owner and its asset
  obtain ⟨account, found⟩ : ∃ account, l.accounts.get? entry.accountId = some account :=
    ⟨_, List.getElem?_eq_getElem (books.follows.inside entry member)⟩
  obtain ⟨account', found', columns⟩ := moved.accounts _ _ found
  simp only [Prod.mk.injEq] at columns
  unfold Table.get? at found found'
  simp only [share, isOn, found, found', Option.any_some, columns.1, columns.2]

structure Entered (l l' : Ledger) (input : PostTransactionInput) (assetId : Nat) : Prop where
  -- one transaction, entered between steps that make none
  asset : ∃ asset, l.assets.find? (fun asset => decide (asset.symbol = input.assetSymbol)) = some (assetId, asset)
  transactions : l'.transactions.rows = l.transactions.rows ++ [input.row assetId]
  posted : PostedAs l' l.transactions.size (input.row assetId) input.postings
  held : ∀ selected, held selected l' = held selected l + Ledger.posted selected assetId input.postings

theorem Posted.entered {input : PostTransactionInput} {assetId : Nat} {l₁ l₂ : Ledger} (effect : Posted l₁ l₂ input assetId)
    (sound : l.Sound) (before : Moved kinds l l₁) (same : l₁.transactions = l.transactions) (sound₂ : l₂.Sound)
    (after : Moved kinds l₂ l') (same' : l'.transactions = l₂.transactions) : Entered l l' input assetId where
  asset := by
    rw [← before.assets]
    exact effect.asset
  transactions := by rw [same', effect.transactions, same]
  posted := by
    have own := (effect.postedAs (before.sound sound).books).moved after
    rwa [same] at own
  held selected := by rw [after.held_same same' sound₂, effect.held, before.held_same same sound]

end Moves

end VerdictVaut.Ledger
