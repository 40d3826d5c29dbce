import VerdictVaut.Ledger.Progress
import VerdictVaut.Ledger.Rounded

set_option autoImplicit false

-- when a posting goes through with the rounding of `Prisma.Decimal` and of the columns
namespace VerdictVaut.Rounded

open Relational Relational.Tx Decimals Ledger

variable {l l' : Ledger} {assetId transactionId : Nat} {posting : Posting}

section Entry

def newBalance (l : Ledger) (assetId : Nat) (posting : Posting) : ℚ :=
  Decimal.plus (balanceOf l posting.account assetId) posting.amount

/-- The account can take the posting when this much of it is reserved: the columns hold both figures, and what is
reserved of an account that is not the house's stays covered. -/
structure Takes (l : Ledger) (assetId : Nat) (reserved : ℚ) (posting : Posting) : Prop where
  amount : |Decimal.column posting.amount| < 10 ^ 18
  balance : |Decimal.column (newBalance l assetId posting)| < 10 ^ 18
  covered : posting.account.isHouse = true ∨
    0 ≤ newBalance l assetId posting ∧ reserved ≤ Decimal.column (newBalance l assetId posting)

theorem takes_congr {reserved : ℚ} (same : newBalance l' assetId posting = newBalance l assetId posting) :
    Takes l' assetId reserved posting ↔ Takes l assetId reserved posting := by
  constructor <;> intro takes
  next => exact ⟨takes.amount, same ▸ takes.balance, same ▸ takes.covered⟩
  next => exact ⟨takes.amount, same.symm ▸ takes.balance, same.symm ▸ takes.covered⟩

structure Entered (l l' : Ledger) (assetId transactionId : Nat) (postings : List Posting) : Prop where
  -- what the loop over the postings leaves of the ledger, and what it adds
  balances : ∀ ref, ref ∉ postings.map Posting.account → balanceOf l' ref assetId = balanceOf l ref assetId
  reserved : ∀ ref, reservedOf l' ref assetId = reservedOf l ref assetId
  entries : ∃ legs, l'.entries.rows = l.entries.rows ++ legs ∧
    legs.map (fun leg => (leg.transactionId, leg.amount)) =
      postings.map fun posting => (transactionId, Decimal.column posting.amount)

theorem Entered.trans {l'' : Ledger} {first second : List Posting} (left : Entered l l' assetId transactionId first)
    (right : Entered l' l'' assetId transactionId second) : Entered l l'' assetId transactionId (first ++ second) where
  balances ref outside := by
    rw [List.map_append, List.mem_append, not_or] at outside
    rw [right.balances ref outside.2, left.balances ref outside.1]
  reserved ref := (right.reserved ref).trans (left.reserved ref)
  entries := by
    obtain ⟨legs, rows, same⟩ := left.entries
    obtain ⟨legs', rows', same'⟩ := right.entries
    refine ⟨legs ++ legs', ?_, ?_⟩
    next => rw [rows', rows, List.append_assoc]
    next => rw [List.map_append, List.map_append, same, same']

theorem postEntry_entered {u : Unit} (done : (postEntry transactionId assetId posting).run l = .ok (u, l')) :
    Takes l assetId (reservedOf l posting.account assetId) posting ∧ Entered l l' assetId transactionId [posting] := by
  unfold postEntry at done
  simp only [run_bind_ok, run_throwIf_ok, run_write_ok] at done
  obtain ⟨⟨accountId, account⟩, l₁, resolved, _, _, ⟨enough, rfl⟩, _, _, ⟨amount, rfl, rfl⟩, _, _, ⟨balance, rfl, rfl⟩,
    rest⟩ := done
  obtain ⟨held, earmarked⟩ := resolveAccount_views resolved
  obtain ⟨accounts, rfl, found, owner, asset, opened⟩ := resolveAccount_ok resolved
  simp only [run_create_ok, run_update_ok, accountsField_set, accountsField_get, entriesField_get,
    entriesField_set] at rest
  obtain ⟨_, _, ⟨entries, inserted, rfl, rfl⟩, after, updated, rfl⟩ := rest
  obtain ⟨-, valid, -, rows⟩ := Table.update_ok updated
  obtain ⟨-, -, added⟩ := Table.insert_ok inserted
  rw [held] at balance
  rw [held, owner] at enough
  simp only [RowSpec.check, LedgerAccount.check, Bool.and_eq_true, Bool.or_eq_true, decide_eq_true_eq, owner, held,
    earmarked] at valid
  constructor
  next =>
    refine ⟨amount, balance, ?_⟩
    cases house : posting.account.isHouse with
    | true => exact .inl rfl
    | false =>
      rw [house] at valid enough
      exact .inr ⟨not_lt.mp fun negative => enough ⟨rfl, negative⟩, (valid.2.resolve_left (by simp)).2⟩
  next =>
    constructor
    next =>
      intro ref outside
      have other : only ref assetId posting.account assetId = false := by simpa [only, eq_comm] using outside
      rw [balanceOf, Ledger.held, rows, sumWhere_set _ _ _ _ _ _ found]
      rcases opened with rfl | appended
      next => simp [share, owner, asset, other, balanceOf, Ledger.held]
      next => simp [appended, share, owner, asset, other, balanceOf, Ledger.held, openedAccount]
    next =>
      intro ref
      rw [reservedOf, rows, sumWhere_set _ _ _ _ _ _ found]
      rcases opened with rfl | appended
      next => simp [share, reservedOf]
      next => simp [appended, share, reservedOf, openedAccount]
    next => exact ⟨_, added, rfl⟩

theorem postEntry_succeeds (transactionId : Nat) (takes : Takes l assetId (reservedOf l posting.account assetId) posting) :
    ∃ l', (postEntry transactionId assetId posting).run l = .ok ((), l') := by
  obtain ⟨⟨accountId, account⟩, l₁, resolved⟩ := resolveAccount_succeeds l assetId posting.account
  obtain ⟨held, earmarked⟩ := resolveAccount_views resolved
  obtain ⟨accounts, rfl, found, owner, -, -⟩ := resolveAccount_ok resolved
  have nonneg := LedgerAccount.reserved_nonneg (Table.get?_mem found)
  have balance : Decimal.plus account.cachedBalance posting.amount = newBalance l assetId posting := by
    rw [held, newBalance]
  obtain ⟨entries, inserted, -⟩ := @Table.insert_eq_ok _ _ l.entries
    { transactionId := transactionId, accountId := accountId, amount := Decimal.column posting.amount,
      balanceAfter := Decimal.column (newBalance l assetId posting) } rfl (by simp [RowSpec.clash])
  obtain ⟨after, updated, -⟩ := @Table.update_eq_ok _ _ accounts accountId
    { account with cachedBalance := Decimal.column (newBalance l assetId posting) } (Table.get?_lt found)
    (by
      simp only [RowSpec.check, LedgerAccount.check, Bool.and_eq_true, Bool.or_eq_true, decide_eq_true_eq, owner]
      refine ⟨nonneg, takes.covered.imp_right fun covered => ?_⟩
      rw [← earmarked] at covered
      exact ⟨nonneg.trans covered.2, covered.2⟩)
    (by
      intro j other different position
      have apart := Table.clash_of_ne found position (Ne.symm different)
      exact apart)
  have accepted : ¬ (account.owner.isHouse = false ∧ newBalance l assetId posting < 0) := by
    rintro ⟨owned, negative⟩
    rw [owner] at owned
    rcases takes.covered with house | covered
    next =>
      rw [house] at owned
      cases owned
    next => exact absurd covered.1 (not_le.mpr negative)
  refine ⟨{ l with funds := { l.funds with holders := after }, entries := entries }, ?_⟩
  unfold postEntry
  rw [run_bind_of_ok resolved]
  simp only [balance, run_bind_ok, run_throwIf_ok, run_write_ok, run_create_ok, run_update_ok, entriesField_get,
    entriesField_set, accountsField_get, accountsField_set]
  exact ⟨(), _, ⟨accepted, rfl⟩, _, _, ⟨takes.amount, rfl, rfl⟩, _, _, ⟨takes.balance, rfl, rfl⟩, _, _,
    ⟨entries, inserted, rfl, rfl⟩, after, updated, rfl⟩

/-- Another account takes its posting after this one exactly if it did before. -/
theorem Entered.takes {postings : List Posting} {other : Posting} {reserved : ℚ}
    (entered : Entered l l' assetId transactionId postings) (outside : other.account ∉ postings.map Posting.account) :
    Takes l' assetId reserved other ↔ Takes l assetId reserved other :=
  takes_congr (by rw [newBalance, entered.balances _ outside, newBalance])

theorem postEntries_entered {postings : List Posting} {u : Unit} (distinct : (postings.map Posting.account).Nodup)
    (done : (postEntries transactionId assetId postings).run l = .ok (u, l')) :
    (∀ posting ∈ postings, Takes l assetId (reservedOf l posting.account assetId) posting) ∧
      Entered l l' assetId transactionId postings := by
  induction postings generalizing l with
  | nil =>
    cases done
    exact ⟨by simp, fun _ _ => rfl, fun _ => rfl, [], by simp, rfl⟩
  | cons posting rest ih =>
    obtain ⟨fresh, distinct⟩ := List.nodup_cons.mp distinct
    simp only [postEntries, run_bind_ok] at done
    obtain ⟨_, l₁, first, others⟩ := done
    obtain ⟨takes, entered⟩ := postEntry_entered first
    obtain ⟨taken, tail⟩ := ih distinct others
    refine ⟨?_, entered.trans tail⟩
    rw [List.forall_mem_cons]
    refine ⟨takes, fun other member => ?_⟩
    have apart : other.account ∉ [posting].map Posting.account := by
      intro same
      rw [List.map_singleton, List.mem_singleton] at same
      exact fresh (same ▸ List.mem_map_of_mem member)
    have later := taken other member
    rw [entered.reserved] at later
    exact (entered.takes apart).mp later

theorem postEntries_succeeds (transactionId : Nat) {postings : List Posting}
    (distinct : (postings.map Posting.account).Nodup)
    (takes : ∀ posting ∈ postings, Takes l assetId (reservedOf l posting.account assetId) posting) :
    ∃ l', (postEntries transactionId assetId postings).run l = .ok ((), l') := by
  induction postings generalizing l with
  | nil => exact ⟨l, rfl⟩
  | cons posting rest ih =>
    obtain ⟨fresh, distinct⟩ := List.nodup_cons.mp distinct
    obtain ⟨takes, taken⟩ := List.forall_mem_cons.mp takes
    obtain ⟨l₁, first⟩ := postEntry_succeeds transactionId takes
    obtain ⟨-, entered⟩ := postEntry_entered first
    obtain ⟨l₂, others⟩ := @ih l₁ distinct fun other member => by
      have apart : other.account ∉ [posting].map Posting.account := by
        intro same
        rw [List.map_singleton, List.mem_singleton] at same
        exact fresh (same ▸ List.mem_map_of_mem member)
      rw [entered.reserved]
      exact (entered.takes apart).mpr (taken other member)
    exact ⟨l₂, by rw [postEntries, run_bind_of_ok first, others]⟩

end Entry

section Transaction

/-- The deferred trigger passes the entries of one transaction exactly if they balance, with those that it has already. -/
theorem Entered.balances_iff {before : Ledger} {postings : List Posting}
    (entered : Entered l l' assetId transactionId postings) (some_ : postings ≠ []) (same : before.entries = l.entries) :
    checkLedgerTransactionBalance before l' = true ↔
      sumWhere (ofTransaction transactionId) LedgerEntry.amount l.entries.rows +
        (postings.map fun posting => Decimal.column posting.amount).sum = 0 := by
  obtain ⟨legs, rows, columns⟩ := entered.entries
  have mine : ∀ leg ∈ legs, leg.transactionId = transactionId := by
    intro leg member
    have listed := List.mem_map_of_mem (f := fun leg : LedgerEntry => (leg.transactionId, leg.amount)) member
    rw [columns] at listed
    obtain ⟨posting, -, same⟩ := List.mem_map.mp listed
    exact (congrArg Prod.fst same).symm
  have amounts : legs.map LedgerEntry.amount = postings.map fun posting => Decimal.column posting.amount := by
    have seconds := congrArg (List.map Prod.snd) columns
    simpa [List.map_map, Function.comp_def] using seconds
  have total : sumWhere (ofTransaction transactionId) LedgerEntry.amount l'.entries.rows =
      sumWhere (ofTransaction transactionId) LedgerEntry.amount l.entries.rows +
        (postings.map fun posting => Decimal.column posting.amount).sum := by
    have all : legs.filter (ofTransaction transactionId) = legs :=
      List.filter_eq_self.mpr fun leg member => by simp [ofTransaction, mine leg member]
    rw [rows, sumWhere_append, ← amounts, sumWhere, sumWhere, all]
  have nonempty : legs ≠ [] := by
    rintro rfl
    exact some_ (List.map_eq_nil_iff.mp columns.symm)
  have new : l'.entries.rows.drop before.entries.size = legs := by
    rw [rows, same, Table.size, List.drop_left]
  rw [checkLedgerTransactionBalance, new, List.all_eq_true, ← total]
  constructor
  next =>
    intro each
    obtain ⟨leg, member⟩ := List.exists_mem_of_ne_nil _ nonempty
    have zero := of_decide_eq_true (each leg member)
    rw [mine leg member] at zero
    exact zero
  next =>
    intro zero leg member
    rw [mine leg member]
    exact decide_eq_true zero

/-- What a call under a new key needs: every account takes its posting, and the amounts that are stored balance. -/
structure Posts (l : Ledger) (assetId : Nat) (reserved : AccountRef → ℚ) (postings : List Posting) : Prop where
  takes : ∀ posting ∈ postings, Takes l assetId (reserved posting.account) posting
  balanced : sumWhere (ofTransaction l.transactions.size) LedgerEntry.amount l.entries.rows +
    (postings.map fun posting => Decimal.column posting.amount).sum = 0

variable {before : Ledger} {input : PostTransactionInput} {asset : Asset}

def HasKey (l : Ledger) (key : IdempotencyKey) : Prop := ∃ t ∈ l.transactions.rows, t.idempotencyKey = key

theorem postTransaction_posts {result : PostTransactionResult} (same : before.entries = l.entries)
    (named : l.assets.find? (fun asset => decide (asset.symbol = input.assetSymbol)) = some (assetId, asset))
    (distinct : (input.postings.map Posting.account).Nodup) (done : (postTransaction input).run l = .ok (result, l'))
    (passes : checkLedgerTransactionBalance before l' = true) :
    sumAmounts (input.postings.map Posting.amount) = 0 ∧ (HasKey l input.idempotencyKey ∨
      Posts l assetId (fun ref => reservedOf l ref assetId) input.postings) := by
  unfold postTransaction at done
  simp only [run_bind_ok, run_throwIf_ok] at done
  obtain ⟨_, _, ⟨enough, rfl⟩, ⟨assetId', asset'⟩, l₀, found, _, _, ⟨zero, rfl⟩, ⟨i, existed⟩, l₁, created, rest⟩ := done
  obtain ⟨rfl, found⟩ := assetBySymbol_ok found
  rw [named] at found
  cases found
  refine ⟨not_not.mp zero, ?_⟩
  rcases run_createOnce_ok created with ⟨rfl, rfl, t, inserted, rfl⟩ | ⟨rfl, rfl, t, position, holds⟩
  next =>
    simp only [Bool.false_eq_true, if_false, run_bind_ok, run_pure] at rest
    obtain ⟨u, l₂, ran, ended⟩ := rest
    cases ended
    obtain ⟨takes, entered⟩ := postEntries_entered distinct ran
    have legs : input.postings ≠ [] := by
      intro none_
      simp [none_] at enough
    exact .inr ⟨fun posting member =>
      (@takes_congr l₀ (transactionsField.set t l₀) _ posting _ rfl).mp (takes posting member),
      (entered.balances_iff legs same).mp passes⟩
  next => exact .inl ⟨t, Table.get?_mem position, of_decide_eq_true holds⟩

theorem postTransaction_succeeds (same : before.entries = l.entries)
    (named : l.assets.find? (fun asset => decide (asset.symbol = input.assetSymbol)) = some (assetId, asset))
    (legs : 2 ≤ input.postings.length) (distinct : (input.postings.map Posting.account).Nodup)
    (zero : sumAmounts (input.postings.map Posting.amount) = 0)
    (posts : HasKey l input.idempotencyKey ∨ Posts l assetId (fun ref => reservedOf l ref assetId) input.postings) :
    ∃ result l', (postTransaction input).run l = .ok (result, l') ∧ checkLedgerTransactionBalance before l' = true := by
  have looked : (assetBySymbol input.assetSymbol).run l = .ok ((assetId, asset), l) := by
    simp [assetBySymbol, named]
  have passed {condition : Prop} [Decidable condition] (e : Fault) (fails : ¬ condition) :
      (throwIf condition e : Tx Ledger Fault Unit).run l = .ok ((), l) := run_throwIf_ok.mpr ⟨fails, rfl⟩
  obtain ⟨transactionId, existed, l₁, created⟩ := run_createOnce_succeeds transactionsField "idempotencyKey"
    (input.row assetId) (fun t => decide (t.idempotencyKey = input.idempotencyKey))
    (Fault.staleSnapshotConflict "idempotencyKey") l rfl (by
      intro other _ target clash
      obtain ⟨same, rfl⟩ := uniqueOn_eq_some.mp clash
      exact ⟨by simp, decide_eq_true same.symm⟩)
  unfold postTransaction
  rw [run_bind_of_ok (passed _ (not_lt.mpr legs)), run_bind_of_ok looked]
  dsimp only
  rw [run_bind_of_ok (passed _ (not_not.mpr zero)), run_bind_of_ok created]
  rcases run_createOnce_ok created with ⟨rfl, rfl, t, inserted, rfl⟩ | ⟨rfl, rfl, -⟩
  next =>
    have posts : Posts l assetId (fun ref => reservedOf l ref assetId) input.postings := by
      refine posts.resolve_left fun taken => ?_
      obtain ⟨other, member, key⟩ := taken
      obtain ⟨-, fresh, -⟩ := Table.insert_ok inserted
      simpa [RowSpec.clash, PostTransactionInput.row, key] using fresh other member
    obtain ⟨l₂, ran⟩ := @postEntries_succeeds (transactionsField.set t l) assetId l.transactions.size _ distinct
      fun posting member => (@takes_congr l (transactionsField.set t l) _ posting _ rfl).mpr (posts.takes posting member)
    obtain ⟨-, entered⟩ := postEntries_entered distinct ran
    have some_ : input.postings ≠ [] := by
      intro none_
      simp [none_] at legs
    exact ⟨_, l₂, run_bind_of_ok ran, (entered.balances_iff some_ same).mpr posts.balanced⟩
  next =>
    refine ⟨_, _, rfl, ?_⟩
    rw [checkLedgerTransactionBalance, same, Table.size, List.drop_length]
    rfl

end Transaction

end VerdictVaut.Rounded
