import VerdictVaut.Ledger.Conservation
import VerdictVaut.Ledger.Decimal

set_option autoImplicit false

-- the ledger's calls with the rounding of `Prisma.Decimal` and of the columns
namespace VerdictVaut.Rounded

open Relational Relational.Tx Decimals Ledger

section Calls

variable {σ : Type}

/-- A write to a `Decimal(36, 18)` column, which takes at most 18 digits before the point. -/
def write (x : ℚ) : Tx σ Fault ℚ := do
  throwIf (10 ^ 18 ≤ |Decimal.column x|) (.db .checkViolation)
  pure (Decimal.column x)

def postEntry (transactionId assetId : Nat) (posting : Posting) : Tx Ledger Fault Unit := do
  let (accountId, account) ← resolveAccount assetId posting.account
  let balanceAfter := Decimal.plus account.cachedBalance posting.amount
  throwIf (account.owner.isHouse = false ∧ balanceAfter < 0)
    (.insufficientBalance accountId account.cachedBalance posting.amount)
  let amount ← write posting.amount
  let balance ← write balanceAfter
  let _ ← create entriesField
    { transactionId := transactionId, accountId := accountId, amount := amount, balanceAfter := balance }
  update accountsField accountId { account with cachedBalance := balance }

def postEntries (transactionId assetId : Nat) : List Posting → Tx Ledger Fault Unit
  | [] => pure ()
  | posting :: rest => do
    postEntry transactionId assetId posting
    postEntries transactionId assetId rest

def sumAmounts (amounts : List ℚ) : ℚ := amounts.foldl Decimal.plus 0

def postTransaction (input : PostTransactionInput) : Tx Ledger Fault PostTransactionResult := do
  throwIf (input.postings.length < 2) (.unbalancedTransaction none none)
  let (assetId, _) ← assetBySymbol input.assetSymbol
  let total := sumAmounts (input.postings.map Posting.amount)
  throwIf (total ≠ 0) (.unbalancedTransaction (some assetId) (some total))
  let (transactionId, alreadyExisted) ← createOnce transactionsField "idempotencyKey" (input.row assetId)
    (fun t => decide (t.idempotencyKey = input.idempotencyKey)) (.staleSnapshotConflict "idempotencyKey")
  if alreadyExisted then
    pure { transactionId := transactionId, alreadyPosted := true }
  else do
    postEntries transactionId assetId input.postings
    pure { transactionId := transactionId, alreadyPosted := false }

section Reservations

-- the same calls of the two reservation services, on the funds and on the shares
variable {H : Type} [Holder H]

/-- `reserve` after the holder's row has been resolved. -/
def earmark (holderId : Nat) (holder : H) (input : Reserved.ReserveInput) : Tx (Reserved H) Fault (Nat × Bool) := do
  let amount ← write input.amount
  let (reservationId, alreadyExisted) ← createOnce Reserved.reservationsField "idempotencyKey"
    ({ input with amount := amount }.row holderId)
    (fun r => decide (r.idempotencyKey = input.idempotencyKey)) (.staleSnapshotConflict "idempotencyKey")
  if alreadyExisted then
    pure (reservationId, true)
  else do
    let available := Decimal.minus (Holder.total holder) (Holder.reserved holder)
    throwIf (available < input.amount) (Holder.insufficient (H := H) holderId available input.amount)
    let reserved ← write (Decimal.plus (Holder.reserved holder) input.amount)
    update Reserved.holdersField holderId (Holder.setReserved reserved holder)
    pure (reservationId, false)

def consume (reservationId : Nat) (amount : ℚ) : Tx (Reserved H) Fault Unit := do
  throwIf (amount ≤ 0) (Holder.invalidAmount (H := H) amount)
  let reservation ← getOrThrow Reserved.reservationsField reservationId
  throwIf (reservation.status ≠ .active) (.reservationNotActive reservationId reservation.status)
  let unconsumed := Decimal.minus reservation.amount reservation.consumedAmount
  throwIf (unconsumed < amount) (.reservationExceeded reservationId amount unconsumed)
  let consumed ← write (Decimal.plus reservation.consumedAmount amount)
  update Reserved.reservationsField reservationId { reservation with consumedAmount := consumed }
  let holder ← getOrThrow Reserved.holdersField reservation.holderId
  let reserved ← write (Decimal.minus (Holder.reserved holder) amount)
  update Reserved.holdersField reservation.holderId (Holder.setReserved reserved holder)

def transition (reservationId : Nat) (nextStatus : ReservationStatus) : Tx (Reserved H) Fault Bool := do
  match ← read fun s => s.reservations.get? reservationId with
  | none => pure false
  | some reservation =>
    if reservation.status = .active then do
      update Reserved.reservationsField reservationId { reservation with status := nextStatus }
      let holder ← getOrThrow Reserved.holdersField reservation.holderId
      let unconsumed := Decimal.minus reservation.amount reservation.consumedAmount
      let reserved ← write (Decimal.minus (Holder.reserved holder) unconsumed)
      update Reserved.holdersField reservation.holderId (Holder.setReserved reserved holder)
      pure true
    else pure false

def release (reservationId : Nat) : Tx (Reserved H) Fault Bool := transition reservationId .released

def capture (reservationId : Nat) : Tx (Reserved H) Fault Bool := transition reservationId .captured

/-- `findActiveByReference` followed by `release` when there is one. -/
def releaseByReference (referenceType : ReferenceType) (referenceId : Nat) : Tx (Reserved H) Fault Unit := do
  match ← Reserved.findActiveByReference referenceType referenceId with
  | some (reservationId, _) => do
    let _ ← release reservationId
    pure ()
  | none => pure ()

end Reservations

def reserve (request : ReserveFunds) : Tx Ledger Fault (Nat × Bool) := do
  throwIf (request.input.amount ≤ 0) (.invalidReservationAmount request.input.amount)
  let (assetId, _) ← assetBySymbol request.assetSymbol
  let (accountId, account) ← resolveAccount assetId (.user request.userId)
  zoom fundsField (earmark accountId account request.input)

end Calls

structure Kept (l : Ledger) : Prop where
  -- the books are kept, and every balance is one that its column keeps
  books : l.Books
  stored : ∀ account ∈ l.accounts.rows, Places Decimal.SCALE account.cachedBalance

section Write

variable {σ : Type} {s s' : σ} {x y : ℚ}

@[simp] theorem run_write_ok : (write x : Tx σ Fault ℚ).run s = .ok (y, s') ↔
    |Decimal.column x| < 10 ^ 18 ∧ y = Decimal.column x ∧ s' = s := by
  simp only [write, run_bind_ok, run_throwIf_ok, run_pure, Except.ok.injEq, Prod.mk.injEq, not_le]
  constructor
  · rintro ⟨_, _, ⟨small, rfl⟩, rfl, rfl⟩
    exact ⟨small, rfl, rfl⟩
  · rintro ⟨small, rfl, rfl⟩
    exact ⟨(), s', ⟨small, rfl⟩, rfl, rfl⟩

end Write

section Exact

variable {l l' : Ledger} {transactionId assetId : Nat} {posting : Posting}

theorem balanceOf_opened {accounts : Table LedgerAccount} {ref : AccountRef} {account : LedgerAccount} {accountId : Nat}
    (opened : accounts = l.accounts ∨ accounts.rows = l.accounts.rows ++ [openedAccount assetId ref])
    (found : accounts.get? accountId = some account) (owner : account.owner = ref) (asset : account.assetId = assetId) :
    account.cachedBalance = balanceOf l ref assetId := by
  have now : balanceOf { l with funds := { l.funds with holders := accounts } } account.owner account.assetId =
      account.cachedBalance := balanceOf_eq (Table.mem_iff_get?.mpr ⟨_, found⟩)
  rw [← now, owner, asset]
  rcases opened with rfl | appended
  · rfl
  · simp [balanceOf, held, appended, share, openedAccount]

/-- Where neither the amount nor the new balance is rounded, the loop's body does what it does in exact arithmetic. -/
theorem postEntry_exact {u : Unit} (stored : ∀ account ∈ l.accounts.rows, Places Decimal.SCALE account.cachedBalance)
    (amount : Places Decimal.SCALE posting.amount)
    (few : Significant Decimal.PRECISION (balanceOf l posting.account assetId + posting.amount))
    (done : (postEntry transactionId assetId posting).run l = .ok (u, l')) :
    (Ledger.postEntry transactionId assetId posting).run l = .ok (u, l') ∧
      ∀ account ∈ l'.accounts.rows, Places Decimal.SCALE account.cachedBalance := by
  unfold postEntry at done
  simp only [run_bind_ok, run_throwIf_ok, run_write_ok] at done
  obtain ⟨⟨accountId, account⟩, l₁, resolved, _, _, ⟨enough, rfl⟩, _, _, ⟨-, rfl, rfl⟩, _, _, ⟨-, rfl, rfl⟩, rest⟩ := done
  obtain ⟨accounts, rfl, found, owner, asset, opened⟩ := resolveAccount_ok resolved
  have balance := balanceOf_opened opened found owner asset
  have exact : Decimal.plus account.cachedBalance posting.amount = account.cachedBalance + posting.amount :=
    Decimal.plus_eq_iff.mpr (balance ▸ few)
  have stored' : ∀ account ∈ accounts.rows, Places Decimal.SCALE account.cachedBalance := by
    rcases opened with rfl | appended
    · exact stored
    · intro other member
      rw [appended] at member
      rcases List.mem_append.mp member with old | new
      · exact stored other old
      · rw [List.mem_singleton.mp new]
        exact ⟨0, by simp [openedAccount]⟩
  have places : Places Decimal.SCALE (account.cachedBalance + posting.amount) :=
    (stored' account (Table.mem_iff_get?.mpr ⟨_, found⟩)).add amount
  rw [exact, Decimal.column_eq_iff.mpr amount, Decimal.column_eq_iff.mpr places] at rest
  rw [exact] at enough
  have ran : (Ledger.postEntry transactionId assetId posting).run l = .ok (u, l') := by
    unfold Ledger.postEntry
    simp only [run_bind_ok, run_throwIf_ok]
    obtain ⟨i, entered, inserted, updated⟩ := rest
    exact ⟨_, _, resolved, (), _, ⟨enough, rfl⟩, i, entered, inserted, updated⟩
  refine ⟨ran, ?_⟩
  simp only [run_create_ok, run_update_ok, accountsField_set, accountsField_get] at rest
  obtain ⟨_, _, ⟨entries, -, -, rfl⟩, after, updated, rfl⟩ := rest
  obtain ⟨-, -, -, rows⟩ := Table.update_ok updated
  intro other member
  change other ∈ after.rows at member
  rw [rows] at member
  rcases List.mem_or_eq_of_mem_set member with old | rfl
  · exact stored' other old
  · exact places

structure Fits (l : Ledger) (assetId : Nat) (postings : List Posting) : Prop where
  -- what a list of postings to different accounts must satisfy for nothing to be rounded
  distinct : (postings.map Posting.account).Nodup
  stored : ∀ posting ∈ postings, Places Decimal.SCALE posting.amount
  few : ∀ posting ∈ postings, Significant Decimal.PRECISION (balanceOf l posting.account assetId + posting.amount)

theorem postEntries_exact {postings : List Posting} {u : Unit}
    (stored : ∀ account ∈ l.accounts.rows, Places Decimal.SCALE account.cachedBalance) (fits : Fits l assetId postings)
    (done : (postEntries transactionId assetId postings).run l = .ok (u, l')) :
    (Ledger.postEntries transactionId assetId postings).run l = .ok (u, l') ∧
      ∀ account ∈ l'.accounts.rows, Places Decimal.SCALE account.cachedBalance := by
  induction postings generalizing l with
  | nil =>
    cases done
    exact ⟨rfl, stored⟩
  | cons posting rest ih =>
    simp only [postEntries, run_bind_ok] at done
    obtain ⟨u₁, l₁, first, others⟩ := done
    obtain ⟨first, stored₁⟩ := postEntry_exact stored (fits.stored posting List.mem_cons_self)
      (fits.few posting List.mem_cons_self) first
    have distinct := List.nodup_cons.mp fits.distinct
    have fits₁ : Fits l₁ assetId rest := by
      refine ⟨distinct.2, fun other member => fits.stored other (List.mem_cons_of_mem _ member), fun other member => ?_⟩
      -- the first posting leaves the later accounts alone
      have different : posting.account ≠ other.account := fun same => distinct.1 (same ▸ List.mem_map_of_mem member)
      have same : balanceOf l₁ other.account assetId = balanceOf l other.account assetId := by
        rw [balanceOf, held_postEntry _ first, if_neg (by simp [only, different]), add_zero, balanceOf]
      rw [same]
      exact fits.few other (List.mem_cons_of_mem _ member)
    obtain ⟨tail, stored'⟩ := ih stored₁ fits₁ others
    refine ⟨?_, stored'⟩
    simp only [Ledger.postEntries, run_bind_ok]
    exact ⟨u₁, l₁, first, tail⟩

def Exact (l : Ledger) (input : PostTransactionInput) : Prop :=
  -- a call under a new key posts without rounding
  (∀ t ∈ l.transactions.rows, t.idempotencyKey ≠ input.idempotencyKey) →
    (input.postings.map Posting.amount).sum = 0 ∧
    ∀ assetId row, l.assets.find? (fun asset => decide (asset.symbol = input.assetSymbol)) = some (assetId, row) →
      Fits l assetId input.postings

theorem Kept.posts (kept : Kept l) {input : PostTransactionInput}
    (exact : sumAmounts (input.postings.map Posting.amount) = 0 → Exact l input)
    {result : PostTransactionResult} (done : (postTransaction input).run l = .ok (result, l')) : Kept l' := by
  unfold postTransaction at done
  simp only [run_bind_ok, run_throwIf_ok] at done
  obtain ⟨_, _, ⟨enough, rfl⟩, ⟨assetId, asset⟩, l₀, named, _, _, ⟨zero, rfl⟩, ⟨i, existed⟩, l₁, created, rest⟩ := done
  obtain ⟨rfl, found⟩ := assetBySymbol_ok named
  have made := created
  rcases run_createOnce_ok created with ⟨rfl, rfl, t, inserted, rfl⟩ | ⟨rfl, rfl, t, position, holds⟩
  · simp only [Bool.false_eq_true, if_false, run_bind_ok, run_pure] at rest
    obtain ⟨u, l₂, ran, same⟩ := rest
    obtain ⟨-, fresh, rows⟩ := Table.insert_ok inserted
    obtain ⟨balanced, fits⟩ := exact (not_not.mp zero) fun other member same => by
      simpa [RowSpec.clash, PostTransactionInput.row, same] using fresh other member
    have few := fits assetId asset found
    have fits₁ : Fits (transactionsField.set t l₀) assetId input.postings := ⟨few.distinct, few.stored, few.few⟩
    obtain ⟨ran, stored⟩ := postEntries_exact (l := transactionsField.set t l₀) kept.stored fits₁ ran
    have whole : (Ledger.postTransaction input).run l₀ = .ok (result, l') := by
      unfold Ledger.postTransaction
      simp only [run_bind_ok, run_throwIf_ok]
      refine ⟨(), _, ⟨enough, rfl⟩, _, _, named, (), _, ⟨not_not.mpr balanced, rfl⟩, _, _, made, ?_⟩
      simp only [Bool.false_eq_true, if_false, run_bind_ok, run_pure]
      exact ⟨u, l₂, ran, same⟩
    cases same
    rcases postTransaction_ok whole with ⟨-, rfl, -⟩ | ⟨-, -, asset', effect⟩
    · exact kept
    · exact ⟨kept.books.posted effect, stored⟩
  · simp only [if_true, run_pure, Except.ok.injEq, Prod.mk.injEq] at rest
    rw [← rest.2]
    exact kept

end Exact

section Reservations

variable {l l' : Ledger}

theorem Kept.reserved (kept : Kept l) (transactions : l'.transactions = l.transactions) (entries : l'.entries = l.entries)
    (accounts : Reserved.bare l'.accounts = Reserved.bare l.accounts) : Kept l' where
  books := kept.books.reserved transactions entries accounts
  stored account member := by
    obtain ⟨i, found⟩ := Table.mem_iff_get?.mp member
    obtain ⟨account', found', same⟩ := Reserved.bare_get? accounts.symm found
    have balance : (Holder.setReserved 0 account').cachedBalance = (Holder.setReserved 0 account).cachedBalance := by
      rw [same]
    have balance' : account'.cachedBalance = account.cachedBalance := balance
    rw [← balance']
    exact kept.stored account' (Table.mem_iff_get?.mpr ⟨i, found'⟩)

theorem Kept.opened (kept : Kept l) {assetId : Nat} {ref : AccountRef} (transactions : l'.transactions = l.transactions)
    (entries : l'.entries = l.entries)
    (accounts : l'.accounts = l.accounts ∨ l'.accounts.rows = l.accounts.rows ++ [openedAccount assetId ref]) :
    Kept l' where
  books := kept.books.opened transactions entries accounts
  stored account member := by
    rcases accounts with same | appended
    · exact kept.stored account (same ▸ member)
    · rw [appended] at member
      rcases List.mem_append.mp member with old | new
      · exact kept.stored account old
      · rw [List.mem_singleton.mp new]
        exact ⟨0, by simp [openedAccount]⟩

theorem Kept.reserve (kept : Kept l) {request : ReserveFunds} {outcome : Nat × Bool}
    (done : (reserve request).run l = .ok (outcome, l')) : Kept l' := by
  unfold Rounded.reserve at done
  simp only [run_bind_ok, run_throwIf_ok, run_zoom_ok] at done
  obtain ⟨_, _, ⟨-, rfl⟩, ⟨assetId, asset⟩, l₀, named, ⟨accountId, account⟩, _, resolved, funds, ran, rfl⟩ := done
  obtain ⟨rfl, -⟩ := assetBySymbol_ok named
  obtain ⟨accounts, rfl, found, -, -, opened⟩ := resolveAccount_ok resolved
  have middle : Kept { l₀ with funds := { l₀.funds with holders := accounts } } := kept.opened rfl rfl opened
  unfold earmark at ran
  simp only [run_bind_ok, run_write_ok] at ran
  obtain ⟨_, _, ⟨-, rfl, rfl⟩, ⟨i, existed⟩, s, created, rest⟩ := ran
  rcases run_createOnce_ok created with ⟨rfl, rfl, t, inserted, rfl⟩ | ⟨rfl, rfl, t, position, holds⟩
  · simp only [Bool.false_eq_true, if_false, run_bind_ok, run_throwIf_ok, run_write_ok, run_update_ok, run_pure] at rest
    obtain ⟨_, _, ⟨-, rfl⟩, _, _, ⟨-, rfl, rfl⟩, _, _, ⟨t', updated, rfl⟩, same⟩ := rest
    cases same
    obtain ⟨-, -, -, rows⟩ := Table.update_ok updated
    exact middle.reserved rfl rfl (Reserved.bare_of_set found rows)
  · simp only [if_true, run_pure, Except.ok.injEq, Prod.mk.injEq] at rest
    rw [← rest.2]
    exact middle

theorem capture_bare {s s' : Reserved LedgerAccount} {reservationId : Nat} {captured : Bool}
    (done : (capture reservationId).run s = .ok (captured, s')) : Reserved.bare s'.holders = Reserved.bare s.holders := by
  unfold capture transition at done
  simp only [run_bind_ok, run_read, Except.ok.injEq, Prod.mk.injEq] at done
  obtain ⟨_, _, ⟨rfl, rfl⟩, rest⟩ := done
  split at rest
  · simp only [run_pure, Except.ok.injEq, Prod.mk.injEq] at rest
    rw [← rest.2]
  · split at rest
    · simp only [run_bind_ok, run_update_ok, run_getOrThrow_ok, run_write_ok, run_pure] at rest
      obtain ⟨_, _, ⟨t, updated, rfl⟩, account, _, ⟨found, rfl⟩, _, _, ⟨-, rfl, rfl⟩, _, _, ⟨t', updated', rfl⟩, same⟩ := rest
      cases same
      obtain ⟨-, -, -, rows⟩ := Table.update_ok updated'
      exact Reserved.bare_of_set found rows
    · simp only [run_pure, Except.ok.injEq, Prod.mk.injEq] at rest
      rw [← rest.2]

end Reservations

end VerdictVaut.Rounded
