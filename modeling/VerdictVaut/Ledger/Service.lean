import VerdictVaut.Ledger.Reservations

set_option autoImplicit false

namespace VerdictVaut

open Relational Relational.Tx

instance : Holder LedgerAccount where
  total := LedgerAccount.cachedBalance
  reserved := LedgerAccount.reservedBalance
  setReserved r account := { account with reservedBalance := r }
  invalidAmount := .invalidReservationAmount
  insufficient := .insufficientBalance
  reserved_setReserved _ _ := rfl
  setReserved_setReserved _ _ _ := rfl
  check_setReserved r account valid nonneg below := by
    simp only [RowSpec.check, LedgerAccount.check, Bool.and_eq_true, Bool.or_eq_true,
      decide_eq_true_eq] at valid ⊢
    exact ⟨nonneg, valid.2.imp_right fun bounds => ⟨bounds.1, below.trans bounds.2⟩⟩
  clash_setReserved _ _ _ := rfl

namespace Ledger

def assetsField : Field Ledger (Table Asset) where
  get := Ledger.assets
  set t l := { l with assets := t }

def fundsField : Field Ledger (Reserved LedgerAccount) where
  get := Ledger.funds
  set t l := { l with funds := t }

def accountsField : Field Ledger (Table LedgerAccount) where
  get := Ledger.accounts
  set t l := { l with funds := { l.funds with holders := t } }

def transactionsField : Field Ledger (Table LedgerTransaction) where
  get := Ledger.transactions
  set t l := { l with transactions := t }

def entriesField : Field Ledger (Table LedgerEntry) where
  get := Ledger.entries
  set t l := { l with entries := t }

@[simp] theorem assetsField_get (l : Ledger) : assetsField.get l = l.assets := rfl

@[simp] theorem fundsField_get (l : Ledger) : fundsField.get l = l.funds := rfl

@[simp] theorem fundsField_set (l : Ledger) (t : Reserved LedgerAccount) :
    fundsField.set t l = { l with funds := t } := rfl

@[simp] theorem accountsField_get (l : Ledger) : accountsField.get l = l.accounts := rfl

@[simp] theorem accountsField_set (l : Ledger) (t : Table LedgerAccount) :
    accountsField.set t l = { l with funds := { l.funds with holders := t } } := rfl

@[simp] theorem transactionsField_get (l : Ledger) : transactionsField.get l = l.transactions := rfl

@[simp] theorem transactionsField_set (l : Ledger) (t : Table LedgerTransaction) :
    transactionsField.set t l = { l with transactions := t } := rfl

@[simp] theorem entriesField_get (l : Ledger) : entriesField.get l = l.entries := rfl

@[simp] theorem entriesField_set (l : Ledger) (t : Table LedgerEntry) :
    entriesField.set t l = { l with entries := t } := rfl

structure Posting where
  account : AccountRef
  amount : ℚ
  deriving DecidableEq

structure PostTransactionInput where
  assetSymbol : String
  type : LedgerTransactionType
  referenceType : ReferenceType
  referenceId : Nat
  idempotencyKey : IdempotencyKey
  postings : List Posting
  deriving DecidableEq

structure PostTransactionResult where
  transactionId : Nat
  alreadyPosted : Bool
  deriving DecidableEq

def PostTransactionInput.row (input : PostTransactionInput) (assetId : Nat) : LedgerTransaction where
  assetId := assetId
  type := input.type
  referenceType := input.referenceType
  referenceId := input.referenceId
  idempotencyKey := input.idempotencyKey

def openedAccount (assetId : Nat) (ref : AccountRef) : LedgerAccount where
  owner := ref
  assetId := assetId
  cachedBalance := 0
  reservedBalance := 0

def isAccount (assetId : Nat) (ref : AccountRef) (account : LedgerAccount) : Bool :=
  decide (account.owner = ref) && decide (account.assetId = assetId)

def assetBySymbol (symbol : String) : Tx Ledger Fault (Nat × Asset) :=
  findOrThrow assetsField fun asset => decide (asset.symbol = symbol)

def resolveAccount (assetId : Nat) (ref : AccountRef) : Tx Ledger Fault (Nat × LedgerAccount) :=
  upsert accountsField (isAccount assetId ref) (openedAccount assetId ref)

/-- One pass of `postTransaction`'s loop. -/
def postEntry (transactionId assetId : Nat) (posting : Posting) : Tx Ledger Fault Unit := do
  let (accountId, account) ← resolveAccount assetId posting.account
  let balanceAfter := account.cachedBalance + posting.amount
  throwIf (account.owner.isHouse = false ∧ balanceAfter < 0)
    (.insufficientBalance accountId account.cachedBalance posting.amount)
  let _ ← create entriesField
    { transactionId := transactionId, accountId := accountId, amount := posting.amount,
      balanceAfter := balanceAfter }
  update accountsField accountId { account with cachedBalance := balanceAfter }

def postEntries (transactionId assetId : Nat) : List Posting → Tx Ledger Fault Unit
  | [] => pure ()
  | posting :: rest => do
    postEntry transactionId assetId posting
    postEntries transactionId assetId rest

def sumAmounts (amounts : List ℚ) : ℚ := amounts.sum

def postTransaction (input : PostTransactionInput) : Tx Ledger Fault PostTransactionResult := do
  throwIf (input.postings.length < 2) (.unbalancedTransaction none none)
  let (assetId, _) ← assetBySymbol input.assetSymbol
  let total := sumAmounts (input.postings.map Posting.amount)
  throwIf (total ≠ 0) (.unbalancedTransaction (some assetId) (some total))
  let (transactionId, alreadyExisted) ← createOnce transactionsField "idempotencyKey" (input.row assetId)
    (fun t => decide (t.idempotencyKey = input.idempotencyKey)) (.staleSnapshotConflict "idempotencyKey")
  if alreadyExisted then
    pure { transactionId := transactionId, alreadyPosted := true }
  else do
    postEntries transactionId assetId input.postings
    pure { transactionId := transactionId, alreadyPosted := false }

structure ReserveFunds where
  userId : Nat
  assetSymbol : String
  input : Reserved.ReserveInput

/-- `ReservationService.reserve`. -/
def reserve (request : ReserveFunds) : Tx Ledger Fault (Nat × Bool) := do
  throwIf (request.input.amount ≤ 0) (.invalidReservationAmount request.input.amount)
  let (assetId, _) ← assetBySymbol request.assetSymbol
  let (accountId, account) ← resolveAccount assetId (.user request.userId)
  zoom fundsField (Reserved.earmark accountId account request.input)

end Ledger

def checkLedgerTransactionBalance (before after : Ledger) : Bool :=
  -- the deferred constraint trigger: at commit, the transaction of every inserted entry balances
  (after.entries.rows.drop before.entries.size).all fun e =>
    decide (sumWhere (fun e' => decide (e'.transactionId = e.transactionId)) LedgerEntry.amount
      after.entries.rows = 0)

/-- `SerializableTransactionRunner.run`: the body as one atomic step, then the deferred trigger. -/
def runTransaction {σ α : Type} (ledger : Field σ Ledger) (body : Tx σ Fault α) : Tx σ Fault α := fun s =>
  match body.run s with
  | .ok (a, s') =>
    if checkLedgerTransactionBalance (ledger.get s) (ledger.get s') then .ok (a, s')
    else .error .ledgerBalanceTrigger
  | .error e => .error e

theorem runTransaction_ok {σ α : Type} {ledger : Field σ Ledger} {body : Tx σ Fault α} {s s' : σ} {a : α}
    (done : (runTransaction ledger body).run s = .ok (a, s')) : body.run s = .ok (a, s') := by
  unfold runTransaction at done
  simp only [run] at done ⊢
  split at done
  next ran =>
    split at done
    next =>
      cases done
      exact ran
    next => cases done
  next => cases done

theorem runTransaction_of_check {σ α : Type} {ledger : Field σ Ledger} {body : Tx σ Fault α} {s : σ}
    (checks : ∀ a s', body.run s = .ok (a, s') → checkLedgerTransactionBalance (ledger.get s) (ledger.get s') = true) :
    (runTransaction ledger body).run s = body.run s := by
  unfold runTransaction
  cases ended : body.run s with
  | error e => simp only [run] at ended ⊢; rw [ended]
  | ok pair =>
    obtain ⟨a, s'⟩ := pair
    have balanced := checks a s' ended
    simp only [run] at ended ⊢
    rw [ended]
    exact if_pos balanced

theorem runTransaction_refused {σ α : Type} {ledger : Field σ Ledger} {body : Tx σ Fault α} {s s' : σ} {a : α}
    (ran : body.run s = .ok (a, s')) (unbalanced : checkLedgerTransactionBalance (ledger.get s) (ledger.get s') = false) :
    (runTransaction ledger body).run s = .error .ledgerBalanceTrigger := by
  unfold runTransaction
  simp only [run] at ran ⊢
  rw [ran]
  exact if_neg (by simp [unbalanced])

theorem runTransaction_unchanged {σ α : Type} (ledger : Field σ Ledger) {body : Tx σ Fault α} {s : σ} {a : α}
    (done : body.run s = .ok (a, s)) : (runTransaction ledger body).run s = .ok (a, s) := by
  rw [runTransaction_of_check, done]
  intro a' s' ran
  rw [done] at ran
  cases ran
  simp [checkLedgerTransactionBalance, Table.size]

end VerdictVaut
