import VerdictVaut.Shared.Tx

set_option autoImplicit false

namespace VerdictVaut

open Relational

/-- A key such as `trade:${fill.id}`: the literal text and the ids interpolated into it. -/
structure IdempotencyKey where
  tag : String
  ids : List Nat
  deriving DecidableEq, Repr

inductive ReferenceType
  | deposit | withdrawal | order | fill | completeSetMint | position
  deriving DecidableEq, Repr

inductive ReservationStatus
  | active | released | captured
  deriving DecidableEq, Repr

inductive HouseAccountKey
  | externalChain | feeRevenue | settlementPool
  deriving DecidableEq, Repr

inductive AccountRef
  | user (userId : Nat)
  | house (key : HouseAccountKey)
  | market (marketId : Nat)
  deriving DecidableEq, Repr

def AccountRef.isHouse : AccountRef → Bool
  | .house _ => true
  | _ => false

inductive LedgerTransactionType
  | deposit | withdrawal | trade | fee | settlement | adjustment | reversal | mint
  deriving DecidableEq, Repr

inductive Fault
  | db (e : DbError)
  | staleSnapshotConflict (uniqueField : String)
  | unbalancedTransaction (assetId : Option Nat) (sum : Option ℚ)
  | ledgerBalanceTrigger
  | insufficientBalance (accountId : Nat) (currentBalance requestedAmount : ℚ)
  | invalidReservationAmount (amount : ℚ)
  | insufficientPosition (positionId : Nat) (available requested : ℚ)
  | invalidPositionReservationAmount (amount : ℚ)
  | reservationNotActive (reservationId : Nat) (status : ReservationStatus)
  | reservationExceeded (reservationId : Nat) (amount unconsumed : ℚ)
  | noActiveFundReservation (orderId : Nat) (cannot : String)
  | noActivePositionReservation (orderId : Nat)
  | orderChangedMidExecution (orderId : Nat)
  | positionStillReserved (positionId : Nat) (reservedQuantity : ℚ)
  | positionChangedMidSettlement (positionId : Nat)
  | negativeFeeLeg (buyerFee sellerFee : ℚ)
  | forbidden (message : String)
  | badRequest (message : String)
  | limitExceeded (message : String) (limit : ℚ)
  | dailyLimitExceeded (limit : ℚ) (symbol : String) (alreadyRequested : ℚ)
  | notFound (message : String)
  | conflict (message : String)
  deriving DecidableEq

instance : Tx.DbFault Fault where
  ofDb := .db
  toDb?
    | .db e => some e
    | _ => none
  toDb_ofDb _ := rfl

structure Asset where
  symbol : String
  decimals : Nat
  isSettlementCurrency : Bool
  deriving DecidableEq, Repr

instance : RowSpec Asset where
  check _ := true
  clash a b := uniqueOn ["symbol"] (a.symbol = b.symbol)
  clash_symm a b := by simp only [uniqueOn, eq_comm]

/-- `owner` is `ownerType` with the one reference column that `ledger_accounts_owner_ref_check`
allows it. -/
structure LedgerAccount where
  owner : AccountRef
  assetId : Nat
  cachedBalance : ℚ
  reservedBalance : ℚ
  deriving DecidableEq

/-- `ledger_accounts_reserved_non_negative_check` and `ledger_accounts_user_balance_check`. -/
def LedgerAccount.check (account : LedgerAccount) : Bool :=
  decide (0 ≤ account.reservedBalance) &&
    (account.owner.isHouse ||
      (decide (0 ≤ account.cachedBalance) && decide (account.reservedBalance ≤ account.cachedBalance)))

instance : RowSpec LedgerAccount where
  check := LedgerAccount.check
  clash a b := uniqueOn ["owner", "assetId"] (a.owner = b.owner ∧ a.assetId = b.assetId)
  clash_symm a b := by simp only [uniqueOn, eq_comm]

structure LedgerTransaction where
  assetId : Nat
  type : LedgerTransactionType
  referenceType : ReferenceType
  referenceId : Nat
  idempotencyKey : IdempotencyKey
  deriving DecidableEq

instance : RowSpec LedgerTransaction where
  check _ := true
  clash a b := uniqueOn ["idempotencyKey"] (a.idempotencyKey = b.idempotencyKey)
  clash_symm a b := by simp only [uniqueOn, eq_comm]

structure LedgerEntry where
  transactionId : Nat
  accountId : Nat
  amount : ℚ
  balanceAfter : ℚ
  deriving DecidableEq

instance : RowSpec LedgerEntry where
  check _ := true
  clash _ _ := none
  clash_symm _ _ := rfl

/-- A `FundReservation` (held on a ledger account) or a `PositionReservation` (held on a
position): the two tables have the same columns but for the name of the holder's. -/
structure Reservation where
  holderId : Nat
  amount : ℚ
  consumedAmount : ℚ
  status : ReservationStatus
  referenceType : ReferenceType
  referenceId : Nat
  idempotencyKey : IdempotencyKey
  deriving DecidableEq

def Reservation.unconsumed (r : Reservation) : ℚ := r.amount - r.consumedAmount

def Reservation.isActive (r : Reservation) : Bool := decide (r.status = .active)

/-- `amount_positive_check` and `consumed_bounds_check` of either table. -/
def Reservation.check (r : Reservation) : Bool :=
  decide (0 < r.amount) && decide (0 ≤ r.consumedAmount) && decide (r.consumedAmount ≤ r.amount)

instance : RowSpec Reservation where
  check := Reservation.check
  clash a b := uniqueOn ["idempotencyKey"] (a.idempotencyKey = b.idempotencyKey)
  clash_symm a b := by simp only [uniqueOn, eq_comm]

structure Reserved (H : Type) [RowSpec H] where
  -- the rows that can be earmarked, with the reservations against them
  holders : Table H
  reservations : Table Reservation

structure Ledger where
  assets : Table Asset
  funds : Reserved LedgerAccount
  transactions : Table LedgerTransaction
  entries : Table LedgerEntry

abbrev Ledger.accounts (l : Ledger) : Table LedgerAccount := l.funds.holders

@[simp] theorem Ledger.accounts_mk (assets : Table Asset) (funds : Reserved LedgerAccount)
    (transactions : Table LedgerTransaction) (entries : Table LedgerEntry) :
    (Ledger.mk assets funds transactions entries).accounts = funds.holders := rfl

theorem LedgerAccount.reserved_nonneg {t : Table LedgerAccount} {account : LedgerAccount}
    (member : account ∈ t.rows) : 0 ≤ account.reservedBalance := by
  have valid := t.checked account member
  simp only [RowSpec.check, LedgerAccount.check, Bool.and_eq_true, decide_eq_true_eq] at valid
  exact valid.1

theorem LedgerAccount.bounds {t : Table LedgerAccount} {account : LedgerAccount}
    (member : account ∈ t.rows) (owned : account.owner.isHouse = false) :
    0 ≤ account.cachedBalance ∧ account.reservedBalance ≤ account.cachedBalance := by
  have valid := t.checked account member
  simp only [RowSpec.check, LedgerAccount.check, Bool.and_eq_true, owned, Bool.false_or,
    decide_eq_true_eq] at valid
  exact valid.2

theorem Reservation.bounds {t : Table Reservation} {r : Reservation} (member : r ∈ t.rows) :
    0 < r.amount ∧ 0 ≤ r.consumedAmount ∧ r.consumedAmount ≤ r.amount := by
  have valid := t.checked r member
  simpa [RowSpec.check, Reservation.check, and_assoc] using valid

theorem Reservation.unconsumed_nonneg {t : Table Reservation} {r : Reservation}
    (member : r ∈ t.rows) : 0 ≤ r.unconsumed := by
  obtain ⟨-, -, bounded⟩ := Reservation.bounds member
  unfold Reservation.unconsumed
  linarith

end VerdictVaut
