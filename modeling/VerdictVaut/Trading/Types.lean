import VerdictVaut.Ledger.Moves

set_option autoImplicit false

namespace VerdictVaut

open Relational

/-- Milliseconds, as `Date.getTime()` returns them. -/
abbrev Time := Int

inductive UserRole
  | user | riskOps | admin | superAdmin
  deriving DecidableEq, Repr

inductive UserStatus
  | pendingVerification | active | suspended
  deriving DecidableEq, Repr

inductive MarketStatus
  | draft | opened | paused | closed | resolving | resolved | cancelled
  deriving DecidableEq, Repr

inductive OrderSide
  | buy | sell
  deriving DecidableEq, Repr

def OrderSide.opposite : OrderSide → OrderSide
  | .buy => .sell
  | .sell => .buy

inductive OrderType
  | limit | market
  deriving DecidableEq, Repr

inductive OrderStatus
  | opened | partiallyFilled | filled | cancelled | expired | rejected
  deriving DecidableEq, Repr

structure User where
  email : String
  role : UserRole
  status : UserStatus
  deriving DecidableEq

instance : RowSpec User where
  check _ := true
  clash a b := uniqueOn ["email"] (a.email = b.email)
  clash_symm a b := by simp only [uniqueOn, eq_comm]

structure RiskLimit where
  userId : Nat
  maxPositionSize : Option ℚ
  maxDailyWithdrawal : Option ℚ
  maxOrderQuantity : Option ℚ
  maxOrderNotional : Option ℚ
  deriving DecidableEq

instance : RowSpec RiskLimit where
  check limit := [limit.maxPositionSize, limit.maxDailyWithdrawal, limit.maxOrderQuantity,
    limit.maxOrderNotional].all fun cap => cap.all fun value => decide (0 ≤ value)
  clash a b := uniqueOn ["userId"] (a.userId = b.userId)
  clash_symm a b := by simp only [uniqueOn, eq_comm]

structure MarketCategory where
  slug : String
  deriving DecidableEq

instance : RowSpec MarketCategory where
  check _ := true
  clash a b := uniqueOn ["slug"] (a.slug = b.slug)
  clash_symm a b := by simp only [uniqueOn, eq_comm]

structure Market where
  slug : String
  categoryId : Nat
  status : MarketStatus
  closeTime : Option Time
  maxExposure : Option ℚ
  deriving DecidableEq

instance : RowSpec Market where
  check market := market.maxExposure.all fun cap => decide (0 ≤ cap)
  clash a b := uniqueOn ["slug"] (a.slug = b.slug)
  clash_symm a b := by simp only [uniqueOn, eq_comm]

structure MarketOutcome where
  marketId : Nat
  key : String
  deriving DecidableEq

instance : RowSpec MarketOutcome where
  check _ := true
  clash a b := uniqueOn ["marketId", "key"] (a.marketId = b.marketId ∧ a.key = b.key)
  clash_symm a b := by simp only [uniqueOn, eq_comm]

structure Order where
  userId : Nat
  marketId : Nat
  outcomeId : Nat
  side : OrderSide
  type : OrderType
  price : Option ℚ
  quantity : ℚ
  filledQuantity : ℚ
  remainingQuantity : ℚ
  status : OrderStatus
  clientOrderId : String
  sequence : Nat
  deriving DecidableEq

instance : RowSpec Order where
  check order :=
    decide (0 < order.quantity) &&
    decide (0 ≤ order.filledQuantity ∧ order.filledQuantity ≤ order.quantity) &&
    (order.price.all fun price => decide (0 < price ∧ price < 1)) &&
    decide (0 ≤ order.remainingQuantity ∧ order.remainingQuantity ≤ order.quantity) &&
    decide (order.filledQuantity + order.remainingQuantity = order.quantity)
  clash a b := (uniqueOn ["userId", "clientOrderId"] (a.userId = b.userId ∧ a.clientOrderId = b.clientOrderId)).or
    (uniqueOn ["sequence"] (a.sequence = b.sequence))
  clash_symm a b := by simp only [uniqueOn, eq_comm]

structure Fill where
  marketId : Nat
  outcomeId : Nat
  buyOrderId : Nat
  sellOrderId : Nat
  makerOrderId : Nat
  takerOrderId : Nat
  buyerUserId : Nat
  sellerUserId : Nat
  price : ℚ
  quantity : ℚ
  fee : ℚ
  idempotencyKey : IdempotencyKey
  deriving DecidableEq

instance : RowSpec Fill where
  check fill :=
    decide (0 < fill.quantity) && decide (0 < fill.price ∧ fill.price < 1) && decide (0 ≤ fill.fee) &&
    decide (fill.buyOrderId ≠ fill.sellOrderId) &&
    decide ((fill.makerOrderId = fill.buyOrderId ∧ fill.takerOrderId = fill.sellOrderId) ∨
      (fill.makerOrderId = fill.sellOrderId ∧ fill.takerOrderId = fill.buyOrderId))
  clash a b := uniqueOn ["idempotencyKey"] (a.idempotencyKey = b.idempotencyKey)
  clash_symm a b := by simp only [uniqueOn, eq_comm]

structure CompleteSetMint where
  marketId : Nat
  outcomeAId : Nat
  outcomeBId : Nat
  buyOrderAId : Nat
  buyOrderBId : Nat
  buyerAUserId : Nat
  buyerBUserId : Nat
  priceA : ℚ
  priceB : ℚ
  quantity : ℚ
  idempotencyKey : IdempotencyKey
  deriving DecidableEq

instance : RowSpec CompleteSetMint where
  check mint :=
    decide (mint.priceA + mint.priceB = 1) && decide (0 < mint.priceA ∧ 0 < mint.priceB) &&
    decide (0 < mint.quantity) && decide (mint.outcomeAId ≠ mint.outcomeBId) &&
    decide (mint.buyOrderAId ≠ mint.buyOrderBId)
  clash a b := uniqueOn ["idempotencyKey"] (a.idempotencyKey = b.idempotencyKey)
  clash_symm a b := by simp only [uniqueOn, eq_comm]

structure Position where
  userId : Nat
  marketId : Nat
  outcomeId : Nat
  quantity : ℚ
  reservedQuantity : ℚ
  avgPrice : ℚ
  realizedPnl : ℚ
  settledAt : Option Time
  deriving DecidableEq

def Position.check (position : Position) : Bool :=
  decide (0 ≤ position.quantity) &&
  decide (0 ≤ position.reservedQuantity ∧ position.reservedQuantity ≤ position.quantity)

instance : RowSpec Position where
  check := Position.check
  clash a b := uniqueOn ["userId", "marketId", "outcomeId"]
    (a.userId = b.userId ∧ a.marketId = b.marketId ∧ a.outcomeId = b.outcomeId)
  clash_symm a b := by simp only [uniqueOn, eq_comm]

instance : Holder Position where
  total := Position.quantity
  reserved := Position.reservedQuantity
  setReserved r position := { position with reservedQuantity := r }
  invalidAmount := .invalidPositionReservationAmount
  insufficient := .insufficientPosition
  reserved_setReserved _ _ := rfl
  setReserved_setReserved _ _ _ := rfl
  check_setReserved r position valid nonneg below := by
    simp only [RowSpec.check, Position.check, Bool.and_eq_true, decide_eq_true_eq] at valid ⊢
    exact ⟨valid.1, nonneg, below.trans valid.2.2⟩
  clash_setReserved _ _ _ := rfl

structure MarketResolution where
  marketId : Nat
  winningOutcomeId : Nat
  resolverId : Nat
  resolvedAt : Time
  settledAt : Option Time
  deriving DecidableEq

instance : RowSpec MarketResolution where
  check resolution := resolution.settledAt.all fun settledAt => decide (resolution.resolvedAt ≤ settledAt)
  clash a b := uniqueOn ["marketId"] (a.marketId = b.marketId)
  clash_symm a b := by simp only [uniqueOn, eq_comm]

structure Settlement where
  -- the payout rate of one outcome of a resolved market
  marketId : Nat
  outcomeId : Nat
  payoutPerShare : ℚ
  deriving DecidableEq

instance : RowSpec Settlement where
  check settlement := decide (0 ≤ settlement.payoutPerShare)
  clash a b := uniqueOn ["marketId", "outcomeId"] (a.marketId = b.marketId ∧ a.outcomeId = b.outcomeId)
  clash_symm a b := by simp only [uniqueOn, eq_comm]

structure PositionSettlement where
  positionId : Nat
  marketId : Nat
  outcomeId : Nat
  userId : Nat
  quantity : ℚ
  payoutPerShare : ℚ
  payoutAmount : ℚ
  ledgerTransactionId : Option Nat
  idempotencyKey : IdempotencyKey
  deriving DecidableEq

instance : RowSpec PositionSettlement where
  check settlement :=
    decide (0 ≤ settlement.quantity) && decide (0 ≤ settlement.payoutPerShare) &&
    decide (0 ≤ settlement.payoutAmount) &&
    decide (settlement.payoutAmount = settlement.quantity * settlement.payoutPerShare) &&
    decide ((settlement.payoutAmount = 0 ∧ settlement.ledgerTransactionId = none) ∨
      (0 < settlement.payoutAmount ∧ settlement.ledgerTransactionId ≠ none))
  clash a b := (uniqueOn ["positionId"] (a.positionId = b.positionId)).or
    (uniqueOn ["idempotencyKey"] (a.idempotencyKey = b.idempotencyKey))
  clash_symm a b := by simp only [uniqueOn, eq_comm]

/-- The tables of the trading side; `shares` are the positions and the reservations against them. -/
structure Exchange where
  categories : Table MarketCategory
  markets : Table Market
  outcomes : Table MarketOutcome
  orders : Table Order
  fills : Table Fill
  mints : Table CompleteSetMint
  shares : Reserved Position
  resolutions : Table MarketResolution
  settlements : Table Settlement
  positionSettlements : Table PositionSettlement

abbrev Exchange.positions (x : Exchange) : Table Position := x.shares.holders

@[simp] theorem Exchange.positions_shares (x : Exchange) (shares : Reserved Position) :
    ({ x with shares := shares } : Exchange).positions = shares.holders := rfl

end VerdictVaut
