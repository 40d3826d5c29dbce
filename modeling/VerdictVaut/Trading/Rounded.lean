import VerdictVaut.Ledger.Rounded
import VerdictVaut.Shared.TwiceRounded
import VerdictVaut.Trading.Orders

set_option autoImplicit false

namespace VerdictVaut

open Relational Decimals

namespace ExecutionCoordinator

section Orders

/-- The row that `updateOrders` writes for one of the two orders. -/
def filledOrder (order : Order) (executedQuantity : ℚ) : Order :=
  let newFilled := Decimal.plus order.filledQuantity executedQuantity
  let newRemaining := Decimal.minus order.remainingQuantity executedQuantity
  { order with
    filledQuantity := Decimal.column newFilled
    remainingQuantity := Decimal.column newRemaining
    status := if newRemaining = 0 then .filled else .partiallyFilled }

inductive Filled (order : Order) : Order → Prop
  -- what fills and mints make of an order, each of a stored quantity that it still has
  | placed : Filled order order
  | executed {later : Order} {executedQuantity : ℚ} (earlier : Filled order later)
      (stored : Places Decimal.SCALE executedQuantity) (positive : 0 < executedQuantity)
      (remaining : executedQuantity ≤ later.remainingQuantity) : Filled order (filledOrder later executedQuantity)

variable {order later : Order}

theorem Filled.quantity (filled : Filled order later) : later.quantity = order.quantity := by
  induction filled with
  | placed => rfl
  | executed _ _ _ _ ih => exact ih

structure Balanced (later : Order) : Prop where
  -- an order's amounts, as long as no step has rounded any of them
  filled : Places Decimal.SCALE later.filledQuantity
  remaining : Places Decimal.SCALE later.remainingQuantity
  sum : later.filledQuantity + later.remainingQuantity = later.quantity
  checked : RowSpec.check later = true

theorem Balanced.fill {executedQuantity : ℚ} (balanced : Balanced later) (small : later.quantity ≤ 100)
    (stored : Places Decimal.SCALE executedQuantity) (positive : 0 < executedQuantity)
    (within : executedQuantity ≤ later.remainingQuantity) : Balanced (filledOrder later executedQuantity) := by
  have valid := balanced.checked
  simp only [RowSpec.check, Bool.and_eq_true, decide_eq_true_eq] at valid
  obtain ⟨⟨⟨⟨size, ⟨nonneg, -⟩⟩, price⟩, ⟨-, -⟩⟩, -⟩ := valid
  have sum := balanced.sum
  have moreFilled := balanced.filled.add stored
  have lessRemaining := balanced.remaining.sub stored
  have plus : Decimal.plus later.filledQuantity executedQuantity = later.filledQuantity + executedQuantity := by
    refine Decimal.plus_eq_iff.mpr (moreFilled.significant (by decide) ?_)
    rw [abs_of_nonneg (by linarith), Decimal.SCALE, Decimal.PRECISION]
    linarith
  have minus : Decimal.minus later.remainingQuantity executedQuantity = later.remainingQuantity - executedQuantity := by
    refine Decimal.minus_eq_iff.mpr (lessRemaining.significant (by decide) ?_)
    rw [abs_of_nonneg (by linarith), Decimal.SCALE, Decimal.PRECISION]
    linarith
  have filled : (filledOrder later executedQuantity).filledQuantity = later.filledQuantity + executedQuantity := by
    rw [filledOrder, plus, Decimal.column_eq_iff.mpr moreFilled]
  have remaining : (filledOrder later executedQuantity).remainingQuantity = later.remainingQuantity - executedQuantity := by
    rw [filledOrder, minus, Decimal.column_eq_iff.mpr lessRemaining]
  have quantity : (filledOrder later executedQuantity).quantity = later.quantity := rfl
  refine ⟨filled ▸ moreFilled, remaining ▸ lessRemaining, by rw [filled, remaining, quantity]; linarith, ?_⟩
  simp only [RowSpec.check, Bool.and_eq_true, decide_eq_true_eq, filled, remaining, quantity]
  exact ⟨⟨⟨⟨size, by linarith, by linarith⟩, price⟩, by linarith, by linarith⟩, by linarith⟩

theorem Filled.balanced (filled : Filled order later) (placed : Balanced order) (small : order.quantity ≤ 100) :
    Balanced later := by
  induction filled with
  | placed => exact placed
  | executed earlier stored positive within ih => exact ih.fill (by rwa [earlier.quantity]) stored positive within

end Orders

end ExecutionCoordinator

namespace OrdersService

/-- What `checkAmounts` lets through. -/
structure Placement.Accepted (placement : Placement) : Prop where
  positive : 0 < placement.quantity
  quantity : Places orderQuantityMaxDecimals placement.quantity
  probability : 0 < placement.price ∧ placement.price < 1
  price : Places orderPriceMaxDecimals placement.price

theorem places_of_scale {value : ℚ} {scale : Nat} (fits : exceedsScale value scale = false) : Places scale value := by
  have whole : (value * 10 ^ scale).den = 1 := by simpa [exceedsScale] using fits
  refine ⟨(value * 10 ^ scale).num, ?_⟩
  rw [eq_div_iff (by positivity), Rat.den_eq_one_iff _ |>.mp whole]

theorem Placement.accepted_of_checkAmounts {placement : Placement} {dto : CreateOrderDto} {c c' : Core}
    (checked : (checkAmounts dto).run c = .ok (placement.price, c')) (same : placement.quantity = dto.quantity) :
    placement.Accepted := by
  simp only [checkAmounts, Tx.run_bind_ok, Tx.run_throwIf_ok, Tx.run_orThrow_ok, Tx.run_pure, Except.ok.injEq,
    Prod.mk.injEq] at checked
  obtain ⟨_, _, ⟨positive, rfl⟩, _, _, ⟨quantity, rfl⟩, _, _, ⟨-, rfl⟩, _, _, ⟨probability, rfl⟩, _, _, ⟨price, rfl⟩, rfl,
    -⟩ := checked
  simp only [not_or, not_le] at probability
  exact ⟨by rw [same]; exact not_le.mp positive, by rw [same]; exact places_of_scale (by simpa using quantity), probability,
    places_of_scale (by simpa using price)⟩

variable {placement : Placement}

theorem Placement.Accepted.balanced (accepted : placement.Accepted) (sequence : Nat) :
    ExecutionCoordinator.Balanced (orderRow placement sequence) where
  filled := ⟨0, by simp [orderRow]⟩
  remaining := accepted.quantity
  sum := zero_add _
  checked := by
    simp [RowSpec.check, orderRow, accepted.positive, accepted.positive.le, accepted.probability]

theorem Placement.Accepted.unbalanced (accepted : placement.Accepted) (sequence : Nat) (large : 100 < placement.quantity) :
    ∃ later, ExecutionCoordinator.Filled (orderRow placement sequence) later ∧
      later.filledQuantity + later.remainingQuantity ≠ later.quantity := by
  -- an order beyond 100 has a fill that the 20 digits cannot follow: the last one, or one of the smallest unit
  have zero : Places Decimal.SCALE 0 := ⟨0, by simp⟩
  have filled (e : ℚ) (stored : Places Decimal.SCALE e) :
      (ExecutionCoordinator.filledOrder (orderRow placement sequence) e).filledQuantity =
        toSignificant Decimal.PRECISION e := by
    rw [ExecutionCoordinator.filledOrder, orderRow, Decimal.column_plus zero stored, Decimal.plus, zero_add]
  have remaining (e : ℚ) (stored : Places Decimal.SCALE e) :
      (ExecutionCoordinator.filledOrder (orderRow placement sequence) e).remainingQuantity =
        toSignificant Decimal.PRECISION (placement.quantity - e) := by
    rw [ExecutionCoordinator.filledOrder, orderRow, Decimal.column_minus accepted.quantity stored, Decimal.minus]
  have row (e : ℚ) : (ExecutionCoordinator.filledOrder (orderRow placement sequence) e).quantity = placement.quantity := rfl
  by_cases few : Significant Decimal.PRECISION placement.quantity
  · -- the remainder after one unit ends in a nine that is dropped
    obtain ⟨units, same⟩ := accepted.quantity
    have unit : Places Decimal.SCALE (1 / 10 ^ 18) := ⟨1, by simp [Decimal.SCALE]⟩
    have tiny : (1 : ℚ) / 10 ^ 18 ≤ placement.quantity := by linarith
    refine ⟨_, .executed .placed unit (by positivity) tiny, ?_⟩
    rw [filled _ unit, remaining _ unit, row]
    have kept : toSignificant Decimal.PRECISION ((1 : ℚ) / 10 ^ 18) = 1 / 10 ^ 18 :=
      toSignificant_eq_self_iff.mpr (unit.significant (by decide) (by rw [Decimal.SCALE, Decimal.PRECISION]; norm_num))
    rw [kept]
    intro sum
    have long : 10 ^ 20 < units := by
      rw [same, orderQuantityMaxDecimals, lt_div_iff₀ (by positivity)] at large
      have long : ((10 ^ 20 : ℤ) : ℚ) < units := by
        push_cast
        linarith
      exact_mod_cast long
    have less : placement.quantity - 1 / 10 ^ 18 = ((units - 1 : ℤ) : ℚ) / 10 ^ 18 := by
      rw [same, orderQuantityMaxDecimals]
      push_cast
      ring
    have few' : Significant Decimal.PRECISION (((units - 1 : ℤ) : ℚ) / 10 ^ 18) := by
      rw [← less]
      exact toSignificant_eq_self_iff.mp (by linarith)
    have tens : (10 : ℤ) ∣ units := Significant.dvd_ten (same ▸ few) (by rw [abs_of_pos (by omega)]; exact long.le)
    have tens' : (10 : ℤ) ∣ units - 1 := few'.dvd_ten (by rw [abs_of_nonneg (by omega)]; exact Int.le_sub_one_of_lt long)
    omega
  · -- the last fill is rounded as a whole
    refine ⟨_, .executed .placed accepted.quantity accepted.positive le_rfl, ?_⟩
    rw [filled _ accepted.quantity, remaining _ accepted.quantity, row, sub_self, toSignificant_zero, add_zero]
    exact fun same => few (toSignificant_eq_self_iff.mp same)

/-- Whatever fills and mints an order goes through, the database takes the rows that `updateOrders` writes for it:
this is so for the orders of at most 100, and for no others. -/
theorem fills_balanced_iff (accepted : placement.Accepted) (sequence : Nat) :
    (∀ later, ExecutionCoordinator.Filled (orderRow placement sequence) later →
      later.filledQuantity + later.remainingQuantity = later.quantity ∧ RowSpec.check later = true) ↔
      placement.quantity ≤ 100 := by
  constructor
  · intro holds
    by_contra large
    obtain ⟨later, filled, broken⟩ := accepted.unbalanced sequence (not_le.mp large)
    exact broken (holds later filled).1
  · intro small later filled
    have balanced := filled.balanced (accepted.balanced sequence) small
    exact ⟨balanced.sum, balanced.checked⟩

section Samples

def largeBid : Placement where
  userId := 1
  marketId := 0
  outcomeId := 0
  side := .buy
  price := 1 / 2
  quantity := 250
  clientOrderId := "bid"
  settlementAssetSymbol := some "USDC"

theorem largeBid_accepted : largeBid.Accepted :=
  ⟨by norm_num [largeBid], ⟨250 * 10 ^ 18, by norm_num [largeBid, orderQuantityMaxDecimals]⟩, by norm_num [largeBid],
    ⟨500000, by norm_num [largeBid, orderPriceMaxDecimals]⟩⟩

theorem largeBid_balanced :
    (∀ later, ExecutionCoordinator.Filled (orderRow largeBid 0) later →
      later.filledQuantity + later.remainingQuantity = later.quantity ∧ RowSpec.check later = true) ↔ (250 : ℚ) ≤ 100 :=
  fills_balanced_iff largeBid_accepted 0

/-- After a fill with a third of a 100, what remains of the order has 21 digits. -/
theorem thirdFilled_rejected :
    largeBid.Accepted ∧ ∃ e : ℚ, e = 33333333333333333333 / 10 ^ 18 ∧
      ExecutionCoordinator.Filled (orderRow largeBid 0) (ExecutionCoordinator.filledOrder (orderRow largeBid 0) e) ∧
      (ExecutionCoordinator.filledOrder (orderRow largeBid 0) e).filledQuantity +
        (ExecutionCoordinator.filledOrder (orderRow largeBid 0) e).remainingQuantity = 250 + 3 / 10 ^ 18 ∧
      RowSpec.check (ExecutionCoordinator.filledOrder (orderRow largeBid 0) e) = false :=
  ⟨largeBid_accepted, _, rfl,
    .executed .placed ⟨33333333333333333333, rfl⟩ (by norm_num) (by norm_num [orderRow, largeBid]), by decide +kernel,
    by decide +kernel⟩

end Samples

end OrdersService

namespace ExecutionCoordinator

section Mints

/-- `postMintLedger`'s postings, in `Decimal`s. -/
def decimalMintPostings (instruction : MintInstruction) (executedQuantity : ℚ) : List Ledger.Posting :=
  let costA := Decimal.times executedQuantity instruction.priceA
  let costB := Decimal.times executedQuantity instruction.priceB
  [{ account := .user instruction.buyerAUserId, amount := -costA },
    { account := .user instruction.buyerBUserId, amount := -costB },
    { account := .market instruction.marketId, amount := Decimal.plus costA costB }]

/-- The postings of a mint as the `LedgerEntry` rows keep them. -/
def storedPostings (instruction : MintInstruction) (executedQuantity : ℚ) : List Ledger.Posting :=
  (decimalMintPostings instruction executedQuantity).map fun posting =>
    { posting with amount := Decimal.column posting.amount }

/-- The quantity has few enough digits; the finer one of its two costs is near a multiple of the unit of the other, and
not both costs are rounded up. -/
structure CostsAddUp (quantity priceA priceB : ℚ) : Prop where
  digits : Significant Decimal.PRECISION quantity
  nearA : Near Decimal.PRECISION Decimal.SCALE (unit Decimal.PRECISION Decimal.SCALE (quantity * priceA)) (quantity * priceB)
  nearB : Near Decimal.PRECISION Decimal.SCALE (unit Decimal.PRECISION Decimal.SCALE (quantity * priceB)) (quantity * priceA)
  notBothUp : ¬ (RoundsUp Decimal.PRECISION Decimal.SCALE (quantity * priceA) ∧
    RoundsUp Decimal.PRECISION Decimal.SCALE (quantity * priceB))

section Costs

variable {quantity priceA priceB : ℚ}

theorem stored_costs_iff (complement : priceA + priceB = 1) (priced : 0 < priceA ∧ 0 < priceB) (positive : 0 < quantity)
    (places : Places Decimal.SCALE quantity) (digits : Significant Decimal.PRECISION quantity) :
    stored Decimal.PRECISION Decimal.SCALE (quantity * priceA) + stored Decimal.PRECISION Decimal.SCALE (quantity * priceB) =
      quantity ↔ CostsAddUp quantity priceA priceB := by
  have whole : quantity * priceA + quantity * priceB = quantity := by rw [← mul_add, complement, mul_one]
  have costA : 0 < quantity * priceA := mul_pos positive priced.1
  have costB : 0 < quantity * priceB := mul_pos positive priced.2
  have part {cost : ℚ} (some : 0 < cost) (most : cost ≤ quantity) :
      ∃ n : ℤ, quantity * priceA + quantity * priceB = n * unit Decimal.PRECISION Decimal.SCALE cost := by
    rw [whole]
    exact whole_of_unit_le digits places (unit_mono some.ne' (by rwa [abs_of_pos some, abs_of_pos positive]))
  have split := @stored_add_eq_iff Decimal.PRECISION Decimal.SCALE _ _ costA.le costB.le
    (part costA (by linarith)) (part costB (by linarith))
  rw [whole] at split
  rw [split]
  exact ⟨fun fits => ⟨digits, fits.1, fits.2.1, fits.2.2⟩, fun fits => ⟨fits.nearA, fits.nearB, fits.notBothUp⟩⟩

end Costs

/-- The total that `postTransaction` checks is zero at any rate: only the columns can tell the three postings apart. -/
theorem decimalMintPostings_total (instruction : MintInstruction) (executedQuantity : ℚ) :
    ((decimalMintPostings instruction executedQuantity).map Ledger.Posting.amount).foldl Decimal.plus 0 = 0 := by
  have kept (a b : ℚ) : toSignificant Decimal.PRECISION (-toSignificant Decimal.PRECISION a + -toSignificant Decimal.PRECISION b) +
      toSignificant Decimal.PRECISION (toSignificant Decimal.PRECISION a + toSignificant Decimal.PRECISION b) = 0 := by
    rw [← neg_add, toSignificant_neg, neg_add_cancel]
  simp only [decimalMintPostings, List.map_cons, List.map_nil, List.foldl_cons, List.foldl_nil, Decimal.plus, Decimal.times,
    zero_add, toSignificant_neg, toSignificant_toSignificant (by decide : 0 < Decimal.PRECISION)]
  rw [kept, toSignificant_zero]

/-- The three entries of a mint balance and lock exactly what was minted, exactly when its two costs add up. -/
theorem storedPostings_exact_iff (instruction : MintInstruction) (complement : instruction.priceA + instruction.priceB = 1)
    (priced : 0 < instruction.priceA ∧ 0 < instruction.priceB) (executedQuantity : ℚ) (positive : 0 < executedQuantity)
    (places : Places Decimal.SCALE executedQuantity) :
    (((storedPostings instruction executedQuantity).map Ledger.Posting.amount).sum = 0 ∧
      ∀ posting ∈ storedPostings instruction executedQuantity, posting.account = .market instruction.marketId →
        posting.amount = executedQuantity) ↔
      CostsAddUp executedQuantity instruction.priceA instruction.priceB := by
  have whole : executedQuantity * instruction.priceA + executedQuantity * instruction.priceB = executedQuantity := by
    rw [← mul_add, complement, mul_one]
  have costA : 0 < executedQuantity * instruction.priceA := mul_pos positive priced.1
  have costB : 0 < executedQuantity * instruction.priceB := mul_pos positive priced.2
  have keeps : 0 < Decimal.PRECISION := by decide
  have column (x : ℚ) : Decimal.column (-Decimal.times executedQuantity x) =
      -stored Decimal.PRECISION Decimal.SCALE (executedQuantity * x) := by
    rw [Decimal.column, toPlaces_neg, stored, Decimal.times]
  generalize market : Decimal.column (Decimal.plus (Decimal.times executedQuantity instruction.priceA)
    (Decimal.times executedQuantity instruction.priceB)) = locked
  have locks : locked = stored Decimal.PRECISION Decimal.SCALE
      (toSignificant Decimal.PRECISION (executedQuantity * instruction.priceA) +
        toSignificant Decimal.PRECISION (executedQuantity * instruction.priceB)) := market.symm
  simp only [storedPostings, decimalMintPostings, List.map_cons, List.map_nil, List.sum_cons, List.sum_nil, column, market,
    List.forall_mem_cons, reduceCtorEq, false_implies, true_implies, List.not_mem_nil, implies_true, and_true, true_and]
  constructor
  · rintro ⟨zero, rfl⟩
    have digits : Significant Decimal.PRECISION locked := by
      rw [locks]
      exact significant_stored keeps (add_pos (toSignificant_pos keeps costA) (toSignificant_pos keeps costB))
    exact (stored_costs_iff complement priced positive places digits).mp (by linarith)
  · intro fits
    have parts := (stored_costs_iff complement priced positive places fits.digits).mpr fits
    have same : locked = executedQuantity := by
      have sum := @stored_sum _ Decimal.SCALE _ _ keeps costA costB (by rw [whole]; exact fits.digits)
        (by rw [whole]; exact places) (by rw [whole]; exact parts)
      rw [locks, sum, whole]
    exact ⟨by rw [same]; linarith, same⟩

def evenMint : MintInstruction where
  marketId := 0
  outcomeAId := 0
  outcomeBId := 1
  buyOrderAId := 0
  buyOrderBId := 1
  buyerAUserId := 1
  buyerBUserId := 2
  priceA := 1 / 2
  priceB := 1 / 2
  quantity := 1
  idempotencyKey := ⟨"mint", [0, 1]⟩

theorem evenMint_exact :
    (((storedPostings evenMint 1).map Ledger.Posting.amount).sum = 0 ∧
      ∀ posting ∈ storedPostings evenMint 1, posting.account = .market evenMint.marketId → posting.amount = 1) ↔
      CostsAddUp 1 evenMint.priceA evenMint.priceB :=
  storedPostings_exact_iff evenMint (by norm_num [evenMint]) (by norm_num [evenMint]) 1 one_pos
    ⟨10 ^ 18, by norm_num [Decimal.SCALE]⟩

/-- At even prices each buyer of an odd number of units pays half a unit, and both halves are rounded up. -/
theorem oddMint_unbalanced :
    ((storedPostings evenMint (1 + 1 / 10 ^ 18)).map Ledger.Posting.amount).sum = -1 / 10 ^ 18 := by
  decide +kernel

end Mints

section Slices

structure Slice where
  -- a fill or a mint of part of a BUY
  quantity : ℚ
  price : ℚ

structure Splits (price quantity : ℚ) (slices : List Slice) : Prop where
  -- the order in parts, each at its limit price or a better one
  quantities : ∀ slice ∈ slices, 0 < slice.quantity ∧ Places Decimal.SCALE slice.quantity
  prices : ∀ slice ∈ slices, 0 < slice.price ∧ slice.price ≤ price ∧ Places orderPriceMaxDecimals slice.price
  whole : (slices.map Slice.quantity).sum = quantity

/-- The row that `reserve` writes for a BUY without a fee buffer. -/
def reservedFor (accountId orderId : Nat) (price quantity : ℚ) : Reservation :=
  let feeBuffer := 0
  let requiredFunds := Decimal.plus (Decimal.times quantity price) feeBuffer
  Reserved.ReserveInput.row
    { amount := Decimal.column requiredFunds
      referenceType := .order
      referenceId := orderId
      idempotencyKey := ⟨"order-reserve", [orderId]⟩ } accountId

/-- The part of `consume` on the reservation's own row. -/
def consumeRow (reservationId : Nat) (r : Reservation) (amount : ℚ) : Except Fault Reservation :=
  let unconsumed := Decimal.minus r.amount r.consumedAmount
  let later := { r with consumedAmount := Decimal.column (Decimal.plus r.consumedAmount amount) }
  if amount ≤ 0 then .error (.invalidReservationAmount amount)
  else if r.status ≠ .active then .error (.reservationNotActive reservationId r.status)
  else if unconsumed < amount then .error (.reservationExceeded reservationId amount unconsumed)
  else if RowSpec.check later = true then .ok later
  else .error (.db .checkViolation)

def consumeSlices (reservationId : Nat) (r : Reservation) (slices : List Slice) : Except Fault Reservation :=
  slices.foldlM (fun row slice => consumeRow reservationId row (Decimal.times slice.quantity slice.price)) r

/-- The least number of units of quantity whose cost is rounded up to a unit of currency. -/
def roundedUp (price : ℚ) : ℕ := ⌈1 / (2 * price)⌉₊

variable {price : ℚ} {reservationId : Nat} {r : Reservation}

theorem roundedUp_le_one (priced : 0 < price) (below : price < 1) : roundedUp price * price ≤ 1 := by
  rcases le_or_gt (1 / (2 * price)) 1 with few | many
  · have one : roundedUp price ≤ 1 := Nat.ceil_le.mpr (by exact_mod_cast few)
    have one' : (roundedUp price : ℚ) ≤ 1 := by exact_mod_cast one
    exact (mul_le_of_le_one_left priced.le one').trans below.le
  · have next : (roundedUp price : ℚ) < 1 / (2 * price) + 1 := Nat.ceil_lt_add_one (by positivity)
    have double : (roundedUp price : ℚ) < 1 / price := by
      have half : 1 / price = 1 / (2 * price) + 1 / (2 * price) := by
        field_simp
        norm_num
      linarith
    exact ((lt_div_iff₀ priced).mp double).le

/-- `n` units of currency, once rounded, take at least `n` times as much quantity as one. -/
theorem roundedUp_mul_le (priced : 0 < price) (below : price < 1) {units : ℤ} (positive : 0 < units) :
    roundedUp price * roundHalfAway (units * price) ≤ units := by
  have cost : (0 : ℚ) < units * price := mul_pos (by exact_mod_cast positive) priced
  generalize rounded : roundHalfAway (units * price) = n
  rw [roundHalfAway_of_nonneg cost.le] at rounded
  have most : (n : ℚ) ≤ units * price + 1 / 2 := by
    rw [← rounded]
    exact Int.floor_le _
  rcases le_or_gt n 0 with none | some
  · exact (mul_nonpos_of_nonneg_of_nonpos (by positivity) none).trans positive.le
  rcases Nat.lt_or_ge 1 (roundedUp price) with many | one
  · -- one unit of quantity less would still be rounded down
    have short : ((roundedUp price - 1 : ℤ) : ℚ) * (2 * price) < 1 := by
      have fewer : ((roundedUp price - 1 : ℕ) : ℚ) < 1 / (2 * price) := Nat.lt_ceil.mp (Nat.sub_lt (by omega) one_pos)
      rw [lt_div_iff₀ (by positivity)] at fewer
      rwa [← Nat.cast_one, ← Nat.cast_sub many.le]
    have odd : (0 : ℚ) < ((2 * n - 1 : ℤ) : ℚ) := by exact_mod_cast (by omega : 0 < 2 * n - 1)
    have enough : ((2 * n - 1 : ℤ) : ℚ) * ((roundedUp price - 1 : ℤ) : ℚ) < units := by
      have scaled := mul_lt_mul_of_pos_left short odd
      refine lt_of_mul_lt_mul_right (a := 2 * price) ?_ (by positivity)
      calc ((2 * n - 1 : ℤ) : ℚ) * ((roundedUp price - 1 : ℤ) : ℚ) * (2 * price)
          = ((2 * n - 1 : ℤ) : ℚ) * (((roundedUp price - 1 : ℤ) : ℚ) * (2 * price)) := mul_assoc _ _ _
        _ < ((2 * n - 1 : ℤ) : ℚ) * 1 := scaled
        _ ≤ units * (2 * price) := by
          push_cast
          linarith
    have whole : (2 * n - 1) * ((roundedUp price : ℤ) - 1) < units := by exact_mod_cast enough
    have many' : (2 : ℤ) ≤ roundedUp price := by exact_mod_cast many
    nlinarith
  · have most' : (n : ℚ) < units + 1 := by
      have less : (units : ℚ) * price ≤ units := mul_le_of_le_one_right (by exact_mod_cast positive.le) below.le
      linarith
    have most'' : n ≤ units := Int.lt_add_one_iff.mp (by exact_mod_cast most')
    have one' : (roundedUp price : ℤ) ≤ 1 := by exact_mod_cast one
    exact (mul_le_of_le_one_left some.le one').trans most''

theorem roundedUp_mul_lt (priced : 0 < price) (below : price < 1) {units n : ℤ} (nonneg : 0 ≤ n)
    (more : (n : ℚ) < units * price) : roundedUp price * n < units := by
  have covered : (roundedUp price * n : ℚ) * price ≤ n := by
    rw [mul_right_comm]
    exact mul_le_of_le_one_left (by exact_mod_cast nonneg) (roundedUp_le_one priced below)
  have less : (roundedUp price * n : ℚ) < units := lt_of_mul_lt_mul_right (covered.trans_lt more) priced.le
  exact_mod_cast less

theorem consumeRow_of_consume {s s' : Reserved LedgerAccount} {amount : ℚ} {u : Unit}
    (done : (Rounded.consume reservationId amount).run s = .ok (u, s')) (found : s.reservations.get? reservationId = some r) :
    ∃ r', consumeRow reservationId r amount = .ok r' ∧ s'.reservations.get? reservationId = some r' := by
  unfold Rounded.consume at done
  simp only [Tx.run_bind_ok, Tx.run_throwIf_ok, Tx.run_getOrThrow_ok, Rounded.run_write_ok, Tx.run_update_ok,
    Reserved.reservationsField_get, Reserved.reservationsField_set, Reserved.holdersField_get, Reserved.holdersField_set] at done
  obtain ⟨_, _, ⟨positive, rfl⟩, r₀, _, ⟨found₀, rfl⟩, _, _, ⟨active, rfl⟩, _, _, ⟨enough, rfl⟩, _, _, ⟨-, rfl, rfl⟩,
    _, _, ⟨t, updated, rfl⟩, _, _, ⟨-, rfl⟩, _, _, ⟨-, rfl, rfl⟩, _, -, rfl⟩ := done
  obtain rfl : r = r₀ := Option.some.inj (found.symm.trans found₀)
  obtain ⟨inside, valid, -, rows⟩ := Table.update_ok updated
  refine ⟨_, ?_, (Table.get?_of_set rows inside _).trans (if_pos rfl)⟩
  rw [consumeRow, if_neg positive, if_neg active, if_neg enough, if_pos valid]

theorem consumeRow_ok {r' : Reservation} {amount : ℚ} (done : consumeRow reservationId r amount = .ok r') :
    amount ≤ Decimal.minus r.amount r.consumedAmount ∧
      r' = { r with consumedAmount := stored Decimal.PRECISION Decimal.SCALE (r.consumedAmount + amount) } ∧
      r'.consumedAmount ≤ r.amount := by
  dsimp only [consumeRow] at done
  split at done
  next => cases done
  next =>
    split at done
    next => cases done
    next =>
      split at done
      next => cases done
      next enough =>
        split at done
        next valid =>
          cases done
          simp only [RowSpec.check, Reservation.check, Bool.and_eq_true, decide_eq_true_eq] at valid
          exact ⟨not_lt.mp enough, rfl, valid.2⟩
        next => cases done

section Worst

variable {units : ℤ}

theorem unit_zero : unit Decimal.PRECISION Decimal.SCALE 0 = 1 / 10 ^ Decimal.SCALE := by
  norm_num [unit_eq, Decimal.PRECISION, Decimal.SCALE]

theorem Splits.one (priced : 0 < price) (on : Places orderPriceMaxDecimals price) (positive : 0 < units) :
    Splits price (units / 10 ^ 18) [⟨units / 10 ^ 18, price⟩] where
  quantities slice member := by
    obtain rfl := List.mem_singleton.mp member
    exact ⟨div_pos (by exact_mod_cast positive) (by positivity), ⟨units, rfl⟩⟩
  prices slice member := by
    obtain rfl := List.mem_singleton.mp member
    exact ⟨priced, le_rfl, on⟩
  whole := by rw [List.map_singleton, List.sum_singleton]

theorem Splits.cons (priced : 0 < price) (on : Places orderPriceMaxDecimals price) {first : ℕ} (some : 0 < first)
    {slices : List Slice} (rest : Splits price ((units - first : ℤ) / 10 ^ 18) slices) :
    Splits price (units / 10 ^ 18) (⟨first / 10 ^ 18, price⟩ :: slices) where
  quantities slice member := by
    rcases List.mem_cons.mp member with rfl | other
    · exact ⟨div_pos (by exact_mod_cast some) (by positivity), ⟨first, by rw [Int.cast_natCast]; rfl⟩⟩
    · exact rest.quantities slice other
  prices slice member := by
    rcases List.mem_cons.mp member with rfl | other
    · exact ⟨priced, le_rfl, on⟩
    · exact rest.prices slice other
  whole := by
    rw [List.map_cons, List.sum_cons, rest.whole]
    push_cast
    ring

/-- A reservation that has so much left, as long as only multiples of the last digit were drawn from it. -/
structure Draining (r : Reservation) (left : ℕ) : Prop where
  nonneg : 0 ≤ r.consumedAmount
  fewAmount : Significant Decimal.PRECISION r.amount
  fitsAmount : Places Decimal.SCALE r.amount
  few : Significant Decimal.PRECISION r.consumedAmount
  fits : Places Decimal.SCALE r.consumedAmount
  left : r.amount - r.consumedAmount = left / 10 ^ 18

theorem Draining.digit_le {left : ℕ} (drawn : Draining r left) (some : 0 < left) {digit : ℕ}
    (same : unit Decimal.PRECISION Decimal.SCALE r.consumedAmount = digit / 10 ^ 18) : digit ≤ left := by
  -- what is left is a multiple of the last digit of what has been consumed
  have difference := drawn.left
  have remains : (0 : ℚ) < left / 10 ^ 18 := div_pos (by exact_mod_cast some) (by positivity)
  have finer : unit Decimal.PRECISION Decimal.SCALE r.consumedAmount ≤ unit Decimal.PRECISION Decimal.SCALE r.amount := by
    refine (unit_le_of_le drawn.nonneg (by linarith : r.consumedAmount ≤ r.amount)).trans (max_le ?_ le_rfl)
    rw [unit_zero]
    exact place_le_unit _ _ _
  obtain ⟨m, amount⟩ := whole_of_unit_le drawn.fewAmount drawn.fitsAmount finer
  obtain ⟨n, consumed⟩ := whole_of_significant drawn.few drawn.fits
  have multiple : ((m - n : ℤ) : ℚ) * digit = left := by
    rw [amount] at difference
    nth_rewrite 2 [consumed] at difference
    rw [same, ← sub_mul, ← mul_div_assoc, div_left_inj' (by positivity)] at difference
    exact_mod_cast difference
  have whole : (m - n) * (digit : ℤ) = left := by exact_mod_cast multiple
  have ahead : 0 < m - n := by
    by_contra behind
    nlinarith
  nlinarith

/-- The least number of units of quantity whose cost is half a digit or more. -/
def halfDigit (price : ℚ) (digit : ℕ) : ℕ := ⌈digit / (2 * price)⌉₊

theorem halfDigit_le (price : ℚ) (digit : ℕ) : halfDigit price digit ≤ roundedUp price * digit := by
  apply Nat.ceil_le.mpr
  have least : 1 / (2 * price) ≤ roundedUp price := Nat.le_ceil _
  rw [div_eq_mul_one_div, mul_comm]
  push_cast
  exact mul_le_mul_of_nonneg_right least (by positivity)

theorem halfDigit_cost (priced : 0 < price) (below : price < 1) {digit : ℕ} (some : 0 < digit) :
    (digit : ℚ) / 2 ≤ halfDigit price digit * price ∧ halfDigit price digit * price ≤ digit := by
  constructor
  · have least : digit / (2 * price) ≤ halfDigit price digit := Nat.le_ceil _
    rw [div_le_iff₀ (by positivity)] at least
    linarith
  · rcases (Nat.succ_le_of_lt some).eq_or_lt with one | more
    · have one' : digit = 1 := one.symm
      subst one'
      simpa [halfDigit, roundedUp] using roundedUp_le_one priced below
    · have next : (halfDigit price digit : ℚ) < digit / (2 * price) + 1 := Nat.ceil_lt_add_one (by positivity)
      have scaled := mul_lt_mul_of_pos_right next priced
      have half : (digit / (2 * price) + 1) * price = digit / 2 + price := by
        field_simp
      have two : (2 : ℚ) ≤ digit := by exact_mod_cast more
      linarith

theorem Draining.next {left digit : ℕ} (drawn : Draining r left) (priced : 0 < price) (below : price < 1) (some : 0 < digit)
    (same : unit Decimal.PRECISION Decimal.SCALE r.consumedAmount = digit / 10 ^ 18) (enough : digit ≤ left) {r' : Reservation}
    (done : consumeRow reservationId r (Decimal.times (halfDigit price digit / 10 ^ 18) price) = .ok r') :
    Draining r' (left - digit) := by
  -- a slice for half of the last digit moves what is consumed by a whole one
  obtain ⟨-, rfl, -⟩ := consumeRow_ok done
  obtain ⟨half, most⟩ := halfDigit_cost priced below some
  have scaled : (halfDigit price digit / 10 ^ 18 : ℚ) * price = halfDigit price digit * price / 10 ^ 18 :=
    div_mul_eq_mul_div _ _ _
  obtain ⟨half', most'⟩ := @toSignificant_between _ Decimal.SCALE r.consumedAmount
    (by decide : 0 < Decimal.PRECISION) (halfDigit price digit / 10 ^ 18 * price) (by
      rw [same, scaled, div_right_comm]
      exact div_le_div_of_nonneg_right half (by positivity)) (by
      rw [same, scaled]
      exact div_le_div_of_nonneg_right most (by positivity))
  have consumed := stored_add_half (by decide) unit_zero drawn.nonneg drawn.few drawn.fits half' most'
  rw [Decimal.times, consumed]
  refine ⟨add_nonneg drawn.nonneg (unit_pos _ _ _).le, drawn.fewAmount, drawn.fitsAmount,
    significant_add_unit (by decide) drawn.nonneg drawn.few drawn.fits, places_unit drawn.fits, ?_⟩
  rw [← sub_sub, drawn.left, same, Nat.cast_sub enough, sub_div]

theorem Draining.fails (priced : 0 < price) (below : price < 1) (on : Places orderPriceMaxDecimals price) {left : ℕ}
    (drawn : Draining r left) (units : ℤ) (more : (roundedUp price * left : ℕ) < units) :
    ∃ slices, Splits price (units / 10 ^ 18) slices ∧ ∀ r', consumeSlices reservationId r slices ≠ .ok r' := by
  -- once a reservation is used up by slices that were rounded up, what is left of the order cannot be paid for
  have positive : 0 < units := lt_of_le_of_lt (by positivity) more
  induction left using Nat.strong_induction_on generalizing r units with
  | _ left ih =>
  rcases left.eq_zero_or_pos with rfl | some
  · -- nothing is left to pay for the rest
    refine ⟨_, .one priced on positive, fun r' done => ?_⟩
    have none : Decimal.minus r.amount r.consumedAmount = 0 := by
      rw [Decimal.minus, drawn.left, Nat.cast_zero, zero_div, toSignificant_zero]
    have cost : 0 < Decimal.times (units / 10 ^ 18) price :=
      toSignificant_pos (by decide) (mul_pos (div_pos (by exact_mod_cast positive) (by positivity)) priced)
    cases first : consumeRow reservationId r (Decimal.times (units / 10 ^ 18) price) with
    | error e => simp [consumeSlices, first, bind, Except.bind] at done
    | ok row =>
      obtain ⟨enough, -, -⟩ := consumeRow_ok first
      linarith
  · obtain ⟨k, same⟩ := unit_units Decimal.PRECISION Decimal.SCALE r.consumedAmount
    obtain ⟨digit, power⟩ : ∃ digit : ℕ, digit = 10 ^ k := ⟨_, rfl⟩
    rw [← power] at same
    have whole : 0 < digit := power ▸ by positivity
    have enough := drawn.digit_le some same
    have part := halfDigit_le price digit
    have first : 0 < halfDigit price digit := Nat.ceil_pos.mpr (div_pos (by exact_mod_cast whole) (by positivity))
    have rest : (roundedUp price * (left - digit) : ℕ) < units - halfDigit price digit := by
      rw [Nat.mul_sub]
      have covered := Nat.mul_le_mul_left (roundedUp price) enough
      omega
    have rest' : 0 < units - halfDigit price digit := lt_of_le_of_lt (by positivity) rest
    cases drawing : consumeRow reservationId r (Decimal.times (halfDigit price digit / 10 ^ 18) price) with
    | error e =>
      refine ⟨_, .cons priced on first (.one priced on rest'), fun r' done => ?_⟩
      simp [consumeSlices, drawing, bind, Except.bind] at done
    | ok row =>
      obtain ⟨slices, splits, fails⟩ := ih (left - digit) (by omega) (drawn.next priced below whole same enough drawing)
        _ rest rest'
      refine ⟨_, .cons priced on first splits, fun r' done => fails r' ?_⟩
      rw [consumeSlices, List.foldlM_cons, drawing] at done
      exact done

end Worst

section Covered

theorem roundedUp_lt_one (priced : 0 < price) (below : price < 1) : roundedUp price * price < 1 := by
  rcases lt_or_ge price (1 / 2) with few | many
  · have next : (roundedUp price : ℚ) < 1 / (2 * price) + 1 := Nat.ceil_lt_add_one (by positivity)
    have scaled := mul_lt_mul_of_pos_right next priced
    have half : (1 / (2 * price) + 1) * price = 1 / 2 + price := by field_simp
    linarith
  · have one : roundedUp price ≤ 1 := by
      apply Nat.ceil_le.mpr
      rw [div_le_iff₀ (by positivity)]
      push_cast
      linarith
    have one' : (roundedUp price : ℚ) ≤ 1 := by exact_mod_cast one
    exact (mul_le_of_le_one_left priced.le one').trans_lt below

/-- What can be covered at all is small: `roundedUp price * price` falls short of one by a unit of the price at least. -/
theorem few_of_covered (priced : 0 < price) (below : price < 1) (on : Places orderPriceMaxDecimals price) {units reserved : ℤ}
    (positive : 0 < units) (most : (reserved : ℚ) ≤ units * price + (units * price / 10 ^ 19 + 1))
    (covered : units ≤ roundedUp price * reserved) : units ≤ 10 ^ 12 := by
  obtain ⟨p, same⟩ := on
  rw [orderPriceMaxDecimals] at same
  have some : 0 < p := by
    rw [same] at priced
    exact_mod_cast (div_pos_iff_of_pos_right (by positivity)).mp priced
  have least : (1 : ℚ) / 10 ^ 6 ≤ price := by
    rw [same]
    exact div_le_div_of_nonneg_right (by exact_mod_cast some) (by positivity)
  have count : (roundedUp price : ℚ) ≤ 500000 := by
    have ceil : roundedUp price ≤ 500000 := by
      apply Nat.ceil_le.mpr
      rw [div_le_iff₀ (by positivity)]
      push_cast
      linarith
    exact_mod_cast ceil
  have short : (roundedUp price : ℚ) * price ≤ 1 - 1 / 10 ^ 6 := by
    have less := roundedUp_lt_one priced below
    rw [same, ← mul_div_assoc, div_lt_one (by positivity)] at less
    have less' : (roundedUp (p / 10 ^ 6) : ℤ) * p ≤ 10 ^ 6 - 1 := Int.le_sub_one_of_lt (by exact_mod_cast less)
    have less'' : (roundedUp (p / 10 ^ 6) : ℚ) * p ≤ 10 ^ 6 - 1 := by exact_mod_cast less'
    rw [same, ← mul_div_assoc, div_le_iff₀ (by positivity)]
    linarith
  have units' : (0 : ℚ) < units := by exact_mod_cast positive
  have covered' : (units : ℚ) ≤ roundedUp price * reserved := by exact_mod_cast covered
  have part := mul_le_mul_of_nonneg_right short units'.le
  have bound := mul_le_mul_of_nonneg_left most (Nat.cast_nonneg (α := ℚ) (roundedUp price))
  have spread : (roundedUp price : ℚ) * (units * price + (units * price / 10 ^ 19 + 1)) =
      roundedUp price * price * units * (1 + 1 / 10 ^ 19) + roundedUp price := by ring
  have few : (units : ℚ) ≤ 10 ^ 12 := by linarith
  exact_mod_cast few

structure Holds (r : Reservation) (amount consumed : ℤ) : Prop where
  -- a reservation of few units of its columns
  active : r.status = .active
  nonneg : 0 ≤ consumed
  within : consumed ≤ amount
  few : amount ≤ 10 ^ 12
  reserved : r.amount = amount / 10 ^ 18
  consumed : r.consumedAmount = consumed / 10 ^ 18

variable {amount consumed : ℤ}

theorem times_few (on : Places orderPriceMaxDecimals price) (priced : 0 < price) (below : price ≤ 1) {units : ℤ}
    (positive : 0 < units) (few : units ≤ 10 ^ 12) : Decimal.times (units / 10 ^ 18) price = units * price / 10 ^ 18 := by
  have cost : (units : ℚ) / 10 ^ 18 * price = units * price / 10 ^ 18 := div_mul_eq_mul_div _ _ _
  have small : (units : ℚ) ≤ 10 ^ 12 := by exact_mod_cast few
  have units' : (0 : ℚ) < units := by exact_mod_cast positive
  have least : (units : ℚ) * price ≤ units * 1 := mul_le_mul_of_nonneg_left below units'.le
  rw [Decimal.times, cost]
  refine toSignificant_eq_self_iff.mpr (@Places.significant _ _ 24 ?_ (by decide) ?_)
  · obtain ⟨p, rfl⟩ := on
    exact ⟨units * p, by rw [orderPriceMaxDecimals]; push_cast; ring⟩
  · rw [abs_of_pos (by positivity), Decimal.PRECISION]
    linarith

theorem Holds.consume (reservationId : Nat) (holds : Holds r amount consumed) {units : ℤ} (positive : 0 < units)
    (small : units ≤ 10 ^ 12) (on : Places orderPriceMaxDecimals price) (priced : 0 < price) (below : price ≤ 1)
    (enough : units * price ≤ (amount - consumed : ℤ)) :
    ∃ r', consumeRow reservationId r (Decimal.times (units / 10 ^ 18) price) = .ok r' ∧
      Holds r' amount (consumed + roundHalfAway (units * price)) := by
  have cost : (0 : ℚ) < units * price := mul_pos (by exact_mod_cast positive) priced
  have scale : (0 : ℚ) < 10 ^ 18 := by positivity
  have nonneg : (0 : ℚ) ≤ consumed := by exact_mod_cast holds.nonneg
  have within : (consumed : ℚ) ≤ amount := by exact_mod_cast holds.within
  have few : (amount : ℚ) ≤ 10 ^ 12 := by exact_mod_cast holds.few
  have enough' : (units : ℚ) * price ≤ amount - consumed := by exact_mod_cast enough
  have unconsumed : Decimal.minus r.amount r.consumedAmount = ((amount - consumed : ℤ) : ℚ) / 10 ^ 18 := by
    have difference : r.amount - r.consumedAmount = ((amount - consumed : ℤ) : ℚ) / 10 ^ 18 := by
      rw [holds.reserved, holds.consumed]
      push_cast
      ring
    rw [← difference]
    refine Decimal.minus_eq_iff.mpr (Places.significant ⟨_, difference⟩ (by decide) ?_)
    rw [difference, Decimal.PRECISION, abs_of_nonneg (div_nonneg (by exact_mod_cast sub_nonneg.mpr holds.within) scale.le),
      div_mul_cancel₀ _ scale.ne']
    push_cast
    linarith
  have plus : Decimal.plus r.consumedAmount (units * price / 10 ^ 18) = (consumed + units * price) / 10 ^ 18 := by
    rw [holds.consumed, Decimal.plus, ← add_div]
    refine toSignificant_eq_self_iff.mpr (@Places.significant _ _ 24 ?_ (by decide) ?_)
    · obtain ⟨p, rfl⟩ := on
      exact ⟨consumed * 10 ^ 6 + units * p, by rw [orderPriceMaxDecimals]; push_cast; ring⟩
    · rw [abs_of_nonneg (by positivity), Decimal.PRECISION]
      linarith
  have rounded : roundHalfAway (units * price) ≤ amount - consumed := by
    have most := roundHalfAway_mono enough
    rwa [roundHalfAway_intCast] at most
  have later : Decimal.column ((consumed + units * price) / 10 ^ 18) =
      ((consumed + roundHalfAway (units * price) : ℤ) : ℚ) / 10 ^ 18 := by
    rw [Decimal.column_units, roundHalfAway_intCast_add holds.nonneg cost.le]
  have drawn : 0 ≤ consumed + roundHalfAway (units * price) := add_nonneg holds.nonneg (roundHalfAway_nonneg cost.le)
  refine ⟨{ r with consumedAmount := ((consumed + roundHalfAway (units * price) : ℤ) : ℚ) / 10 ^ 18 }, ?_,
    holds.active, drawn, by omega, holds.few, holds.reserved, rfl⟩
  have valid : RowSpec.check
      { r with consumedAmount := ((consumed + roundHalfAway (units * price) : ℤ) : ℚ) / 10 ^ 18 } = true := by
    simp only [RowSpec.check, Reservation.check, holds.reserved, Bool.and_eq_true, decide_eq_true_eq]
    have drawn' : (0 : ℚ) ≤ (consumed + roundHalfAway (units * price) : ℤ) := by exact_mod_cast drawn
    have most : ((consumed + roundHalfAway (units * price) : ℤ) : ℚ) ≤ amount := by exact_mod_cast le_sub_iff_add_le'.mp rounded
    have some : (0 : ℚ) < amount := by linarith
    exact ⟨⟨div_pos some scale, div_nonneg drawn' scale.le⟩, div_le_div_of_nonneg_right most scale.le⟩
  rw [times_few on priced below positive small]
  dsimp only [consumeRow]
  rw [unconsumed, plus, later, if_neg (not_le.mpr (div_pos cost scale)), if_neg (not_not.mpr holds.active),
    if_neg (not_lt.mpr (div_le_div_of_nonneg_right enough scale.le)), if_pos valid]

theorem Splits.nonneg {quantity : ℚ} {slices : List Slice} (splits : Splits price quantity slices) : 0 ≤ quantity := by
  rw [← splits.whole]
  refine List.sum_nonneg fun part member => ?_
  obtain ⟨slice, inside, rfl⟩ := List.mem_map.mp member
  exact (splits.quantities slice inside).1.le

theorem Splits.tail {quantity : ℚ} {slice : Slice} {rest : List Slice} (splits : Splits price quantity (slice :: rest)) :
    Splits price (quantity - slice.quantity) rest where
  quantities other member := splits.quantities other (List.mem_cons_of_mem _ member)
  prices other member := splits.prices other (List.mem_cons_of_mem _ member)
  whole := by rw [← splits.whole, List.map_cons, List.sum_cons, add_sub_cancel_left]

theorem consumeSlices_ok (reservationId : Nat) {quantity : ℚ} (priced : 0 < price) (below : price < 1) {slices : List Slice}
    (splits : Splits price quantity slices) {used : ℤ} (nonneg : 0 ≤ used) {total : ℤ} (holds : Holds r amount consumed)
    (drawn : roundedUp price * consumed ≤ used) (rest : (used : ℚ) / 10 ^ 18 + quantity ≤ total / 10 ^ 18)
    (covered : total ≤ roundedUp price * amount) (few : total ≤ 10 ^ 12) :
    ∃ r', consumeSlices reservationId r slices = .ok r' := by
  -- what has been consumed stays behind the quantity that it was consumed for
  induction slices generalizing r consumed used quantity with
  | nil => exact ⟨r, rfl⟩
  | cons slice others ih =>
    obtain ⟨positive, units, same⟩ := splits.quantities slice List.mem_cons_self
    obtain ⟨paid, better, on⟩ := splits.prices slice List.mem_cons_self
    have whole : 0 < units := by
      rw [same] at positive
      exact_mod_cast (div_pos_iff_of_pos_right (by positivity : (0 : ℚ) < 10 ^ Decimal.SCALE)).mp positive
    have left := splits.tail.nonneg
    have within : used + units ≤ total := by
      rw [same, Decimal.SCALE] at left
      have scaled : (used + units : ℚ) / 10 ^ 18 ≤ total / 10 ^ 18 := by
        rw [add_div]
        linarith
      exact_mod_cast (div_le_div_iff_of_pos_right (by positivity)).mp scaled
    have limit : (units : ℚ) * slice.price ≤ units * price := mul_le_mul_of_nonneg_left better (by exact_mod_cast whole.le)
    have cost : (0 : ℚ) ≤ units * slice.price := mul_nonneg (by exact_mod_cast whole.le) paid.le
    have enough : (units : ℚ) * slice.price ≤ (amount - consumed : ℤ) := by
      by_contra short
      have less := roundedUp_mul_lt priced below (sub_nonneg.mpr holds.within) ((not_le.mp short).trans_le limit)
      rw [mul_sub] at less
      omega
    obtain ⟨row, first, holds'⟩ :=
      holds.consume reservationId whole (by omega) on paid (better.trans below.le) enough
    have rounded : roundedUp price * roundHalfAway (units * slice.price) ≤ units :=
      (mul_le_mul_of_nonneg_left (roundHalfAway_mono limit) (by positivity)).trans
        (roundedUp_mul_le priced below whole)
    obtain ⟨r', later⟩ := ih splits.tail (add_nonneg nonneg whole.le) holds' (by rw [mul_add]; omega) (by
      rw [same, Decimal.SCALE]
      push_cast
      rw [add_div]
      linarith)
    refine ⟨r', ?_⟩
    have begins : consumeRow reservationId r (Decimal.times slice.quantity slice.price) = .ok row := by
      rw [same, Decimal.SCALE, first]
    rw [consumeSlices, List.foldlM_cons, begins]
    exact later

end Covered

section Reserved

theorem reservedFor_amount (accountId orderId : Nat) (price quantity : ℚ) :
    (reservedFor accountId orderId price quantity).amount = stored Decimal.PRECISION Decimal.SCALE (quantity * price) := by
  simp only [reservedFor, Reserved.ReserveInput.row, Decimal.plus, Decimal.times, add_zero,
    toSignificant_toSignificant (by decide : 0 < Decimal.PRECISION)]
  rfl

end Reserved

def unevenHalves : List Slice :=
  [⟨1 + 1 / 10 ^ 18, 1 / 2⟩, ⟨1 - 1 / 10 ^ 18, 1 / 2⟩]

end Slices

end ExecutionCoordinator

end VerdictVaut
