import VerdictVaut.Trading.Placing

set_option autoImplicit false

namespace VerdictVaut

open Relational Relational.Tx VerdictVaut.Core ExecutionCoordinator OrdersService

section Definitions

def executedTotal (x : Exchange) (orderId : Nat) : ℚ :=
  -- what was executed of an order, by the fills and the mints that name it
  sumWhere (fun fill => decide (fill.buyOrderId = orderId) || decide (fill.sellOrderId = orderId)) Fill.quantity
    x.fills.rows +
  sumWhere (fun mint => decide (mint.buyOrderAId = orderId) || decide (mint.buyOrderBId = orderId))
    CompleteSetMint.quantity x.mints.rows

structure BackedBuy (order : Order) (r : Reservation) : Prop where
  -- a BUY order and the funds behind it
  active : r.isActive = order.isExecutable
  enough : ∃ limit, order.price = some limit ∧
    (order.isExecutable = true → order.remainingQuantity * limit ≤ r.unconsumed)

structure BackedSell (order : Order) (r : Reservation) : Prop where
  -- a SELL order and the shares behind it
  active : r.isActive = order.isExecutable
  exact : r.unconsumed = order.remainingQuantity

structure HeldFunds (c : Core) (order : Order) (r : Reservation) : Prop where
  -- who holds what is reserved for an order
  account : ∃ account asset, c.ledger.accounts.get? r.holderId = some account ∧
    account.owner = .user order.userId ∧
    c.ledger.assets.find? Asset.isSettlementCurrency = some (account.assetId, asset)

structure HeldShares (c : Core) (order : Order) (r : Reservation) : Prop where
  position : ∃ position, c.exchange.positions.get? r.holderId = some position ∧
    isPosition order.userId order.marketId order.outcomeId position = true

structure Backed (c : Core) (orderId : Nat) (order : Order) : Prop where
  -- an order with exactly the one reservation behind it
  buy : order.side = .buy → c.exchange.shares.forRef .order orderId = [] ∧
    ∃ r, c.ledger.funds.forRef .order orderId = [r] ∧ BackedBuy order r ∧ HeldFunds c order r
  sell : order.side = .sell → c.ledger.funds.forRef .order orderId = [] ∧
    ∃ r, c.exchange.shares.forRef .order orderId = [r] ∧ BackedSell order r ∧ HeldShares c order r
  filled : order.filledQuantity = executedTotal c.exchange orderId
  resting : order.isExecutable = true → 0 < order.remainingQuantity

structure Backing (c : Core) : Prop where
  agrees : c.exchange.shares.Agrees
  orders : ∀ o order, c.exchange.orders.get? o = some order → Backed c o order
  noFunds : ∀ o, c.exchange.orders.size ≤ o → c.ledger.funds.forRef .order o = []
  noShares : ∀ o, c.exchange.orders.size ≤ o → c.exchange.shares.forRef .order o = []
  shareKeys : ∀ r ∈ c.exchange.shares.reservations.rows,
    r.referenceType = .order ∧ r.idempotencyKey = ⟨"order-reserve", [r.referenceId]⟩
  fills : ∀ fill ∈ c.exchange.fills.rows,
    fill.buyOrderId < c.exchange.orders.size ∧ fill.sellOrderId < c.exchange.orders.size
  mints : ∀ mint ∈ c.exchange.mints.rows,
    mint.buyOrderAId < c.exchange.orders.size ∧ mint.buyOrderBId < c.exchange.orders.size

end Definitions

section Reservations

variable {order : Order} {r : Reservation} {q limit price : ℚ}

theorem finish_unconsumed (ends : Prop) [Decidable ends] (r : Reservation) :
    (finish ends r).unconsumed = r.unconsumed := by
  unfold finish Reserved.settle
  split
  · split <;> rfl
  · rfl

theorem draw_unconsumed (amount : ℚ) (r : Reservation) :
    (Reserved.draw amount r).unconsumed = r.unconsumed - amount := by
  simp only [Reserved.draw, Reservation.unconsumed]
  ring

theorem finish_holderId (ends : Prop) [Decidable ends] (r : Reservation) : (finish ends r).holderId = r.holderId := by
  unfold finish Reserved.settle
  split
  · split <;> rfl
  · rfl

theorem executed_isExecutable (order : Order) (q : ℚ) :
    (executed order q).isExecutable = !decide (order.remainingQuantity - q = 0) := by
  by_cases zero : order.remainingQuantity - q = 0 <;> simp [executed, Order.isExecutable, zero]

theorem settle_isActive (r : Reservation) : (Reserved.settle r).isActive = false := by
  unfold Reserved.settle
  by_cases active : r.isActive = true
  · rw [if_pos active]
    rfl
  · rw [if_neg active]
    simpa using active

theorem finish_isActive (active : r.isActive = true) (amount : ℚ) (order : Order) (q : ℚ) :
    (finish (order.remainingQuantity - q = 0) (Reserved.draw amount r)).isActive =
      (executed order q).isExecutable := by
  rw [executed_isExecutable]
  have still : (Reserved.draw amount r).isActive = true := active
  by_cases zero : order.remainingQuantity - q = 0
  · rw [finish, if_pos zero, settle_isActive, decide_eq_true zero]
    rfl
  · rw [finish, if_neg zero, still, decide_eq_false zero]
    rfl

theorem BackedBuy.executed (backed : BackedBuy order r) (resting : order.isExecutable = true) (nonneg : 0 ≤ q)
    (within : ∃ limit, order.price = some limit ∧ price ≤ limit) :
    BackedBuy (executed order q) (finish (order.remainingQuantity - q = 0) (Reserved.draw (q * price) r)) := by
  refine ⟨finish_isActive (backed.active.trans resting) _ _ _, ?_⟩
  obtain ⟨limit, limited, enough⟩ := backed.enough
  obtain ⟨limit', limited', below⟩ := within
  rw [limited] at limited'
  cases limited'
  refine ⟨limit, limited, fun _ => ?_⟩
  have before := enough resting
  have cost : q * price ≤ q * limit := mul_le_mul_of_nonneg_left below nonneg
  rw [finish_unconsumed, draw_unconsumed]
  change (order.remainingQuantity - q) * limit ≤ _
  linarith

theorem BackedBuy.cost (backed : BackedBuy order r)
    (resting : order.isExecutable = true) (nonneg : 0 ≤ q) (below : q ≤ order.remainingQuantity)
    (priced : 0 ≤ price) (within : ∃ limit, order.price = some limit ∧ price ≤ limit) :
    q * price ≤ r.unconsumed := by
  obtain ⟨limit, limited, enough⟩ := backed.enough
  obtain ⟨limit', limited', within⟩ := within
  rw [limited] at limited'
  cases limited'
  calc q * price ≤ q * limit := mul_le_mul_of_nonneg_left within nonneg
    _ ≤ order.remainingQuantity * limit := mul_le_mul_of_nonneg_right below (priced.trans within)
    _ ≤ r.unconsumed := enough resting

theorem BackedSell.executed (backed : BackedSell order r) (resting : order.isExecutable = true) :
    BackedSell (executed order q) (finish (order.remainingQuantity - q = 0) (Reserved.draw q r)) := by
  refine ⟨finish_isActive (backed.active.trans resting) _ _ _, ?_⟩
  rw [finish_unconsumed, draw_unconsumed, backed.exact]
  rfl

theorem settle_unconsumed (r : Reservation) : (Reserved.settle r).unconsumed = r.unconsumed := by
  unfold Reserved.settle
  split <;> rfl

theorem settle_holderId (r : Reservation) : (Reserved.settle r).holderId = r.holderId := by
  unfold Reserved.settle
  split <;> rfl

theorem closed_isExecutable {status : OrderStatus} (closed : status = .cancelled ∨ status = .expired) :
    ({ order with status := status } : Order).isExecutable = false := by
  rcases closed with rfl | rfl <;> rfl

theorem BackedBuy.closed (backed : BackedBuy order r) {status : OrderStatus}
    (closed : status = .cancelled ∨ status = .expired) :
    BackedBuy { order with status := status } (Reserved.settle r) := by
  obtain ⟨limit, limited, -⟩ := backed.enough
  refine ⟨by rw [settle_isActive, closed_isExecutable closed], limit, limited, ?_⟩
  rw [closed_isExecutable closed]
  exact fun absurd => by cases absurd

theorem BackedSell.closed (backed : BackedSell order r) {status : OrderStatus}
    (closed : status = .cancelled ∨ status = .expired) :
    BackedSell { order with status := status } (Reserved.settle r) :=
  ⟨by rw [settle_isActive, closed_isExecutable closed], (settle_unconsumed r).trans backed.exact⟩

end Reservations

section Holders

variable {c c' : Core} {order order' : Order} {r r' : Reservation} {orderId : Nat}

def owner (position : Position) : Nat × Nat × Nat := (position.userId, position.marketId, position.outcomeId)

theorem owner_of_tags {t t' : Table Position} (tags : Table.Carries tag t t') : Table.Carries owner t t' :=
  tags.map fun columns => (columns.1, columns.2.1, columns.2.2.1)

structure Carried (c c' : Core) : Prop where
  -- the rows that reservations are held on keep their identity
  assets : c'.ledger.assets = c.ledger.assets
  accounts : Table.Carries (fun a => (a.owner, a.assetId)) c.ledger.accounts c'.ledger.accounts
  positions : Table.Carries owner c.exchange.positions c'.exchange.positions

theorem HeldFunds.carried (held : HeldFunds c order r) (carried : Carried c c') (same : terms order' = terms order)
    (holder : r'.holderId = r.holderId) : HeldFunds c' order' r' := by
  obtain ⟨account, asset, found, owner, named⟩ := held.account
  obtain ⟨account', found', columns⟩ := carried.accounts _ _ found
  simp only [Prod.mk.injEq] at columns
  simp only [terms, Prod.mk.injEq] at same
  refine ⟨account', asset, by rw [holder]; exact found', by rw [columns.1, owner, same.1], ?_⟩
  rw [carried.assets, columns.2]
  exact named

theorem HeldShares.carried (held : HeldShares c order r) (carried : Carried c c') (same : terms order' = terms order)
    (holder : r'.holderId = r.holderId) : HeldShares c' order' r' := by
  obtain ⟨position, found, mine⟩ := held.position
  obtain ⟨position', found', columns⟩ := carried.positions _ _ found
  simp only [owner, Prod.mk.injEq] at columns
  simp only [terms, Prod.mk.injEq] at same
  refine ⟨position', by rw [holder]; exact found', ?_⟩
  rw [isPosition_iff] at mine ⊢
  rw [columns.1, columns.2.1, columns.2.2, same.1, same.2.1, same.2.2.1]
  exact mine

theorem Backed.kept (backed : Backed c orderId order) (carried : Carried c c')
    (funds : c'.ledger.funds.forRef .order orderId = c.ledger.funds.forRef .order orderId)
    (shares : c'.exchange.shares.forRef .order orderId = c.exchange.shares.forRef .order orderId)
    (total : executedTotal c'.exchange orderId = executedTotal c.exchange orderId) : Backed c' orderId order := by
  refine ⟨?_, ?_, backed.filled.trans total.symm, backed.resting⟩
  · intro side
    obtain ⟨none, r, single, match_, held⟩ := backed.buy side
    exact ⟨shares.trans none, r, funds.trans single, match_, held.carried carried rfl rfl⟩
  · intro side
    obtain ⟨none, r, single, match_, held⟩ := backed.sell side
    exact ⟨funds.trans none, r, shares.trans single, match_, held.carried carried rfl rfl⟩

theorem Backed.bought {q price : ℚ} (backed : Backed c orderId order) (carried : Carried c c')
    (side : order.side = .buy) (resting : order.isExecutable = true) (nonneg : 0 ≤ q)
    (below : q ≤ order.remainingQuantity) (within : ∃ limit, order.price = some limit ∧ price ≤ limit)
    (drawn : Drawn c.ledger.funds c'.ledger.funds orderId (q * price) (order.remainingQuantity - q = 0))
    (shares : c'.exchange.shares.forRef .order orderId = c.exchange.shares.forRef .order orderId)
    (total : executedTotal c'.exchange orderId = executedTotal c.exchange orderId + q) :
    Backed c' orderId (executed order q) := by
  obtain ⟨none, r, single, match_, held⟩ := backed.buy side
  refine ⟨fun _ => ⟨shares.trans none, _, drawn.mine r single, match_.executed resting nonneg within,
    held.carried carried rfl (finish_holderId _ _)⟩, ?_, ?_, ?_⟩
  · intro other
    rw [show (executed order q).side = order.side from rfl, side] at other
    cases other
  · change order.filledQuantity + q = _
    rw [total, backed.filled]
  · intro open_
    rw [executed_isExecutable] at open_
    have nonzero : order.remainingQuantity - q ≠ 0 := by simpa using open_
    exact lt_of_le_of_ne (sub_nonneg.mpr below) nonzero.symm

theorem Backed.sold {q : ℚ} (backed : Backed c orderId order) (carried : Carried c c')
    (side : order.side = .sell) (resting : order.isExecutable = true) (below : q ≤ order.remainingQuantity)
    (drawn : Drawn c.exchange.shares c'.exchange.shares orderId q (order.remainingQuantity - q = 0))
    (funds : c'.ledger.funds.forRef .order orderId = c.ledger.funds.forRef .order orderId)
    (total : executedTotal c'.exchange orderId = executedTotal c.exchange orderId + q) :
    Backed c' orderId (executed order q) := by
  obtain ⟨none, r, single, match_, held⟩ := backed.sell side
  refine ⟨?_, fun _ => ⟨funds.trans none, _, drawn.mine r single, match_.executed resting,
    held.carried carried rfl (finish_holderId _ _)⟩, ?_, ?_⟩
  · intro other
    rw [show (executed order q).side = order.side from rfl, side] at other
    cases other
  · change order.filledQuantity + q = _
    rw [total, backed.filled]
  · intro open_
    rw [executed_isExecutable] at open_
    have nonzero : order.remainingQuantity - q ≠ 0 := by simpa using open_
    exact lt_of_le_of_ne (sub_nonneg.mpr below) nonzero.symm

end Holders

section Steps

variable {c c' : Core}

theorem get?_of_two_sets {t t' : Table Order} {i j : Nat} {a b a' b' : Order} (first : t.get? i = some a)
    (second : t.get? j = some b) (rows : t'.rows = (t.rows.set i a').set j b') (o : Nat) :
    t'.get? o = if o = j then some b' else if o = i then some a' else t.get? o := by
  have insideI : i < t.rows.length := Table.get?_lt first
  have insideJ : j < t.rows.length := Table.get?_lt second
  unfold Table.get?
  rw [rows, List.getElem?_set, List.getElem?_set]
  by_cases atJ : o = j
  · subst atJ
    simp [insideJ]
  · by_cases atI : o = i
    · subst atI
      simp [insideI, Ne.symm atJ, atJ]
    · simp [Ne.symm atJ, Ne.symm atI, atJ, atI]

theorem size_of_two_sets {t t' : Table Order} {i j : Nat} {a' b' : Order}
    (rows : t'.rows = (t.rows.set i a').set j b') : t'.size = t.size := by
  simp [Table.size, rows]

theorem shareKeys_kept (keys : ∀ r ∈ c.exchange.shares.reservations.rows,
      r.referenceType = .order ∧ r.idempotencyKey = ⟨"order-reserve", [r.referenceId]⟩)
    (same : Reserved.SameRefs c.exchange.shares c'.exchange.shares) :
    ∀ r ∈ c'.exchange.shares.reservations.rows,
      r.referenceType = .order ∧ r.idempotencyKey = ⟨"order-reserve", [r.referenceId]⟩ := by
  intro r member
  obtain ⟨before, earlier, refs⟩ := same r member
  simp only [Reserved.refs, Prod.mk.injEq] at refs
  rw [← refs.2.1, ← refs.2.2.1, ← refs.2.2.2]
  exact keys before earlier

theorem Backing.filled (backing : Backing c) {i : ExecutionInstruction} {buy sell : Order} {now : Time} {market : Market}
    (buyFound : c.exchange.orders.get? i.buyOrderId = some buy)
    (sellFound : c.exchange.orders.get? i.sellOrderId = some sell) (fits : FillTerms i buy sell)
    (fresh : Executable now market i.quantity buy sell)
    (done : Executed c c' i buy sell (minRemaining i.quantity buy sell)) : Backing c' := by
  obtain ⟨_, _, -, -, moved⟩ := done.positions
  obtain ⟨fee, fills⟩ := done.fills
  have carried : Carried c c' := ⟨done.ledger.assets, done.ledger.accounts, owner_of_tags moved.tags⟩
  have size := size_of_two_sets done.orders
  have total : ∀ o, executedTotal c'.exchange o = executedTotal c.exchange o +
      if i.buyOrderId = o ∨ i.sellOrderId = o then minRemaining i.quantity buy sell else 0 := by
    intro o
    simp only [executedTotal, fills, done.mints, sumWhere_append, sumWhere_cons, sumWhere_nil, add_zero, share,
      fillRow, Bool.or_eq_true, decide_eq_true_eq]
    ring
  refine ⟨moved.agrees backing.agrees, ?_, ?_, ?_, shareKeys_kept backing.shareKeys done.sharesKeys, ?_, ?_⟩
  · intro o order found
    rw [get?_of_two_sets buyFound sellFound done.orders] at found
    by_cases ofSell : o = i.sellOrderId
    · subst ofSell
      rw [if_pos rfl] at found
      cases found
      refine (backing.orders _ _ sellFound).sold carried fits.sellSide fresh.second (min_le_right _ _) done.shares
        (done.fundsOthers _ _ fun same => done.different same.2.symm) ?_
      rw [total, if_pos (.inr rfl)]
    · by_cases ofBuy : o = i.buyOrderId
      · subst ofBuy
        rw [if_neg ofSell, if_pos rfl] at found
        cases found
        refine (backing.orders _ _ buyFound).bought carried fits.buySide fresh.first fresh.positive.le
          ((min_le_left _ _).trans (min_le_right _ _)) fits.limit done.funds
          (done.sharesOthers _ _ fun same => done.different same.2) ?_
        rw [total, if_pos (.inl rfl)]
      · rw [if_neg ofSell, if_neg ofBuy] at found
        refine (backing.orders _ _ found).kept carried (done.fundsOthers _ _ fun same => ofBuy same.2)
          (done.sharesOthers _ _ fun same => ofSell same.2) ?_
        rw [total, if_neg (not_or.mpr ⟨Ne.symm ofBuy, Ne.symm ofSell⟩), add_zero]
  · intro o outside
    rw [size] at outside
    rw [done.fundsOthers _ _ fun same => absurd (Table.get?_lt buyFound) (by omega)]
    exact backing.noFunds o outside
  · intro o outside
    rw [size] at outside
    rw [done.sharesOthers _ _ fun same => absurd (Table.get?_lt sellFound) (by omega)]
    exact backing.noShares o outside
  · intro fill member
    rw [size]
    rw [fills] at member
    rcases List.mem_append.mp member with old | new
    · exact backing.fills fill old
    · rw [List.mem_singleton.mp new]
      exact ⟨Table.get?_lt buyFound, Table.get?_lt sellFound⟩
  · rw [size, done.mints]
    exact backing.mints

theorem Backing.minted (backing : Backing c) {i : MintInstruction} {a b : Order} {now : Time} {market : Market}
    (foundA : c.exchange.orders.get? i.buyOrderAId = some a)
    (foundB : c.exchange.orders.get? i.buyOrderBId = some b) (fits : MintTerms i a b)
    (fresh : Executable now market i.quantity a b)
    (done : Minted c c' i a b (minRemaining i.quantity a b)) : Backing c' := by
  obtain ⟨_, _, -, -, moved⟩ := done.positions
  have carried : Carried c c' := ⟨done.ledger.assets, done.ledger.accounts, owner_of_tags moved.tags⟩
  have size := size_of_two_sets done.orders
  have sameShares : ∀ o, c'.exchange.shares.forRef .order o = c.exchange.shares.forRef .order o := by
    intro o
    rw [Reserved.forRef, done.shares, Reserved.forRef]
  have total : ∀ o, executedTotal c'.exchange o = executedTotal c.exchange o +
      if i.buyOrderAId = o ∨ i.buyOrderBId = o then minRemaining i.quantity a b else 0 := by
    intro o
    simp only [executedTotal, done.fills, done.mints, sumWhere_append, sumWhere_cons, sumWhere_nil, add_zero, share,
      mintRow, Bool.or_eq_true, decide_eq_true_eq]
    ring
  refine ⟨moved.agrees backing.agrees, ?_, ?_, ?_, ?_, ?_, ?_⟩
  · intro o order found
    rw [get?_of_two_sets foundA foundB done.orders] at found
    by_cases ofB : o = i.buyOrderBId
    · subst ofB
      rw [if_pos rfl] at found
      cases found
      refine (backing.orders _ _ foundB).bought carried fits.sideB fresh.second fresh.positive.le (min_le_right _ _)
        fits.limitB done.fundsB (sameShares _) ?_
      rw [total, if_pos (.inr rfl)]
    · by_cases ofA : o = i.buyOrderAId
      · subst ofA
        rw [if_neg ofB, if_pos rfl] at found
        cases found
        refine (backing.orders _ _ foundA).bought carried fits.sideA fresh.first fresh.positive.le
          ((min_le_left _ _).trans (min_le_right _ _)) fits.limitA done.fundsA (sameShares _) ?_
        rw [total, if_pos (.inl rfl)]
      · rw [if_neg ofB, if_neg ofA] at found
        refine (backing.orders _ _ found).kept carried
          (done.fundsOthers _ _ (fun same => ofA same.2) fun same => ofB same.2) (sameShares _) ?_
        rw [total, if_neg (not_or.mpr ⟨Ne.symm ofA, Ne.symm ofB⟩), add_zero]
  · intro o outside
    rw [size] at outside
    rw [done.fundsOthers _ _ (fun same => absurd (Table.get?_lt foundA) (by omega))
      fun same => absurd (Table.get?_lt foundB) (by omega)]
    exact backing.noFunds o outside
  · intro o outside
    rw [size] at outside
    rw [sameShares]
    exact backing.noShares o outside
  · rw [done.shares]
    exact backing.shareKeys
  · rw [size, done.fills]
    exact backing.fills
  · intro mint member
    rw [size]
    rw [done.mints] at member
    rcases List.mem_append.mp member with old | new
    · exact backing.mints mint old
    · rw [List.mem_singleton.mp new]
      exact ⟨Table.get?_lt foundA, Table.get?_lt foundB⟩

theorem Backing.untouched (backing : Backing c) (carried : Carried c c') (agrees : c'.exchange.shares.Agrees)
    (orders : c'.exchange.orders = c.exchange.orders) (fills : c'.exchange.fills = c.exchange.fills)
    (mints : c'.exchange.mints = c.exchange.mints)
    (funds : ∀ o, c'.ledger.funds.forRef .order o = c.ledger.funds.forRef .order o)
    (shares : c'.exchange.shares.reservations = c.exchange.shares.reservations) : Backing c' := by
  have sameShares : ∀ o, c'.exchange.shares.forRef .order o = c.exchange.shares.forRef .order o := by
    intro o
    rw [Reserved.forRef, shares, Reserved.forRef]
  refine ⟨agrees, ?_, ?_, ?_, ?_, ?_, ?_⟩
  · intro o order found
    rw [orders] at found
    refine (backing.orders o order found).kept carried (funds o) (sameShares o) ?_
    rw [executedTotal, fills, mints, executedTotal]
  · intro o outside
    rw [orders] at outside
    rw [funds]
    exact backing.noFunds o outside
  · intro o outside
    rw [orders] at outside
    rw [sameShares]
    exact backing.noShares o outside
  · rw [shares]
    exact backing.shareKeys
  · rw [fills, orders]
    exact backing.fills
  · rw [mints, orders]
    exact backing.mints

theorem Backing.ended (backing : Backing c) {orderId : Nat} {order : Order} {status : OrderStatus}
    (done : Ended c c' orderId order status) : Backing c' := by
  have carried : Carried c c' := ⟨done.ledger.assets, done.ledger.accounts, owner_of_tags done.positions.tags⟩
  have inside := Table.get?_lt done.found
  have size : c'.exchange.orders.size = c.exchange.orders.size := Table.size_of_set done.orders
  have total : ∀ o, executedTotal c'.exchange o = executedTotal c.exchange o := by
    intro o
    rw [executedTotal, done.fills, done.mints, executedTotal]
  have refs : ∀ o, o ≠ orderId → c'.ledger.funds.forRef .order o = c.ledger.funds.forRef .order o ∧
      c'.exchange.shares.forRef .order o = c.exchange.shares.forRef .order o := by
    intro o other
    cases side : order.side with
    | buy => exact ⟨(done.buy side).2.others _ _ fun same => other same.2, by rw [(done.buy side).1]⟩
    | sell => exact ⟨by rw [(done.sell side).1], (done.sell side).2.others _ _ fun same => other same.2⟩
  have backed := backing.orders _ _ done.found
  refine ⟨done.positions.agrees backing.agrees, ?_, ?_, ?_, shareKeys_kept backing.shareKeys ?_, ?_, ?_⟩
  · intro o row found
    rw [Table.get?_of_set done.orders inside] at found
    by_cases this : o = orderId
    · subst this
      rw [if_pos rfl] at found
      cases found
      refine ⟨?_, ?_, backed.filled.trans (total o).symm, ?_⟩
      · intro side
        obtain ⟨none, r, single, match_, held⟩ := backed.buy side
        obtain ⟨shares, onRef⟩ := done.buy side
        exact ⟨by rw [shares]; exact none, _, onRef.mine r single, match_.closed done.closed,
          held.carried carried rfl (settle_holderId r)⟩
      · intro side
        obtain ⟨none, r, single, match_, held⟩ := backed.sell side
        obtain ⟨funds, onRef⟩ := done.sell side
        exact ⟨by rw [funds]; exact none, _, onRef.mine r single, match_.closed done.closed,
          held.carried carried rfl (settle_holderId r)⟩
      · rw [closed_isExecutable done.closed]
        exact fun absurd => by cases absurd
    · rw [if_neg this] at found
      exact (backing.orders o row found).kept carried (refs o this).1 (refs o this).2 (total o)
  · intro o outside
    rw [size] at outside
    rw [(refs o (by omega)).1]
    exact backing.noFunds o outside
  · intro o outside
    rw [size] at outside
    rw [(refs o (by omega)).2]
    exact backing.noShares o outside
  · cases side : order.side with
    | buy =>
      rw [(done.buy side).1]
      exact fun r member => ⟨r, member, rfl⟩
    | sell => exact (done.sell side).2.refs
  · rw [size, done.fills]
    exact backing.fills
  · rw [size, done.mints]
    exact backing.mints

theorem executedTotal_absent (backing : Backing c) {o : Nat} (outside : c.exchange.orders.size ≤ o) :
    executedTotal c.exchange o = 0 := by
  have noFills : sumWhere (fun fill => decide (fill.buyOrderId = o) || decide (fill.sellOrderId = o)) Fill.quantity
      c.exchange.fills.rows = 0 := by
    refine sumWhere_eq_zero _ _ _ ?_
    intro fill member
    have inside := backing.fills fill member
    have other : ¬ (fill.buyOrderId = o ∨ fill.sellOrderId = o) := by omega
    simp [share, other]
  have noMints : sumWhere (fun mint => decide (mint.buyOrderAId = o) || decide (mint.buyOrderBId = o))
      CompleteSetMint.quantity c.exchange.mints.rows = 0 := by
    refine sumWhere_eq_zero _ _ _ ?_
    intro mint member
    have inside := backing.mints mint member
    have other : ¬ (mint.buyOrderAId = o ∨ mint.buyOrderBId = o) := by omega
    simp [share, other]
  rw [executedTotal, noFills, noMints, add_zero]

/-- The settlement currency that `create` has looked up for a BUY order. -/
def PlacementFits (c : Core) (placement : Placement) : Prop :=
  placement.side = .buy → ∃ assetId asset,
    c.ledger.assets.find? Asset.isSettlementCurrency = some (assetId, asset) ∧
      placement.settlementAssetSymbol = some asset.symbol

theorem Backing.placed (backing : Backing c) (sound : c.ledger.Sound) {placement : Placement} {now : Time}
    {sequence : Nat} (fits : PlacementFits c placement) (done : Placed c c' placement now sequence) :
    Backing c' := by
  have carried : Carried c c' := ⟨done.ledger.assets, done.ledger.accounts, owner_of_tags done.positions.tags⟩
  have size := Table.size_of_append done.orders
  have positive : 0 < placement.quantity := by
    have valid := c'.exchange.orders.checked (orderRow placement sequence) (by simp [done.orders])
    simp only [RowSpec.check, orderRow, Bool.and_eq_true] at valid
    exact of_decide_eq_true valid.1.1.1.1
  have total : ∀ o, executedTotal c'.exchange o = executedTotal c.exchange o := by
    intro o
    rw [executedTotal, done.fills, done.mints, executedTotal]
  have noFunds := backing.noFunds _ le_rfl
  have noShares := backing.noShares _ le_rfl
  have untakenFunds : ∀ r ∈ c.ledger.funds.reservations.rows,
      r.idempotencyKey ≠ ⟨"order-reserve", [c.exchange.orders.size]⟩ := by
    intro r member key
    have reference : Ledger.reserveKey r.referenceType r.referenceId =
      Ledger.reserveKey .order c.exchange.orders.size := (sound.reservationKeys r member).symm.trans key
    have inside : r ∈ c.ledger.funds.forRef .order c.exchange.orders.size :=
      List.mem_filter.mpr ⟨member, Reserved.isFor_iff.mpr (Ledger.reserveKey_order reference)⟩
    simp [noFunds] at inside
  have untakenShares : ∀ r ∈ c.exchange.shares.reservations.rows,
      r.idempotencyKey ≠ ⟨"order-reserve", [c.exchange.orders.size]⟩ := by
    intro r member key
    obtain ⟨kind, own⟩ := backing.shareKeys r member
    have number : r.referenceId = c.exchange.orders.size := by simpa [own] using key
    have inside : r ∈ c.exchange.shares.forRef .order c.exchange.orders.size :=
      List.mem_filter.mpr ⟨member, Reserved.isFor_iff.mpr ⟨kind, number⟩⟩
    simp [noShares] at inside
  -- the two sides differ in which of the two tables gets the new row
  obtain ⟨backed, keptFunds, keptShares, keys⟩ : Backed c' c.exchange.orders.size (orderRow placement sequence) ∧
      (∀ o, o ≠ c.exchange.orders.size → c'.ledger.funds.forRef .order o = c.ledger.funds.forRef .order o) ∧
      (∀ o, o ≠ c.exchange.orders.size → c'.exchange.shares.forRef .order o = c.exchange.shares.forRef .order o) ∧
      ∀ r ∈ c'.exchange.shares.reservations.rows,
        r.referenceType = .order ∧ r.idempotencyKey = ⟨"order-reserve", [r.referenceId]⟩ := by
    have filled : (orderRow placement sequence).filledQuantity = executedTotal c'.exchange c.exchange.orders.size := by
      rw [total, executedTotal_absent backing le_rfl]
      rfl
    cases side : placement.side with
    | buy =>
      obtain ⟨shares, symbol, assetId, asset, named, found, buffer, nonneg, opened⟩ := done.buy side
      obtain ⟨assetId', asset', settlement, named'⟩ := fits side
      rw [named] at named'
      cases named'
      rw [named_settlement settlement] at found
      cases found
      obtain ⟨-, holderId, account, held, ⟨owner, ofAsset⟩, -, single, others⟩ := opened.added untakenFunds noFunds
      refine ⟨⟨fun _ => ⟨by rw [shares]; exact noShares, _, single, ⟨rfl, _, rfl, fun _ => ?_⟩, ?_⟩, ?_, filled,
        fun _ => positive⟩, others, fun o _ => by rw [shares], by rw [shares]; exact backing.shareKeys⟩
      · simpa [orderReservation, Reservation.unconsumed, orderRow] using nonneg
      · refine ⟨account, asset, held, owner, ?_⟩
        rw [carried.assets, ofAsset]
        exact settlement
      · intro other
        rw [show (orderRow placement sequence).side = placement.side from rfl, side] at other
        cases other
    | sell =>
      obtain ⟨ledger, opened⟩ := done.sell side
      obtain ⟨-, holderId, position, held, mine, added, single, others⟩ := opened.added untakenShares noShares
      refine ⟨⟨?_, fun _ => ⟨by rw [ledger]; exact noFunds, _, single, ⟨rfl, ?_⟩, position, held, mine⟩, filled,
        fun _ => positive⟩, fun o _ => by rw [ledger], others, ?_⟩
      · intro other
        rw [show (orderRow placement sequence).side = placement.side from rfl, side] at other
        cases other
      · simp [orderReservation, Reservation.unconsumed, orderRow]
      · intro r member
        rw [added] at member
        rcases List.mem_append.mp member with old | new
        · exact backing.shareKeys r old
        · rw [List.mem_singleton.mp new]
          exact ⟨rfl, rfl⟩
  refine ⟨done.positions.agrees backing.agrees, ?_, ?_, ?_, keys, ?_, ?_⟩
  · intro o order found
    rw [Table.get?_of_append done.orders] at found
    by_cases last : o = c.exchange.orders.size
    · rw [if_pos last] at found
      cases found
      rw [last]
      exact backed
    · rw [if_neg last] at found
      exact (backing.orders o order found).kept carried (keptFunds o last) (keptShares o last) (total o)
  · intro o outside
    rw [keptFunds o (by omega)]
    exact backing.noFunds o (by omega)
  · intro o outside
    rw [keptShares o (by omega)]
    exact backing.noShares o (by omega)
  · intro fill member
    rw [done.fills] at member
    have := backing.fills fill member
    omega
  · intro mint member
    rw [done.mints] at member
    have := backing.mints mint member
    omega

end Steps

end VerdictVaut
