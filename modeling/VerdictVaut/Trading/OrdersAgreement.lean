import VerdictVaut.Trading.Agreement

set_option autoImplicit false

-- placing, cancelling and expiring orders, with and without rounding
namespace VerdictVaut.Core.Ready

open Relational Relational.Tx VerdictVaut.Core Decimals

variable {places digits : ℕ} {most more : ℚ} {c : Core}

section Ending

theorem ended (ready : c.Ready places digits most more) {orderId : Nat} {order : Order} {status : OrderStatus} {t : Table Order}
    (found : c.exchange.orders.get? orderId = some order) (finished : status = .cancelled ∨ status = .expired)
    (updated : c.exchange.orders.update orderId { order with status := status } = .ok t) :
    (ordersField.set t c).Ready places digits most more := by
  obtain ⟨-, -, -, rows⟩ := Table.update_ok updated
  refine ⟨ready.funds, ready.shares, fun other member => ?_⟩
  change other ∈ t.rows at member
  rw [rows] at member
  rcases List.mem_or_eq_of_mem_set member with old | rfl
  next => exact ready.orders other old
  next =>
    refine ⟨(ready.orders order (Table.get?_mem found)).1, fun rests => ?_⟩
    rcases finished with rfl | rfl <;> simp [Order.isExecutable] at rests

theorem cancel_agree (ready : c.Ready places digits most more) (room : Room (places + digits) more)
    (userId orderId : Nat) :
    Agree (fun _ c' => c'.Ready places digits most more) (Rounded.OrdersService.cancel userId orderId)
      (OrdersService.cancel userId orderId) c := by
  refine .read (.orThrow fun order found => .throwIf fun _ => .throwIf fun _ => .update fun t updated => ?_)
  exact (releaseOrder_agree (ready.ended found (.inl rfl) updated) room orderId order.side).weaken fun _ _ done => done.1

theorem expireOrder_agree (ready : c.Ready places digits most more) (room : Room (places + digits) more)
    (orderId : Nat) (order : Order) :
    Agree (fun _ c' => c'.Ready places digits most more) (Rounded.OrdersService.expireOrder orderId order)
      (OrdersService.expireOrder orderId order) c := by
  refine .read ?_
  cases found : c.exchange.orders.get? orderId with
  | none => exact .pure ready
  | some current =>
    refine .ite (fun _ => .update fun t updated => ?_) fun _ => .pure ready
    exact (releaseOrder_agree (ready.ended found (.inr rfl) updated) room orderId order.side).weaken fun _ _ done => done.1

theorem expireOrders_agree (ready : c.Ready places digits most more) (room : Room (places + digits) more)
    (resting : List (Nat × Order)) :
    Agree (fun _ c' => c'.Ready places digits most more) (Rounded.OrdersService.expireOrders resting)
      (OrdersService.expireOrders resting) c := by
  induction resting generalizing c with
  | nil => exact .pure ready
  | cons first rest ih =>
    exact (expireOrder_agree ready room first.1 first.2).bind fun _ _ _ ready' => ih ready'

theorem expireRestingOrders_agree (ready : c.Ready places digits most more) (room : Room (places + digits) more)
    (marketId : Nat) :
    Agree (fun _ c' => c'.Ready places digits most more) (Rounded.OrdersService.expireRestingOrdersForMarket marketId)
      (OrdersService.expireRestingOrdersForMarket marketId) c :=
  .read ((expireOrders_agree ready room _).bind fun _ _ _ ready' => .pure ready')

end Ending

section Placing

open OrdersService (Placement)

theorem addend_nonneg {orders : Table Order} {order : Order} (member : order ∈ orders.rows) :
    0 ≤ order.remainingQuantity * order.price.getD 0 := by
  have valid := orders.checked order member
  refine mul_nonneg (Order.bounds valid).2.1 ?_
  cases priced : order.price with
  | none => exact le_rfl
  | some price => exact (Order.price_between valid priced).1.le

theorem price_figure (orders : OrdersFit places digits most c.exchange.orders) {order : Order}
    (member : order ∈ c.exchange.orders.rows) : Figure digits 1 (order.price.getD 0) := by
  have valid := c.exchange.orders.checked order member
  cases priced : order.price with
  | none => exact .zero zero_le_one
  | some price =>
    obtain ⟨low, high⟩ := Order.price_between valid priced
    have fits := (orders order member).1
    rw [priced] at fits
    exact .of_le fits low.le high.le

theorem exposed (orders : OrdersFit places digits most c.exchange.orders) (room : Room (places + digits) most)
    {order : Order} (member : order ∈ c.exchange.orders.rows) (rests : order.isExecutable = true) :
    Decimal.times order.remainingQuantity (order.price.getD 0) = order.remainingQuantity * order.price.getD 0 ∧
      Places (places + digits) (order.remainingQuantity * order.price.getD 0) ∧
        0 ≤ order.remainingQuantity * order.price.getD 0 := by
  -- an order of the exposure: what it adds is computed without rounding, and is not negative
  have remaining := ((orders order member).2 rests).remaining (c.exchange.orders.checked order member)
  have product := remaining.mul (price_figure orders member)
  rw [mul_one] at product
  exact ⟨room.times product, product.fits, addend_nonneg member⟩

theorem restingExposure_figure (orders : OrdersFit places digits most c.exchange.orders)
    (room : Room (places + digits) most) {marketId outcomeId : Nat}
    (below : OrderRiskValidator.restingExposure c.exchange.orders marketId outcomeId ≤ most) :
    Figure (places + digits) most
        (OrderRiskValidator.restingExposure c.exchange.orders marketId outcomeId) ∧
      Rounded.OrderRiskValidator.restingExposure c.exchange.orders marketId outcomeId =
        OrderRiskValidator.restingExposure c.exchange.orders marketId outcomeId := by
  have each : ∀ order ∈ c.exchange.orders.rows.filter (fun order => decide (order.marketId = marketId) &&
      decide (order.outcomeId = outcomeId) && decide (order.side = .buy) && order.isExecutable),
      order ∈ c.exchange.orders.rows ∧ order.isExecutable = true := by
    intro order member
    obtain ⟨listed, holds⟩ := List.mem_filter.mp member
    simp only [Bool.and_eq_true] at holds
    exact ⟨listed, holds.2⟩
  constructor
  next =>
    refine .of_le (Places.sum fun amount member => ?_) (List.sum_nonneg fun amount member => ?_) below
    next =>
      obtain ⟨order, listed, rfl⟩ := List.mem_map.mp member
      exact (exposed orders room (each order listed).1 (each order listed).2).2.1
    next =>
      obtain ⟨order, listed, rfl⟩ := List.mem_map.mp member
      exact addend_nonneg (each order listed).1
  next =>
    unfold Rounded.OrderRiskValidator.restingExposure
    rw [List.map_congr_left fun order member => (exposed orders room (each order member).1 (each order member).2).1]
    refine (room.foldl_plus ⟨0, by simp⟩ (fun amount member => ?_) le_rfl ?_).trans (zero_add _)
    next =>
      obtain ⟨order, listed, rfl⟩ := List.mem_map.mp member
      exact (exposed orders room (each order listed).1 (each order listed).2).2
    next => exact (zero_add _).trans_le below

structure Sized (places digits : ℕ) (most : ℚ) (placement : Placement) : Prop where
  quantity : Figure places most placement.quantity
  price : Figure digits 1 placement.price

structure Placeable (places digits : ℕ) (most : ℚ) (c : Core) (placement : Placement) : Prop
    extends Sized places digits most placement where
  -- an order of such a size, in a book that is not too deep
  exposure : placement.side = .buy →
    OrderRiskValidator.restingExposure c.exchange.orders placement.marketId placement.outcomeId ≤ most

instance {placement : Placement} : Decidable (Placeable places digits most c placement) :=
  decidable_of_iff (Figure places most placement.quantity ∧ Figure digits 1 placement.price ∧ (placement.side = .buy →
      OrderRiskValidator.restingExposure c.exchange.orders placement.marketId placement.outcomeId ≤ most))
    ⟨fun all => ⟨⟨all.1, all.2.1⟩, all.2.2⟩, fun p => ⟨p.quantity, p.price, p.exposure⟩⟩

theorem Sized.cost {placement : Placement} (sized : Sized places digits most placement) :
    Figure (places + digits) most (placement.quantity * placement.price) := by
  have product := sized.quantity.mul sized.price
  rwa [mul_one] at product

section Checks

variable {placement : Placement}

def checked (placement : Placement) : OrderRiskValidator.Input where
  userId := placement.userId
  marketId := placement.marketId
  outcomeId := placement.outcomeId
  side := placement.side
  price := placement.price
  quantity := placement.quantity

theorem checkMarketExposure_agree (ready : c.Ready places digits most most) (placeable : Placeable places digits most c placement)
    (room : Room (places + digits) (most + most)) :
    Agree (fun _ _ => True) (Rounded.OrderRiskValidator.checkMarketExposure (checked placement))
      (OrderRiskValidator.checkMarketExposure (checked placement)) c := by
  have one := room.smaller (by linarith [placeable.quantity.nonneg] : most ≤ most + most)
  refine .ite (fun _ => .pure trivial) fun buys => .getOrThrow fun listing _ => .read ?_
  obtain ⟨figure, same⟩ := restingExposure_figure ready.orders one (placeable.exposure (not_not.mp buys))
  have sum : Decimal.plus (Rounded.OrderRiskValidator.restingExposure c.exchange.orders (checked placement).marketId
      (checked placement).outcomeId) (Decimal.times (checked placement).quantity (checked placement).price) =
      OrderRiskValidator.restingExposure c.exchange.orders placement.marketId placement.outcomeId +
        placement.quantity * placement.price := by
    change Decimal.plus (Rounded.OrderRiskValidator.restingExposure c.exchange.orders placement.marketId
      placement.outcomeId) (Decimal.times placement.quantity placement.price) = _
    rw [same, one.times placeable.cost, room.plus (figure.add placeable.cost)]
  rw [sum]
  exact .self fun _ _ _ => trivial

theorem held_figure (ready : c.Ready places digits most more) (nonneg : 0 ≤ more) (input : OrderRiskValidator.Input) :
    Figure places more (OrderRiskValidator.held c input) := by
  unfold OrderRiskValidator.held
  cases located : c.exchange.positions.find? (ExecutionCoordinator.isPosition input.userId input.marketId input.outcomeId) with
  | none => exact .zero nonneg
  | some found => exact (ready.shares.small.holders _ (Table.get?_mem (Table.find?_some located).1) trivial).1

theorem validate_agree (ready : c.Ready places digits most most) (placeable : Placeable places digits most c placement)
    (room : Room (places + digits) (most + most)) :
    Agree (fun _ _ => True) (Rounded.OrderRiskValidator.validate (checked placement))
      (OrderRiskValidator.validate (checked placement)) c := by
  have nonneg := placeable.quantity.nonneg
  have one := room.smaller (by linarith : most ≤ most + most)
  have cost : Decimal.times (checked placement).quantity (checked placement).price =
    (checked placement).quantity * (checked placement).price := one.times placeable.cost
  refine .read ?_
  rw [cost]
  refine .after fun _ c₁ passed => .after fun _ c₂ passed' => ?_
  obtain rfl := OrderRiskValidator.checkCap_ok passed
  obtain rfl := OrderRiskValidator.checkCap_ok passed'
  refine .find? ?_
  have sum := (room.coarser (Nat.le_add_right _ _)).plus ((ready.held_figure nonneg (checked placement)).add placeable.quantity)
  change Agree _ (OrderRiskValidator.checkCap _ (Decimal.plus (OrderRiskValidator.held c₂ (checked placement))
    placement.quantity) _ >>= _) (OrderRiskValidator.checkCap _ (OrderRiskValidator.held c₂ (checked placement) +
    placement.quantity) _ >>= _) c₂
  rw [sum]
  refine .after fun _ c₃ passed'' => ?_
  obtain rfl := OrderRiskValidator.checkCap_ok passed''
  exact checkMarketExposure_agree ready placeable room

end Checks

section Funding

theorem reserveFunds_agree (ready : c.Ready places digits most most) (room : Room (places + digits) (most + most))
    {request : Ledger.ReserveFunds} (figure : Figure (places + digits) most request.input.amount)
    {assetId : Nat} {asset : Asset} (settles : c.ledger.assets.find? Asset.isSettlementCurrency = some (assetId, asset))
    (named : request.assetSymbol = asset.symbol) :
    Agree (fun _ _ => True) (Rounded.reserve request) (Ledger.reserve request) c.ledger := by
  refine .throwIf fun _ => .after fun found l looked => ?_
  obtain ⟨currency, row⟩ := found
  obtain ⟨rfl, found⟩ := Ledger.assetBySymbol_ok looked
  -- symbols are unique, so that the account is in the settlement currency
  rw [named, ExecutionCoordinator.named_settlement settles] at found
  cases found
  refine .after fun pair l₁ resolved => ?_
  obtain ⟨accountId, account⟩ := pair
  obtain ⟨accounts, rfl, held, -, ofAsset, opened⟩ := Ledger.resolveAccount_ok resolved
  have funds : Reserved.Ready (InCurrency c.ledger.assets) (places + digits) most
      { c.ledger.funds with holders := accounts } := by
    rcases opened with rfl | appended
    next => exact ready.funds
    next => exact ready.funds.insertHolder appended ⟨.zero figure.nonneg, .zero figure.nonneg⟩
  have mine : InCurrency c.ledger.assets account := ⟨asset, by rw [ofAsset]; exact settles⟩
  exact (Agree.zoom (Reserved.earmark_agree (inCurrency_steady _) room funds held mine figure)).weaken fun _ _ _ => trivial

theorem reserveShares_agree (ready : c.Ready places digits most most) (room : Room places (most + most))
    {request : PositionReservations.ReserveShares} (figure : Figure places most request.input.amount) :
    Agree (fun _ _ => True) (Rounded.PositionReservations.reserve request) (PositionReservations.reserve request) c := by
  refine .throwIf fun _ => .after fun pair c₁ resolved => ?_
  obtain ⟨positionId, position⟩ := pair
  obtain ⟨positions, rfl, held, -, opened⟩ := ExecutionCoordinator.upsertPosition_ok resolved
  have shares : Reserved.Ready AnyPosition places most { c.exchange.shares with holders := positions } := by
    rcases opened with rfl | appended
    next => exact ready.shares
    next => exact ready.shares.insertHolder appended ⟨.zero figure.nonneg, .zero figure.nonneg⟩
  exact (Agree.zoom (Reserved.earmark_agree anyPosition_steady room shares held trivial figure)).weaken fun _ _ _ => trivial

variable {placement : Placement}

theorem fundOrder_agree (ready : c.Ready places digits most most) (placeable : Sized places digits most placement)
    (room : Room (places + digits) (most + most)) (funded : PlacementFits c placement) (orderId : Nat) :
    Agree (fun _ _ => True) (Rounded.OrdersService.fundOrder zeroFeeCalculator placement orderId)
      (OrdersService.fundOrder zeroFeeCalculator placement orderId) c := by
  have one := room.smaller (by linarith [placeable.quantity.nonneg] : most ≤ most + most)
  unfold Rounded.OrdersService.fundOrder OrdersService.fundOrder
  cases side : placement.side with
  | buy =>
    obtain ⟨assetId, asset, settles, named⟩ := funded side
    have cost : Decimal.plus (Decimal.times placement.quantity placement.price) 0 =
        placement.quantity * placement.price + 0 := by
      rw [one.times placeable.cost]
      exact one.plus (by rw [add_zero]; exact placeable.cost)
    have figure : Figure (places + digits) most (placement.quantity * placement.price + 0) := by
      rw [add_zero]
      exact placeable.cost
    change Agree _ (orThrow _ _ >>= fun symbol => zoom ledgerField (Rounded.reserve
      ⟨_, symbol, ⟨Decimal.plus (Decimal.times placement.quantity placement.price) 0, _, _, _⟩⟩) >>= _) _ c
    rw [cost]
    refine .orThrow fun symbol present => ?_
    rw [named] at present
    cases present
    refine Agree.bind (Agree.zoom (reserveFunds_agree ready room ?_ settles rfl)) fun _ _ _ _ => .pure trivial
    exact figure
  | sell =>
    refine Agree.bind (reserveShares_agree ready (room.coarser (Nat.le_add_right _ _)) ?_) fun _ _ _ _ => .pure trivial
    exact placeable.quantity

theorem insertion_agree (ready : c.Ready places digits most most) (placeable : Placeable places digits most c placement)
    (room : Room (places + digits) (most + most)) (now : Time) (sequence : Nat) :
    Agree (fun _ c' => ∃ t, c' = ordersField.set t c ∧
        t.rows = c.exchange.orders.rows ++ [OrdersService.orderRow placement sequence])
      (do
        let currentMarket ← getOrThrow marketsField placement.marketId
        OrdersService.checkMarketOpen now currentMarket
        Rounded.OrderRiskValidator.validate (checked placement)
        let quantity ← Rounded.write placement.quantity
        Tx.create ordersField (OrdersService.orderRow { placement with quantity := quantity } sequence))
      (do
        let currentMarket ← getOrThrow marketsField placement.marketId
        OrdersService.checkMarketOpen now currentMarket
        OrderRiskValidator.validate (checked placement)
        Tx.create ordersField (OrdersService.orderRow placement sequence)) c := by
  have tight := (room.coarser (Nat.le_add_right _ _)).smaller (by linarith [placeable.quantity.nonneg] : most ≤ most + most)
  refine .getOrThrow fun market _ => .after fun _ c₁ opened => ?_
  obtain ⟨rfl, -⟩ := OrdersService.checkMarketOpen_ok opened
  refine (validate_agree ready placeable room).bind fun _ c₂ validated _ => ?_
  obtain rfl := OrderRiskValidator.validate_ok validated
  refine tight.write placeable.quantity (.self fun orderId c' done => ?_)
  obtain ⟨t, inserted, rfl, rfl⟩ := run_create_ok.mp done
  obtain ⟨-, -, rows⟩ := Table.insert_ok inserted
  exact ⟨t, rfl, rows⟩

theorem create_agree (ready : c.Ready places digits most most) (placeable : Placeable places digits most c placement)
    (room : Room (places + digits) (most + most)) (funded : PlacementFits c placement) (now : Time)
    (sequence : Nat) :
    Agree (fun _ _ => True) (Rounded.OrdersService.create zeroFeeCalculator now placement sequence)
      (OrdersService.create zeroFeeCalculator now placement sequence) c := by
  have nonneg := placeable.quantity.nonneg
  refine Agree.bind (Agree.createIdempotent (P := fun found c' => found.2 = false → c'.Ready places digits most most ∧
    PlacementFits c' placement) (insertion_agree ready placeable room now sequence).same ?_ ?_) fun found c₁ _ placed => ?_
  next =>
    intro orderId c₁ done _
    obtain ⟨t, rfl, rows⟩ := (insertion_agree ready placeable room now sequence).holds orderId c₁ done
    refine ⟨⟨ready.funds, ready.shares, fun order member => ?_⟩, funded⟩
    change order ∈ t.rows at member
    rw [rows] at member
    rcases List.mem_append.mp member with old | new
    next => exact ready.orders order old
    next =>
      cases List.mem_singleton.mp new
      exact ⟨placeable.price.fits, fun _ => ⟨placeable.quantity, ⟨0, by simp [OrdersService.orderRow]⟩⟩⟩
  next =>
    intro orderId c₁ _ new
    cases new
  next =>
    obtain ⟨orderId, existed⟩ := found
    refine .ite (fun _ => .self fun _ _ _ => trivial) fun new => ?_
    obtain ⟨ready₁, funded₁⟩ := placed (by simpa using new)
    exact (fundOrder_agree ready₁ placeable.toSized room funded₁ orderId).bind fun _ _ _ _ => .pure trivial

end Funding

end Placing

end VerdictVaut.Core.Ready
