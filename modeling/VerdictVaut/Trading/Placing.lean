import VerdictVaut.Trading.Applied

set_option autoImplicit false

namespace VerdictVaut

open Relational Relational.Tx VerdictVaut.Core ExecutionCoordinator

namespace OrderRiskValidator

def riskLimit (c : Core) (userId : Nat) : Option RiskLimit :=
  (c.riskLimits.find? fun limit => decide (limit.userId = userId)).map Prod.snd

def held (c : Core) (input : Input) : ℚ :=
  ((c.exchange.positions.find? (isPosition input.userId input.marketId input.outcomeId)).map
    fun found => found.2.quantity).getD 0

structure Admits (c : Core) (market : Market) (input : Input) : Prop where
  -- the order keeps within every configured cap, in this state
  quantity : ∀ cap, (riskLimit c input.userId).bind RiskLimit.maxOrderQuantity = some cap → input.quantity ≤ cap
  notional : ∀ cap, (riskLimit c input.userId).bind RiskLimit.maxOrderNotional = some cap →
    input.quantity * input.price ≤ cap
  position : input.side = .buy → ∀ cap, (riskLimit c input.userId).bind RiskLimit.maxPositionSize = some cap →
    held c input + input.quantity ≤ cap
  exposure : input.side = .buy → ∀ cap, market.maxExposure = some cap →
    restingExposure c.exchange.orders input.marketId input.outcomeId + input.quantity * input.price ≤ cap

variable {c c' : Core} {input : Input} {market : Market}

theorem checkCap_ok {cap : Option ℚ} {value : ℚ} {message : String} {u : Unit}
    (done : (checkCap cap value message).run c = .ok (u, c')) : c' = c := by
  cases cap with
  | none =>
    cases done
    rfl
  | some limit =>
    rw [checkCap, run_throwIf_ok] at done
    exact done.2.symm

theorem validate_ok {input : Input} {u : Unit}
    (done : (validate input).run c = .ok (u, c')) : c' = c := by
  simp only [validate, checkMarketExposure, run_bind_ok, run_read, run_find?,
    Except.ok.injEq, Prod.mk.injEq] at done
  obtain ⟨_, _, ⟨-, rfl⟩, _, _, quantity, _, _, notional, _, _, ⟨-, rfl⟩, _, _, size, exposure⟩ := done
  obtain rfl := checkCap_ok quantity
  obtain rfl := checkCap_ok notional
  obtain rfl := checkCap_ok size
  rw [run_ite] at exposure
  split at exposure
  · cases exposure
    rfl
  · simp only [run_bind_ok, run_getOrThrow_ok, run_read, Except.ok.injEq, Prod.mk.injEq] at exposure
    obtain ⟨_, _, ⟨-, rfl⟩, _, _, ⟨-, rfl⟩, capped⟩ := exposure
    exact checkCap_ok capped

theorem run_checkCap {cap : Option ℚ} {value : ℚ} {message : String} :
    (checkCap cap value message).run c = .ok ((), c) ↔ ∀ limit, cap = some limit → value ≤ limit := by
  cases cap with
  | none => simp [checkCap]
  | some limit => simp [checkCap]

theorem run_checkMarketExposure (found : c.exchange.markets.get? input.marketId = some market) :
    (checkMarketExposure input).run c = .ok ((), c) ↔ (input.side = .buy → ∀ cap, market.maxExposure = some cap →
      restingExposure c.exchange.orders input.marketId input.outcomeId + input.quantity * input.price ≤ cap) := by
  unfold checkMarketExposure
  rw [run_ite]
  split
  next sell => simp [sell]
  next buy =>
    rw [not_not] at buy
    rw [run_bind_of_ok (run_getOrThrow_ok.mpr ⟨found, rfl⟩), run_bind_of_ok (run_read _ _), run_checkCap]
    simp only [buy, true_implies]

theorem run_validate (found : c.exchange.markets.get? input.marketId = some market) :
    (validate input).run c = .ok ((), c) ↔ Admits c market input := by
  have unchanged : ∀ {cap : Option ℚ} {value : ℚ} {message : String} (u : Unit) (c' : Core),
      (checkCap cap value message).run c = .ok (u, c') → c' = c := fun _ _ done => checkCap_ok done
  unfold validate
  rw [run_bind_of_ok (run_read _ _), run_bind_check unchanged, run_bind_check unchanged, run_bind_of_ok run_find?,
    run_bind_check unchanged, run_checkCap, run_checkCap, run_checkCap, run_checkMarketExposure found]
  constructor
  · rintro ⟨quantity, notional, position, exposure⟩
    refine ⟨quantity, notional, fun buy => ?_, exposure⟩
    rw [if_pos buy] at position
    exact position
  · intro admits
    refine ⟨admits.quantity, admits.notional, ?_, admits.exposure⟩
    split
    next buy => exact admits.position buy
    next => simp

end OrderRiskValidator

namespace OrdersService

variable {c c' : Core} {placement : Placement} {now : Time} {sequence orderId : Nat}

section Checks

theorem checkMarketOpen_ok {market : Market} {u : Unit} (done : (checkMarketOpen now market).run c = .ok (u, c')) :
    c' = c ∧ market.isExecutable now = true := by
  simp only [checkMarketOpen, run_bind_ok, run_throwIf_ok, not_not] at done
  obtain ⟨_, _, ⟨opened, rfl⟩, inTime, rfl⟩ := done
  exact ⟨rfl, by simp [Market.isExecutable, opened, inTime]⟩

theorem checkTrader_ok {userId : Nat} {u : Unit} (done : (checkTrader userId).run c = .ok (u, c')) : c' = c := by
  simp only [checkTrader, run_bind_ok, run_read, run_orThrow_ok, run_throwIf_ok, Except.ok.injEq, Prod.mk.injEq] at done
  obtain ⟨_, _, ⟨-, rfl⟩, _, _, ⟨-, rfl⟩, -, rfl⟩ := done
  rfl

theorem checkListing_ok {marketId outcomeId : Nat} {u : Unit}
    (done : (checkListing now marketId outcomeId).run c = .ok (u, c')) :
    c' = c ∧ ∃ outcome, c.exchange.outcomes.get? outcomeId = some outcome ∧ outcome.marketId = marketId := by
  simp only [checkListing, run_bind_ok, run_read, run_orThrow_ok, run_throwIf_ok, Except.ok.injEq, Prod.mk.injEq,
    not_not] at done
  obtain ⟨_, _, ⟨-, rfl⟩, market, _, ⟨-, rfl⟩, _, c₁, opened, _, _, ⟨rfl, rfl⟩, mine, rfl⟩ := done
  obtain ⟨rfl, -⟩ := checkMarketOpen_ok opened
  simp only [Option.map_eq_some_iff] at mine
  exact ⟨rfl, mine⟩

theorem checkAmounts_ok {dto : CreateOrderDto} {price : ℚ} (done : (checkAmounts dto).run c = .ok (price, c')) :
    c' = c := by
  simp only [checkAmounts, run_bind_ok, run_orThrow_ok, run_throwIf_ok, run_pure, Except.ok.injEq,
    Prod.mk.injEq] at done
  obtain ⟨_, _, ⟨-, rfl⟩, _, _, ⟨-, rfl⟩, _, _, ⟨-, rfl⟩, _, _, ⟨-, rfl⟩, _, _, ⟨-, rfl⟩, -, rfl⟩ := done
  rfl

theorem fundingSymbol_ok {side : OrderSide} {symbol : Option String}
    (done : (fundingSymbol side).run c = .ok (symbol, c')) :
    c' = c ∧ (side = .buy → ∃ assetId asset,
      c.ledger.assets.find? Asset.isSettlementCurrency = some (assetId, asset) ∧ symbol = some asset.symbol) := by
  cases side with
  | sell =>
    cases done
    exact ⟨rfl, fun absurd => by cases absurd⟩
  | buy =>
    simp only [fundingSymbol, run_bind_ok, run_pure, Except.ok.injEq, Prod.mk.injEq] at done
    obtain ⟨⟨assetId, asset⟩, _, looked, rfl, rfl⟩ := done
    obtain ⟨rfl, named⟩ := settlementAsset_ok looked
    exact ⟨rfl, fun _ => ⟨assetId, asset, named, rfl⟩⟩

end Checks

section Placing

def Placement.riskInput (placement : Placement) : OrderRiskValidator.Input where
  userId := placement.userId
  marketId := placement.marketId
  outcomeId := placement.outcomeId
  side := placement.side
  price := placement.price
  quantity := placement.quantity

def orderReservation (holderId : Nat) (amount : ℚ) (orderId : Nat) : Reservation where
  holderId := holderId
  amount := amount
  consumedAmount := 0
  status := .active
  referenceType := .order
  referenceId := orderId
  idempotencyKey := ⟨"order-reserve", [orderId]⟩

def Opened {H : Type} [Holder H] (s s' : Reserved H) (orderId : Nat) (amount : ℚ) (owned : H → Prop) : Prop :=
  -- the reservation behind a new order, on a holder that belongs to it, current its key was taken
  (∃ r ∈ s.reservations.rows, r.idempotencyKey = ⟨"order-reserve", [orderId]⟩) ∨
    (0 < amount ∧ ∃ holderId holder, s'.holders.get? holderId = some holder ∧ owned holder ∧
      s'.reservations.rows = s.reservations.rows ++ [orderReservation holderId amount orderId])

theorem Opened.added {H : Type} [Holder H] {s s' : Reserved H} {amount : ℚ} {owned : H → Prop}
    (opened : Opened s s' orderId amount owned)
    (untaken : ∀ r ∈ s.reservations.rows, r.idempotencyKey ≠ ⟨"order-reserve", [orderId]⟩)
    (none : s.forRef .order orderId = []) :
    0 < amount ∧ ∃ holderId holder, s'.holders.get? holderId = some holder ∧ owned holder ∧
      s'.reservations.rows = s.reservations.rows ++ [orderReservation holderId amount orderId] ∧
      s'.forRef .order orderId = [orderReservation holderId amount orderId] ∧
      ∀ o, o ≠ orderId → s'.forRef .order o = s.forRef .order o := by
  rcases opened with ⟨r, member, key⟩ | ⟨positive, holderId, holder, held, mine, added⟩
  · exact absurd key (untaken r member)
  · refine ⟨positive, holderId, holder, held, mine, added, ?_, ?_⟩
    · rw [Reserved.forRef_of_append added, none]
      simp [Reserved.isFor, orderReservation]
    · intro o other
      rw [Reserved.forRef_of_append added]
      simp [Reserved.isFor, orderReservation, Ne.symm other]

structure Placed (c c' : Core) (placement : Placement) (now : Time) (sequence : Nat) : Prop where
  static : Static c c'
  fills : c'.exchange.fills = c.exchange.fills
  mints : c'.exchange.mints = c.exchange.mints
  market : ∃ market, c.exchange.markets.get? placement.marketId = some market ∧ market.isExecutable now = true
  admitted : ∀ market, c.exchange.markets.get? placement.marketId = some market →
    OrderRiskValidator.Admits c market placement.riskInput
  orders : c'.exchange.orders.rows = c.exchange.orders.rows ++ [orderRow placement sequence]
  ledger : Ledger.Moved tradingKinds c.ledger c'.ledger
  transactions : c'.ledger.transactions = c.ledger.transactions
  collateral : ∀ ref asset, Ledger.balanceOf c'.ledger ref asset = Ledger.balanceOf c.ledger ref asset
  positions : Rebalanced c.exchange.shares c'.exchange.shares
    (fun t => t = (placement.userId, placement.marketId, placement.outcomeId, none)) (fun _ => 0)
  buy : placement.side = .buy → c'.exchange.shares = c.exchange.shares ∧
    ∃ symbol assetId asset, placement.settlementAssetSymbol = some symbol ∧
      c.ledger.assets.find? (fun asset => decide (asset.symbol = symbol)) = some (assetId, asset) ∧
      ∃ buffer, 0 ≤ buffer ∧
        Opened c.ledger.funds c'.ledger.funds c.exchange.orders.size (placement.quantity * placement.price + buffer)
          fun account => account.owner = .user placement.userId ∧ account.assetId = assetId
  sell : placement.side = .sell → c'.ledger = c.ledger ∧
    Opened c.exchange.shares c'.exchange.shares c.exchange.orders.size placement.quantity
      fun position => isPosition placement.userId placement.marketId placement.outcomeId position = true

theorem reserveShares_ok {request : PositionReservations.ReserveShares} {result : Nat × Bool}
    (done : (PositionReservations.reserve request).run c = .ok (result, c'))
    (reference : request.input.referenceType = .order)
    (key : request.input.idempotencyKey = ⟨"order-reserve", [request.input.referenceId]⟩) :
    ∃ shares, c' = sharesField.set shares c ∧
      Rebalanced c.exchange.shares shares
        (fun t => t = (request.userId, request.marketId, request.outcomeId, none)) (fun _ => 0) ∧
      Opened c.exchange.shares shares request.input.referenceId request.input.amount
        fun position => isPosition request.userId request.marketId request.outcomeId position = true := by
  simp only [PositionReservations.reserve, run_bind_ok, run_throwIf_ok] at done
  obtain ⟨_, _, ⟨positive, rfl⟩, ⟨positionId, position⟩, _, upserted, rest⟩ := done
  obtain ⟨positions, rfl, found, mine, rows⟩ := upsertPosition_ok upserted
  rw [run_zoom_ok] at rest
  obtain ⟨shares, marked, rfl⟩ := rest
  have opened := rebalanced_opened rows
  have agrees : ({ c.exchange.shares with holders := positions } : Reserved Position).Agrees → shares.Agrees :=
    fun agrees => Reserved.earmark_agrees agrees found marked
  rcases Reserved.earmark_ok marked with ⟨-, rfl, r, position, same⟩ | ⟨-, -, -, -, -, added, inside, holders⟩
  · exact ⟨_, rfl, opened, .inl ⟨r, Table.get?_mem position, same.trans key⟩⟩
  · refine ⟨shares, rfl, ?_, .inr ⟨not_le.mp positive, positionId, _,
      (Table.get?_of_set holders inside positionId).trans (if_pos rfl), mine, ?_⟩⟩
    · refine (opened.trans (rebalanced_of_bare (Reserved.bare_of_set found holders) agrees)).weaken ?_ fun w => ?_
      · intro t new
        exact new.resolve_right id
      · exact add_zero 0
    · rw [added, Reserved.ReserveInput.row, reference, key]
      rfl

theorem fundBuy_ok {fees : FeeCalculator} {u : Unit} (side : placement.side = .buy)
    (nonneg : ∀ context : FeeContext, 0 < context.quantity → 0 ≤ fees.estimateBuyReserveFee context)
    (positive : 0 < placement.quantity) (done : (fundOrder fees placement orderId).run c = .ok (u, c')) :
    ∃ l, c' = ledgerField.set l c ∧ Ledger.Moved tradingKinds c.ledger l ∧
      l.transactions = c.ledger.transactions ∧
      (∀ ref asset, Ledger.balanceOf l ref asset = Ledger.balanceOf c.ledger ref asset) ∧
      ∃ symbol assetId asset, placement.settlementAssetSymbol = some symbol ∧
        c.ledger.assets.find? (fun asset => decide (asset.symbol = symbol)) = some (assetId, asset) ∧
        ∃ buffer, 0 ≤ buffer ∧ Opened c.ledger.funds l.funds orderId (placement.quantity * placement.price + buffer)
          fun account => account.owner = .user placement.userId ∧ account.assetId = assetId := by
  simp only [fundOrder, side, run_bind_ok, run_orThrow_ok, run_zoom_ok, run_pure] at done
  obtain ⟨symbol, _, ⟨named, rfl⟩, ⟨reservationId, existed⟩, _, ⟨l, reserved, rfl⟩, same⟩ := done
  cases same
  obtain ⟨moved, balances, transactions, assetId, asset, found, how⟩ := Ledger.reserve_ok tradingKinds reserved rfl rfl
  refine ⟨l, rfl, moved, transactions, balances, symbol, assetId, asset, named, found,
    fees.estimateBuyReserveFee ⟨placement.marketId, placement.outcomeId, placement.price, placement.quantity⟩, nonneg _ positive, ?_⟩
  rcases how with ⟨-, r, member, key⟩ | ⟨-, positive, holderId, account, held, owner, ofAsset, added⟩
  · exact .inl ⟨r, member, key⟩
  · exact .inr ⟨positive, holderId, account, held, ⟨owner, ofAsset⟩, added⟩

theorem fundSell_ok {fees : FeeCalculator} {u : Unit} (side : placement.side = .sell)
    (done : (fundOrder fees placement orderId).run c = .ok (u, c')) :
    ∃ shares, c' = sharesField.set shares c ∧
      Rebalanced c.exchange.shares shares
        (fun t => t = (placement.userId, placement.marketId, placement.outcomeId, none)) (fun _ => 0) ∧
      Opened c.exchange.shares shares orderId placement.quantity
        fun position => isPosition placement.userId placement.marketId placement.outcomeId position = true := by
  simp only [fundOrder, side, run_bind_ok, run_pure] at done
  obtain ⟨_, _, reserved, same⟩ := done
  cases same
  exact reserveShares_ok reserved rfl rfl

theorem create_ok {fees : FeeCalculator}
    (nonneg : ∀ context : FeeContext, 0 < context.quantity → 0 ≤ fees.estimateBuyReserveFee context)
    (done : (create fees now placement sequence).run c = .ok (orderId, c')) :
    (c' = c ∧ ∃ order, c.exchange.orders.get? orderId = some order) ∨
      (orderId = c.exchange.orders.size ∧ Placed c c' placement now sequence) := by
  -- the funding transaction returns the order that has the client's id, or places a new one
  simp only [create, run_bind_ok] at done
  obtain ⟨⟨i, existed⟩, c₁, created, rest⟩ := done
  rcases run_createIdempotent_ok created with ⟨rfl, body⟩ | ⟨rfl, looked, -⟩
  · right
    simp only [run_bind_ok, run_getOrThrow_ok, run_create_ok] at body
    obtain ⟨market, _, ⟨marketFound, rfl⟩, _, _, opened, _, _, valid, orders, inserted, rfl, rfl⟩ := body
    obtain ⟨same, executable⟩ := checkMarketOpen_ok opened
    have same' := OrderRiskValidator.validate_ok valid
    rw [same', same] at inserted rest
    rw [same', same] at valid
    have admits : ∀ listed, c.exchange.markets.get? placement.marketId = some listed →
        OrderRiskValidator.Admits c listed placement.riskInput := by
      intro listed listedFound
      exact (OrderRiskValidator.run_validate listedFound).mp valid
    obtain ⟨valid, -, rows⟩ := Table.insert_ok inserted
    simp only [RowSpec.check, orderRow, Bool.and_eq_true] at valid
    have positive : 0 < placement.quantity := of_decide_eq_true valid.1.1.1.1
    simp only [Bool.false_eq_true, if_false, run_bind_ok, run_pure] at rest
    obtain ⟨_, c₂, funded, same⟩ := rest
    cases same
    refine ⟨rfl, ?_⟩
    cases side : placement.side with
    | buy =>
      obtain ⟨l, rfl, moved, transactions, balances, backed⟩ := fundBuy_ok side nonneg positive funded
      exact
        { static := (Static.orders _ _).trans (.ledger _ _)
          fills := rfl
          mints := rfl
          market := ⟨market, marketFound, executable⟩
          admitted := admits
          orders := rows
          ledger := moved
          transactions := transactions
          collateral := balances
          positions := (rebalanced_refl _).weaken (fun _ => False.elim) fun _ => rfl
          buy := fun _ => ⟨rfl, backed⟩
          sell := fun other => by rw [side] at other; cases other }
    | sell =>
      obtain ⟨shares, rfl, rebalanced, backed⟩ := fundSell_ok side funded
      exact
        { static := (Static.orders _ _).trans (.shares _ _)
          fills := rfl
          mints := rfl
          market := ⟨market, marketFound, executable⟩
          admitted := admits
          orders := rows
          ledger := .refl _ _
          transactions := rfl
          collateral := fun _ _ => rfl
          positions := rebalanced
          buy := fun other => by rw [side] at other; cases other
          sell := fun _ => ⟨rfl, backed⟩ }
  · left
    simp only [run_bind_ok, run_findOrThrow_ok, run_pure] at looked
    obtain ⟨_, _, ⟨-, rfl⟩, same⟩ := looked
    cases same
    simp only [if_true, run_bind_ok, run_getOrThrow_ok, run_throwIf_ok, run_pure] at rest
    obtain ⟨order, _, ⟨found, rfl⟩, _, _, ⟨-, rfl⟩, same⟩ := rest
    cases same
    exact ⟨rfl, order, found⟩

end Placing

section Ending

variable {order : Order} {status : OrderStatus}

structure Ended (c c' : Core) (orderId : Nat) (order : Order) (status : OrderStatus) : Prop where
  -- what cancelling or expiring a resting order does: its reservation is given back
  static : Static c c'
  fills : c'.exchange.fills = c.exchange.fills
  mints : c'.exchange.mints = c.exchange.mints
  found : c.exchange.orders.get? orderId = some order
  resting : order.isExecutable = true
  closed : status = .cancelled ∨ status = .expired
  orders : c'.exchange.orders.rows = c.exchange.orders.rows.set orderId { order with status := status }
  ledger : Ledger.Moved tradingKinds c.ledger c'.ledger
  transactions : c'.ledger.transactions = c.ledger.transactions
  collateral : ∀ ref asset, Ledger.balanceOf c'.ledger ref asset = Ledger.balanceOf c.ledger ref asset
  positions : Rebalanced c.exchange.shares c'.exchange.shares (fun _ => False) (fun _ => 0)
  buy : order.side = .buy → c'.exchange.shares = c.exchange.shares ∧
    Reserved.OnRef c.ledger.funds c'.ledger.funds .order orderId Reserved.settle
  sell : order.side = .sell → c'.ledger = c.ledger ∧
    Reserved.OnRef c.exchange.shares c'.exchange.shares .order orderId Reserved.settle

theorem endOrder_ok {orders : Table Order} {u : Unit}
    (done : (releaseOrder orderId order.side).run (ordersField.set orders c) = .ok (u, c'))
    (found : c.exchange.orders.get? orderId = some order) (resting : order.isExecutable = true)
    (closed : status = .cancelled ∨ status = .expired)
    (rows : orders.rows = c.exchange.orders.rows.set orderId { order with status := status }) :
    Ended c c' orderId order status := by
  cases side : order.side with
  | buy =>
    rw [side] at done
    obtain ⟨funds, rfl, onRef, how⟩ := releaseIn_ok fundsField done
    have kept : LedgerKept c.ledger { c.ledger with funds := funds } := .released how
    exact
      { static := (Static.orders _ _).trans (.funds _ _)
        fills := rfl
        mints := rfl
        found := found
        resting := resting
        closed := closed
        orders := rows
        ledger := kept.moved
        transactions := rfl
        collateral := kept.balance
        positions := rebalanced_refl _
        buy := fun _ => ⟨rfl, onRef⟩
        sell := fun other => by rw [side] at other; cases other }
  | sell =>
    rw [side] at done
    obtain ⟨shares, rfl, onRef, how⟩ := releaseIn_ok sharesField done
    exact
      { static := (Static.orders _ _).trans (.shares _ _)
        fills := rfl
        mints := rfl
        found := found
        resting := resting
        closed := closed
        orders := rows
        ledger := .refl _ _
        transactions := rfl
        collateral := fun _ _ => rfl
        positions := rebalanced_released how
        buy := fun other => by rw [side] at other; cases other
        sell := fun _ => ⟨rfl, onRef⟩ }

theorem cancel_ok {userId : Nat} {u : Unit} (done : (cancel userId orderId).run c = .ok (u, c')) :
    ∃ order, Ended c c' orderId order .cancelled := by
  simp only [cancel, run_bind_ok, run_read, run_orThrow_ok, run_throwIf_ok, run_update_ok, Except.ok.injEq,
    Prod.mk.injEq] at done
  obtain ⟨_, _, ⟨rfl, rfl⟩, order, _, ⟨found, rfl⟩, _, _, ⟨-, rfl⟩, _, _, ⟨resting, rfl⟩, _, _,
    ⟨orders, updated, rfl⟩, released⟩ := done
  obtain ⟨-, -, -, rows⟩ := Table.update_ok updated
  exact ⟨order, endOrder_ok released found (by simpa using resting) (.inl rfl) rows⟩

theorem isExecutable_of_status {a b : Order} (same : a.status = b.status) : a.isExecutable = b.isExecutable := by
  rw [Order.isExecutable, same, Order.isExecutable]

theorem expireOrder_ok {read : Order} {u : Unit} (done : (expireOrder orderId read).run c = .ok (u, c'))
    (found : c.exchange.orders.get? orderId = some order) (sides : read.side = order.side)
    (resting : read.isExecutable = true) :
    (c' = c ∧ order.status ≠ read.status) ∨ Ended c c' orderId order .expired := by
  unfold expireOrder at done
  rw [run_bind_of_ok (run_read _ _)] at done
  simp only [found, run_ite] at done
  split at done
  next same =>
    simp only [run_bind_ok, run_update_ok] at done
    obtain ⟨_, _, ⟨orders, updated, rfl⟩, released⟩ := done
    obtain ⟨-, -, -, rows⟩ := Table.update_ok updated
    rw [sides] at released
    exact .inr (endOrder_ok released found (by rw [isExecutable_of_status same, resting]) (.inr rfl) rows)
  next different =>
    cases done
    exact .inl ⟨rfl, different⟩

inductive EndedAll : Core → Core → Prop
  -- some resting orders end, one after the other
  | refl (c : Core) : EndedAll c c
  | head {c c' c'' : Core} {orderId : Nat} {order : Order} {status : OrderStatus}
      (first : Ended c c' orderId order status) (others : EndedAll c' c'') : EndedAll c c''

theorem Ended.sameTerms (ended : Ended c c' orderId order status) :
    Table.Carries terms c.exchange.orders c'.exchange.orders :=
  .of_set ended.found ended.orders rfl

theorem Ended.kept (ended : Ended c c' orderId order status) {o : Nat} {other : Order}
    (found : c'.exchange.orders.get? o = some other) (resting : other.isExecutable = true) :
    o ≠ orderId ∧ c.exchange.orders.get? o = some other := by
  rw [Table.get?_of_set ended.orders (Table.get?_lt ended.found)] at found
  split at found
  next =>
    cases found
    rcases ended.closed with rfl | rfl <;> simp [Order.isExecutable] at resting
  next different => exact ⟨different, found⟩

theorem Ended.origin (ended : Ended c c' orderId order status) {o : Nat} {other : Order}
    (found : c'.exchange.orders.get? o = some other) :
    ∃ before, c.exchange.orders.get? o = some before ∧ terms other = terms before ∧
      (other.isExecutable = true → before.isExecutable = true) := by
  rw [Table.get?_of_set ended.orders (Table.get?_lt ended.found)] at found
  split at found
  next same =>
    cases found
    exact ⟨order, same ▸ ended.found, rfl, fun _ => ended.resting⟩
  next => exact ⟨other, found, rfl, id⟩

theorem EndedAll.origin (ended : EndedAll c c') {o : Nat} {other : Order}
    (found : c'.exchange.orders.get? o = some other) :
    ∃ before, c.exchange.orders.get? o = some before ∧ terms other = terms before ∧
      (other.isExecutable = true → before.isExecutable = true) := by
  induction ended with
  | refl => exact ⟨other, found, rfl, id⟩
  | head first _ ih =>
    obtain ⟨middle, found', same', active'⟩ := ih found
    obtain ⟨before, found'', same'', active''⟩ := first.origin found'
    exact ⟨before, found'', same'.trans same'', active'' ∘ active'⟩

theorem EndedAll.frame (ended : EndedAll c c') : Static c c' ∧ c'.exchange.fills = c.exchange.fills ∧
    c'.exchange.mints = c.exchange.mints ∧ c'.ledger.transactions = c.ledger.transactions ∧
    Rebalanced c.exchange.shares c'.exchange.shares (fun _ => False) (fun _ => 0) := by
  induction ended with
  | refl c => exact ⟨⟨rfl, rfl, rfl, rfl, rfl, rfl, rfl, rfl⟩, rfl, rfl, rfl, rebalanced_refl _⟩
  | head first _ ih =>
    obtain ⟨static, fills, mints, transactions, positions⟩ := ih
    refine ⟨first.static.trans static, fills.trans first.fills, mints.trans first.mints,
      transactions.trans first.transactions, ?_⟩
    have both := first.positions.trans positions
    simpa using both

theorem EndedAll.kept (ended : EndedAll c c') {o : Nat} {other : Order}
    (found : c'.exchange.orders.get? o = some other) (resting : other.isExecutable = true) :
    c.exchange.orders.get? o = some other := by
  induction ended with
  | refl => exact found
  | head first _ ih => exact (first.kept (ih found) resting).2

theorem expireOrders_ok (pairs : List (Nat × Order)) {u : Unit}
    (known : ∀ pair ∈ pairs, pair.2.isExecutable = true ∧ ∃ order, c.exchange.orders.get? pair.1 = some order ∧
      terms order = terms pair.2 ∧ (order.status = pair.2.status ∨ order.isExecutable = false))
    (done : (expireOrders pairs).run c = .ok (u, c')) :
    EndedAll c c' ∧ ∀ pair ∈ pairs, ∀ order, c'.exchange.orders.get? pair.1 = some order → order.isExecutable = false := by
  induction pairs generalizing c with
  | nil =>
    cases done
    exact ⟨.refl _, by simp⟩
  | cons pair rest ih =>
    obtain ⟨resting, order, found, same, current⟩ := known pair (by simp)
    simp only [expireOrders, run_bind_ok] at done
    obtain ⟨_, c₁, first, others⟩ := done
    have later := fun other member => known other (List.mem_cons_of_mem pair member)
    have sides : pair.2.side = order.side := by
      simp only [terms, Prod.mk.injEq] at same
      exact same.2.2.2.1.symm
    rcases expireOrder_ok first found sides resting with ⟨rfl, different⟩ | ended
    · obtain ⟨all, quiet⟩ := ih later others
      refine ⟨all, List.forall_mem_cons.mpr ⟨?_, quiet⟩⟩
      intro after present
      by_contra active
      have before := all.kept present (by simpa using active)
      rw [found] at before
      cases before
      exact active (current.resolve_left different)
    · have stillKnown : ∀ other ∈ rest, other.2.isExecutable = true ∧ ∃ order, c₁.exchange.orders.get? other.1 = some order ∧
          terms order = terms other.2 ∧ (order.status = other.2.status ∨ order.isExecutable = false) := by
        intro other member
        obtain ⟨resting', order', found', same', current'⟩ := later other member
        obtain ⟨order'', found'', same''⟩ := ended.sameTerms _ _ found'
        refine ⟨resting', order'', found'', same''.trans same', ?_⟩
        by_cases active : order''.isExecutable = true
        · have before := (ended.kept found'' active).2
          rw [found'] at before
          cases before
          exact current'
        · exact .inr (by simpa using active)
      obtain ⟨all, quiet⟩ := ih stillKnown others
      refine ⟨.head ended all, List.forall_mem_cons.mpr ⟨?_, quiet⟩⟩
      intro after present
      by_contra active
      have resting' : after.isExecutable = true := by simpa using active
      exact (ended.kept (all.kept present resting') resting').1 rfl

theorem expireRestingOrdersForMarket_ok {marketId count : Nat}
    (done : (expireRestingOrdersForMarket marketId).run c = .ok (count, c')) :
    EndedAll c c' ∧ ∀ o order, c'.exchange.orders.get? o = some order → order.marketId = marketId →
      order.isExecutable = false := by
  simp only [expireRestingOrdersForMarket, run_bind_ok, run_read, run_pure, Except.ok.injEq, Prod.mk.injEq] at done
  obtain ⟨_, _, ⟨rfl, rfl⟩, _, _, expired, -, rfl⟩ := done
  obtain ⟨all, quiet⟩ := expireOrders_ok _ (by
    intro pair member
    obtain ⟨found, picked⟩ := Table.mem_findMany.mp member
    exact ⟨(Bool.and_eq_true_iff.mp picked).2, pair.2, found, rfl, .inl rfl⟩) expired
  refine ⟨all, fun o order found ofMarket => ?_⟩
  by_contra active
  have resting : order.isExecutable = true := by simpa using active
  exact active (quiet (o, order)
    (Table.mem_findMany.mpr ⟨all.kept found resting, by simp [ofMarket, resting]⟩) order found)

end Ending

end OrdersService

end VerdictVaut
