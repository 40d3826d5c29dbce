import VerdictVaut.System.Charged
import VerdictVaut.System.RoundedRuns
import VerdictVaut.System.Replays

set_option autoImplicit false

namespace VerdictVaut

open Relational Relational.Tx VerdictVaut.Core ExecutionCoordinator OrdersService

section Resting

def restingSum (f : Order → ℚ) (orders : Table Order) : ℚ :=
  -- the quantity that rests on the book, weighed by what each order was placed with
  sumWhere Order.isExecutable (fun order => f order * order.remainingQuantity) orders.rows

def Termed (f : Order → ℚ) : Prop := ∀ a b, terms a = terms b → f a = f b

variable {f : Order → ℚ} {orders orders' : Table Order} {c c' : Core}

theorem remaining_nonneg {order : Order} (member : order ∈ orders.rows) : 0 ≤ order.remainingQuantity := by
  have valid := orders.checked order member
  simp only [RowSpec.check, Bool.and_eq_true, decide_eq_true_eq] at valid
  exact valid.1.2.1

theorem resting_share {order : Order} (resting : order.isExecutable = true) :
    share Order.isExecutable (fun order => f order * order.remainingQuantity) order = f order * order.remainingQuantity := by
  simp [share, resting]

theorem executed_share (termed : Termed f) (order : Order) (q : ℚ) :
    share Order.isExecutable (fun order => f order * order.remainingQuantity) (executed order q) =
      f order * (order.remainingQuantity - q) := by
  have same : f (executed order q) = f order := termed _ _ rfl
  by_cases used : order.remainingQuantity - q = 0
  · simp [share, executed, Order.isExecutable, used]
  · rw [resting_share (by simp [executed, Order.isExecutable, used]), same]
    rfl

theorem restingSum_executed (termed : Termed f) {i j : Nat} {a b : Order} {q : ℚ} (first : orders.get? i = some a)
    (second : orders.get? j = some b) (apart : i ≠ j) (restA : a.isExecutable = true) (restB : b.isExecutable = true)
    (rows : orders'.rows = (orders.rows.set i (executed a q)).set j (executed b q)) :
    restingSum f orders' = restingSum f orders - f a * q - f b * q := by
  have untouched : (orders.rows.set i (executed a q))[j]? = some b := by
    rw [List.getElem?_set_ne apart]
    exact second
  unfold restingSum
  rw [rows, sumWhere_set _ _ _ _ _ _ untouched, sumWhere_set _ _ _ _ _ _ first, resting_share restA, resting_share restB,
    executed_share termed, executed_share termed]
  ring

theorem restingSum_ended {orderId : Nat} {order : Order} {status : OrderStatus} (ended : Ended c c' orderId order status)
    (nonneg : 0 ≤ f order) : restingSum f c'.exchange.orders ≤ restingSum f c.exchange.orders := by
  have quiet : share Order.isExecutable (fun order => f order * order.remainingQuantity) { order with status := status } = 0 := by
    rcases ended.closed with rfl | rfl <;> simp [share, Order.isExecutable]
  have rest := mul_nonneg nonneg (remaining_nonneg (Table.get?_mem ended.found))
  unfold restingSum
  rw [ended.orders, sumWhere_set _ _ _ _ _ _ ended.found, quiet, resting_share ended.resting]
  linarith

theorem restingSum_endedAll (termed : Termed f) (ended : EndedAll c c')
    (nonneg : ∀ order ∈ c.exchange.orders.rows, 0 ≤ f order) :
    restingSum f c'.exchange.orders ≤ restingSum f c.exchange.orders := by
  induction ended with
  | refl => exact le_rfl
  | head first _ ih =>
    have once := restingSum_ended first (nonneg _ (Table.get?_mem first.found))
    refine (ih fun order member => ?_).trans once
    obtain ⟨o, found⟩ := Table.mem_iff_get?.mp member
    obtain ⟨before, earlier, same, -⟩ := first.origin found
    rw [termed _ _ same]
    exact nonneg before (Table.get?_mem earlier)

theorem restingSum_placed {placement : Placement} {now : Time} {sequence : Nat} (placed : Placed c c' placement now sequence) :
    restingSum f c'.exchange.orders =
      restingSum f c.exchange.orders + f (orderRow placement sequence) * placement.quantity := by
  unfold restingSum
  rw [placed.orders, sumWhere_append, sumWhere_cons, sumWhere_nil, add_zero, resting_share (by simp [orderRow, Order.isExecutable])]
  rfl

theorem TradingEffect.restingSum_le (effect : TradingEffect c c') (termed : Termed f)
    (nonneg : ∀ order ∈ c.exchange.orders.rows, 0 ≤ f order) :
    restingSum f c'.exchange.orders ≤ restingSum f c.exchange.orders ∨
      ∃ placement now sequence, Placed c c' placement now sequence := by
  have executes : ∀ {a b : Order} {q : ℚ} {o o' : Nat}, c.exchange.orders.get? o = some a →
      c.exchange.orders.get? o' = some b → 0 < q →
      restingSum f c'.exchange.orders = restingSum f c.exchange.orders - f a * q - f b * q →
      restingSum f c'.exchange.orders ≤ restingSum f c.exchange.orders := by
    intro a b q o o' foundA foundB positive equal
    have partA := mul_nonneg (nonneg a (Table.get?_mem foundA)) positive.le
    have partB := mul_nonneg (nonneg b (Table.get?_mem foundB)) positive.le
    linarith
  cases effect with
  | filled marketFound buyFound sellFound fits fresh done =>
    exact .inl (executes buyFound sellFound fresh.positive
      (restingSum_executed termed buyFound sellFound done.different fresh.first fresh.second done.orders))
  | minted marketFound foundA foundB fits binary fresh done =>
    exact .inl (executes foundA foundB fresh.positive
      (restingSum_executed termed foundA foundB (fits.different foundA foundB) fresh.first fresh.second done.orders))
  | placed fits listed done => exact .inr ⟨_, _, _, done⟩
  | ended done => exact .inl (restingSum_ended done (nonneg _ (Table.get?_mem done.found)))
  | closed running restated ended quiet =>
    obtain ⟨markets, rfl, -⟩ := restated.result
    have below := restingSum_endedAll termed ended nonneg
    exact .inl below
  | unchanged same =>
    rw [same]
    exact .inl le_rfl
  | restated plain done =>
    obtain ⟨markets, rfl, -⟩ := done.result
    exact .inl le_rfl
  | created done =>
    obtain ⟨markets, outcomes, market, new, rfl, -⟩ := done.result
    exact .inl le_rfl
  | resolved done =>
    obtain ⟨⟨market, -, -, markets, resolutions, settlements, rfl, -⟩, -⟩ := done
    exact .inl le_rfl
  | settled done =>
    obtain ⟨l, settlements, positions, transactionId, rfl, -⟩ := done.result
    exact .inl le_rfl
  | finalized finished marked same =>
    rw [same]
    rcases marked with ⟨rfl, -⟩ | ⟨market, -, restated⟩
    · exact .inl le_rfl
    · obtain ⟨markets, rfl, -⟩ := restated.result
      exact .inl le_rfl

theorem TradingEffect.limits (effect : TradingEffect c c') : c'.riskLimits = c.riskLimits ∧
    Table.Carries Market.maxExposure c.exchange.markets c'.exchange.markets := by
  have same : ∀ {c c' : Core}, Static c c' → c'.riskLimits = c.riskLimits ∧
      Table.Carries Market.maxExposure c.exchange.markets c'.exchange.markets := by
    intro c c' static
    rw [static.markets]
    exact ⟨static.riskLimits, .refl _ _⟩
  have restates : ∀ {c c' : Core} {marketId : Nat} {market : Market} {status : MarketStatus},
      MarketsService.Restated c c' marketId market status → c'.riskLimits = c.riskLimits ∧
        Table.Carries Market.maxExposure c.exchange.markets c'.exchange.markets := by
    intro c c' marketId market status restated
    have found := restated.found
    obtain ⟨markets, rfl, rows⟩ := restated.result
    exact ⟨rfl, .of_set found rows rfl⟩
  cases effect with
  | unchanged this =>
    rw [this]
    exact ⟨rfl, .refl _ _⟩
  | filled marketFound buyFound sellFound fits fresh done => exact same done.static
  | minted marketFound foundA foundB fits binary fresh done => exact same done.static
  | placed fits listed done => exact same done.static
  | ended done => exact same done.static
  | restated plain done => exact restates done
  | closed running restated ended quiet =>
    obtain ⟨limits, caps⟩ := restates restated
    obtain ⟨limits', caps'⟩ := same ended.frame.1
    exact ⟨limits'.trans limits, caps.trans caps'⟩
  | created done =>
    obtain ⟨markets, outcomes, market, new, rfl, rows, -⟩ := done.result
    exact ⟨rfl, .of_append rows⟩
  | resolved done =>
    obtain ⟨⟨market, -, found, markets, resolutions, settlements, rfl, rows, -⟩, -⟩ := done
    exact ⟨rfl, .of_set found rows rfl⟩
  | settled done =>
    obtain ⟨l, settlements, positions, transactionId, rfl, -⟩ := done.result
    exact ⟨rfl, .refl _ _⟩
  | finalized finished marked this =>
    rw [this]
    rcases marked with ⟨rfl, -⟩ | ⟨market, -, restated⟩
    · exact ⟨rfl, .refl _ _⟩
    · have kept := restates restated
      exact kept

end Resting

section Exposure

def notional (marketId outcomeId : Nat) (order : Order) : ℚ :=
  -- what each resting unit of a BUY order of the outcome counts for
  if order.marketId = marketId ∧ order.outcomeId = outcomeId ∧ order.side = .buy then order.price.getD 0 else 0

theorem notional_termed (marketId outcomeId : Nat) : Termed (notional marketId outcomeId) := by
  intro a b same
  simp only [terms, Prod.mk.injEq] at same
  simp only [notional, same.2.1, same.2.2.1, same.2.2.2.1, same.2.2.2.2.1]

theorem notional_nonneg (marketId outcomeId : Nat) {orders : Table Order} :
    ∀ order ∈ orders.rows, 0 ≤ notional marketId outcomeId order := by
  intro order member
  have valid := orders.checked order member
  simp only [RowSpec.check, Bool.and_eq_true] at valid
  unfold notional
  split
  · cases priced : order.price with
    | none => simp
    | some price =>
      have within := valid.1.1.2
      simp only [priced, Option.all_some, decide_eq_true_eq] at within
      exact within.1.le
  · exact le_rfl

theorem restingExposure_eq (orders : Table Order) (marketId outcomeId : Nat) :
    OrderRiskValidator.restingExposure orders marketId outcomeId = restingSum (notional marketId outcomeId) orders := by
  refine sumWhere_congr _ _ _ ?_
  intro order _
  by_cases mine : order.marketId = marketId ∧ order.outcomeId = outcomeId ∧ order.side = .buy
  · simp [share, notional, mine, mul_comm]
  · have unselected : (decide (order.marketId = marketId) && decide (order.outcomeId = outcomeId) &&
        decide (order.side = .buy)) = false := by simpa [and_assoc] using mine
    simp [share, notional, mine, unselected]

def setMaxExposure (marketId : Nat) (cap : ℚ) : Tx Core Fault Unit := do
  -- the operator's update of a cap; no service writes the column
  let market ← getOrThrow marketsField marketId
  update marketsField marketId { market with maxExposure := some cap }

def Platform.capped (s : Platform) (marketId : Nat) (cap : ℚ) : Platform :=
  { s with db := { s.db with core := VerdictVaut.transact (setMaxExposure marketId cap) s.db.core } }

variable {fees : FeeCalculator} {config : WalletConfig} {s : Platform} {marketId : Nat} {cap : ℚ}

theorem setMaxExposure_ok {c c' : Core} {u : Unit} (done : (setMaxExposure marketId cap).run c = .ok (u, c')) :
    ∃ market markets, c.exchange.markets.get? marketId = some market ∧ c' = marketsField.set markets c ∧
      markets.rows = c.exchange.markets.rows.set marketId { market with maxExposure := some cap } := by
  simp only [setMaxExposure, run_bind_ok, run_getOrThrow_ok, run_update_ok] at done
  obtain ⟨market, _, ⟨found, rfl⟩, markets, updated, rfl⟩ := done
  obtain ⟨-, -, -, rows⟩ := Table.update_ok updated
  exact ⟨market, markets, found, rfl, rows⟩

theorem Platform.capped_orders (s : Platform) (marketId : Nat) (cap : ℚ) :
    (s.capped marketId cap).db.core.exchange.orders = s.db.core.exchange.orders := by
  unfold Platform.capped
  rcases VerdictVaut.transact_cases (setMaxExposure marketId cap) s.db.core with same | ⟨u, done⟩
  · rw [same]
  · obtain ⟨market, markets, -, same, -⟩ := setMaxExposure_ok done
    rw [same]
    rfl

theorem Platform.Integrity.capped (integrity : s.Integrity) (marketId : Nat) (cap : ℚ) : (s.capped marketId cap).Integrity := by
  rcases VerdictVaut.transact_cases (setMaxExposure marketId cap) s.db.core with same | ⟨u, done⟩
  · unfold Platform.capped
    rw [same]
    exact integrity
  · obtain ⟨market, markets, found, same, rows⟩ := setMaxExposure_ok done
    unfold Platform.capped
    rw [same]
    have settleable := integrity.settleable
    have advances := settleable.ordered.rewritten found rows rfl
    refine integrity.advanced advances ⟨advances.ordered, ?_, ?_⟩ (integrity.fits.persist advances.persists)
    · refine settleable.lifecycle.restated advances.persists found rows (fun o order' present => ⟨order', present, rfl, id⟩)
        (fun running _ => running) id fun resolved => ?_
      exact ⟨.of_resolved found resolved, settleable.lifecycle.finished marketId market found resolved⟩
    · exact settleable.payouts.markets settleable.ordered.solvent rfl rfl rfl fun _ _ _ => rfl

structure WithinCap (c : Core) (marketId : Nat) (cap : ℚ) : Prop where
  -- the market has this cap, and no outcome's exposure is above it
  configured : ∃ market, c.exchange.markets.get? marketId = some market ∧ market.maxExposure = some cap
  exposure : ∀ outcomeId, OrderRiskValidator.restingExposure c.exchange.orders marketId outcomeId ≤ cap

theorem WithinCap.unordered {c : Core} {market : Market} (found : c.exchange.markets.get? marketId = some market)
    (configured : market.maxExposure = some cap) (none : ∀ order ∈ c.exchange.orders.rows, order.marketId ≠ marketId) :
    WithinCap c marketId cap := by
  refine ⟨⟨market, found, configured⟩, fun outcomeId => ?_⟩
  have valid := c.exchange.markets.checked market (Table.get?_mem found)
  simp only [RowSpec.check, configured, Option.all_some, decide_eq_true_eq] at valid
  have empty : OrderRiskValidator.restingExposure c.exchange.orders marketId outcomeId = 0 :=
    sumWhere_eq_zero _ _ _ fun order member => by simp [share, none order member]
  rw [empty]
  exact valid

theorem WithinCap.traded {c c' : Core} (within : WithinCap c marketId cap) (effect : TradingEffect c c') :
    WithinCap c' marketId cap := by
  obtain ⟨market, found, configured⟩ := within.configured
  obtain ⟨market', found', same⟩ := effect.limits.2 marketId market found
  refine ⟨⟨market', found', same.trans configured⟩, fun outcomeId => ?_⟩
  have before := within.exposure outcomeId
  rw [restingExposure_eq] at before ⊢
  rcases effect.restingSum_le (notional_termed marketId outcomeId) (notional_nonneg marketId outcomeId) with
    below | ⟨placement, now, sequence, placed⟩
  · exact below.trans before
  rw [restingSum_placed placed]
  by_cases mine : placement.marketId = marketId ∧ placement.outcomeId = outcomeId ∧ placement.side = .buy
  · -- the validator has seen this order on top of everything that rests now
    obtain ⟨rfl, rfl, buy⟩ := mine
    have admitted := (placed.admitted market found).exposure buy cap configured
    have sum : OrderRiskValidator.restingExposure c.exchange.orders placement.marketId placement.outcomeId +
        placement.quantity * placement.price ≤ cap := admitted
    rw [restingExposure_eq] at sum
    simp only [notional, orderRow, buy, and_self, if_true, Option.getD_some]
    linarith
  · have unweighed : notional marketId outcomeId (orderRow placement sequence) = 0 := by
      simp only [notional, orderRow, mine, if_false]
    rw [unweighed, zero_mul, add_zero]
    exact before

theorem Platform.step_withinCap (reserve : fees.Reserves) (integrity : s.Integrity)
    (within : WithinCap s.db.core marketId cap) (action : Action) :
    WithinCap (s.stepUnder fees config action).db.core marketId cap := by
  cases action with
  | trading action =>
    exact within.traded (tradingStepUnder_effect reserve integrity.settleable.ordered integrity.fits action)
  | wallet action =>
    obtain ⟨l, same⟩ := (Platform.walletStep_effect integrity action).frame.core
    have core : (s.stepUnder fees config (.wallet action)).db.core = _ := same
    rw [core]
    exact ⟨within.configured, within.exposure⟩

/-- From the moment the cap of a market without orders is set, whatever the platform does, the BUY orders that rest on
one of its outcomes are never worth more than the cap. -/
theorem restingExposure_capped (reserve : fees.Reserves) {s₀ : Platform} (reached : Platform.ReachedUnder fees config s₀)
    {market : Market} (unordered : ∀ order ∈ s₀.db.core.exchange.orders.rows, order.marketId ≠ marketId)
    (found : (s₀.capped marketId cap).db.core.exchange.markets.get? marketId = some market)
    (configured : market.maxExposure = some cap)
    (run : Reachable (fun s => s = s₀.capped marketId cap) (Platform.stepUnder fees config) s) (outcomeId : Nat) :
    OrderRiskValidator.restingExposure s.db.core.exchange.orders marketId outcomeId ≤ cap := by
  have kept : s.Integrity ∧ WithinCap s.db.core marketId cap := by
    refine Reachable.invariant (fun s => s.Integrity ∧ WithinCap s.db.core marketId cap) ?_ ?_ run
    · rintro _ rfl
      refine ⟨(reached.integrity reserve).capped marketId cap, .unordered found configured ?_⟩
      rw [Platform.capped_orders]
      exact unordered
    · rintro s action - ⟨integrity, within⟩
      exact ⟨integrity.stepUnder reserve action, Platform.step_withinCap reserve integrity within action⟩
  exact kept.2.exposure outcomeId

def cappedMarket : Platform :=
  (Platform.afterUnder percentFees [.trading (.createMarket ⟨"final", "sports", none, ["YES", "NO"]⟩)]).capped 0 10

def cappedOrders : List Action :=
  -- two BUY orders of 6 are placed under a cap of 10
  [.trading (.openMarket 0), .deposit 1 "0x1" 100,
    .trading (.prepareOrder 0 1 ⟨0, 0, .buy, .limit, some (3 / 5), 10, none⟩ "a"), .trading (.createOrder 0 0 0),
    .trading (.prepareOrder 0 1 ⟨0, 0, .buy, .limit, some (3 / 5), 10, none⟩ "b"), .trading (.createOrder 1 0 1)]

/-- The second order is turned away. -/
theorem cappedOrders_within : OrderRiskValidator.restingExposure
    (cappedOrders.foldl (Platform.stepUnder percentFees .sample) cappedMarket).db.core.exchange.orders 0 0 = 6 ∧
    OrderRiskValidator.restingExposure
      (cappedOrders.foldl (Platform.stepUnder percentFees .sample) cappedMarket).db.core.exchange.orders 0 0 ≤ 10 := by
  refine ⟨by decide +kernel, ?_⟩
  have listed : cappedMarket.db.core.exchange.markets.get? 0 = some ⟨"final", 0, .draft, none, some 10⟩ := by
    decide +kernel
  have start : Reachable (fun s => s = cappedMarket) (Platform.stepUnder percentFees .sample) cappedMarket := .refl rfl
  exact restingExposure_capped percentFees_funded.reserves (Reachable.foldl (.refl ⟨.sample, rfl⟩) _) (by decide +kernel)
    listed rfl (start.foldl cappedOrders) 0

end Exposure

section Positions

def keyed (userId marketId outcomeId : Nat) (t : Nat × Nat × Nat × Option Time) : ℚ :=
  if t.1 = userId ∧ t.2.1 = marketId ∧ t.2.2.1 = outcomeId then 1 else 0

def bids (userId marketId outcomeId : Nat) (order : Order) : ℚ :=
  if order.userId = userId ∧ order.marketId = marketId ∧ order.outcomeId = outcomeId ∧ order.side = .buy then 1 else 0

def committed (c : Core) (userId marketId outcomeId : Nat) : ℚ :=
  -- what a user holds of an outcome and may still come to hold by their resting BUY orders
  weighted (keyed userId marketId outcomeId) c.exchange.positions +
    restingSum (bids userId marketId outcomeId) c.exchange.orders

variable {c c' : Core} {userId marketId outcomeId : Nat}

theorem bids_termed (userId marketId outcomeId : Nat) : Termed (bids userId marketId outcomeId) := by
  intro a b same
  simp only [terms, Prod.mk.injEq] at same
  simp only [bids, same.1, same.2.1, same.2.2.1, same.2.2.2.1]

theorem bids_nonneg (order : Order) : 0 ≤ bids userId marketId outcomeId order := by
  unfold bids
  split <;> norm_num

theorem keyed_nonneg (userId marketId outcomeId : Nat) (t : Nat × Nat × Nat × Option Time) : 0 ≤ keyed userId marketId outcomeId t := by
  unfold keyed
  split <;> norm_num

theorem keyed_buyer (userId marketId outcomeId : Nat) {order : Order} (buy : order.side = .buy) (settledAt : Option Time) :
    keyed userId marketId outcomeId (order.userId, order.marketId, order.outcomeId, settledAt) =
      bids userId marketId outcomeId order := by
  simp [keyed, bids, buy]

theorem TradingEffect.committed_le (effect : TradingEffect c c') :
    committed c' userId marketId outcomeId ≤ committed c userId marketId outcomeId ∨
      ∃ placement now sequence, Placed c c' placement now sequence := by
  -- fills and mints turn resting BUY orders into positions; only placing an order adds to the two together
  have orders := effect.restingSum_le (bids_termed userId marketId outcomeId) fun order _ => bids_nonneg order
  have still : weighted (keyed userId marketId outcomeId) c'.exchange.positions =
      weighted (keyed userId marketId outcomeId) c.exchange.positions →
      committed c' userId marketId outcomeId ≤ committed c userId marketId outcomeId ∨
        ∃ placement now sequence, Placed c c' placement now sequence := by
    intro same
    refine orders.imp (fun below => ?_) id
    unfold committed
    rw [same]
    linarith
  cases effect with
  | @filled i buy sell now market marketFound buyFound sellFound fits fresh done =>
    obtain ⟨settledB, settledS, -, -, moved⟩ := done.positions
    have total := moved.total (keyed userId marketId outcomeId)
    have rests := restingSum_executed (bids_termed userId marketId outcomeId) buyFound sellFound done.different fresh.first
      fresh.second done.orders
    have bought := keyed_buyer userId marketId outcomeId fits.buySide settledB
    rw [← fits.buyer, ← fits.buyMarket, ← fits.buyOutcome] at bought
    have sold : bids userId marketId outcomeId sell = 0 := by simp [bids, fits.sellSide]
    have gone := mul_nonneg (keyed_nonneg userId marketId outcomeId
      (i.sellerUserId, i.marketId, i.outcomeId, settledS)) fresh.positive.le
    rw [bought] at total
    rw [sold, zero_mul] at rests
    refine .inl ?_
    simp only [committed, Exchange.positions] at total ⊢
    rw [rests, total]
    linarith
  | @minted i a b now market marketFound foundA foundB fits binary fresh done =>
    obtain ⟨settledA, settledB, -, -, moved⟩ := done.positions
    have total := moved.total (keyed userId marketId outcomeId)
    have rests := restingSum_executed (bids_termed userId marketId outcomeId) foundA foundB (fits.different foundA foundB)
      fresh.first fresh.second done.orders
    have boughtA := keyed_buyer userId marketId outcomeId fits.sideA settledA
    have boughtB := keyed_buyer userId marketId outcomeId fits.sideB settledB
    rw [← fits.buyerA, ← fits.marketA, ← fits.outcomeA] at boughtA
    rw [← fits.buyerB, ← fits.marketB, ← fits.outcomeB] at boughtB
    rw [boughtA, boughtB] at total
    refine .inl ?_
    simp only [committed, Exchange.positions] at total ⊢
    rw [rests, total]
    linarith
  | placed fits listed done => exact .inr ⟨_, _, _, done⟩
  | ended done => exact still ((done.positions.total _).trans (add_zero _))
  | closed running restated ended quiet =>
    have total := ended.frame.2.2.2.2.total (keyed userId marketId outcomeId)
    obtain ⟨markets, rfl, -⟩ := restated.result
    exact still (total.trans (add_zero _))
  | settled done =>
    obtain ⟨l, settlements, positions, transactionId, rfl, -, rewritten, -⟩ := done.result
    have total : weighted (keyed userId marketId outcomeId) positions =
        weighted (keyed userId marketId outcomeId) c.exchange.positions := by
      unfold weighted
      rw [rewritten, sumWhere_set _ _ _ _ _ _ done.found]
      exact sub_add_cancel _ _
    exact still total
  | unchanged same => exact still (by rw [same])
  | restated plain done =>
    obtain ⟨markets, rfl, -⟩ := done.result
    exact still rfl
  | created done =>
    obtain ⟨markets, outcomes, market, new, rfl, -⟩ := done.result
    exact still rfl
  | resolved done =>
    obtain ⟨⟨market, -, -, markets, resolutions, settlements, rfl, -⟩, -⟩ := done
    exact still rfl
  | finalized finished marked same =>
    rw [same] at still ⊢
    rcases marked with ⟨rfl, -⟩ | ⟨market, -, restated⟩
    · exact still rfl
    · obtain ⟨markets, rfl, -⟩ := restated.result
      exact still rfl

theorem weighted_keyed (positions : Table Position) (userId marketId outcomeId : Nat) :
    weighted (keyed userId marketId outcomeId) positions =
      sumWhere (isPosition userId marketId outcomeId) Position.quantity positions.rows := by
  refine sumWhere_congr _ _ _ fun position _ => ?_
  by_cases mine : isPosition userId marketId outcomeId position = true
  · simp [share, keyed, tag, mine, isPosition_iff.mp mine]
  · have apart : ¬ (position.userId = userId ∧ position.marketId = marketId ∧ position.outcomeId = outcomeId) :=
      fun same => mine (isPosition_iff.mpr same)
    simp [share, keyed, tag, mine, apart]

theorem weighted_keyed_of {positions : Table Position} {position : Position} (member : position ∈ positions.rows)
    (mine : isPosition userId marketId outcomeId position = true) :
    weighted (keyed userId marketId outcomeId) positions = position.quantity := by
  rw [weighted_keyed]
  exact Table.sumWhere_of_unique _ member mine fun a b => isPosition_clash a b

theorem held_eq (c : Core) (input : OrderRiskValidator.Input) : OrderRiskValidator.held c input =
    weighted (keyed input.userId input.marketId input.outcomeId) c.exchange.positions := by
  rw [OrderRiskValidator.held]
  cases found : c.exchange.positions.find? (isPosition input.userId input.marketId input.outcomeId) with
  | none =>
    rw [weighted_keyed]
    symm
    exact sumWhere_eq_zero _ _ _ fun position member => by simp [share, Table.find?_none.mp found position member]
  | some pair =>
    obtain ⟨place, mine⟩ := Table.find?_some found
    exact (weighted_keyed_of (Table.get?_mem place) mine).symm

theorem restingBids_nonneg (orders : Table Order) (userId marketId outcomeId : Nat) :
    0 ≤ restingSum (bids userId marketId outcomeId) orders := by
  refine sumWhere_nonneg _ _ _ fun order inside => ?_
  unfold share
  split
  · exact mul_nonneg (bids_nonneg order) (remaining_nonneg inside)
  · exact le_rfl

theorem quantity_le_committed {position : Position} (member : position ∈ c.exchange.positions.rows) :
    position.quantity ≤ committed c position.userId position.marketId position.outcomeId := by
  have rests := restingBids_nonneg c.exchange.orders position.userId position.marketId position.outcomeId
  have shares := weighted_keyed_of member (isPosition_iff.mpr ⟨rfl, rfl, rfl⟩)
  unfold committed
  linarith

theorem endedAll_size (ended : EndedAll c c') : c'.exchange.orders.size = c.exchange.orders.size := by
  induction ended with
  | refl => rfl
  | head first _ ih => exact ih.trans (Table.size_of_set first.orders)

theorem restated_size {market : Market} {status : MarketStatus}
    (restated : MarketsService.Restated c c' marketId market status) :
    c'.exchange.orders.size = c.exchange.orders.size := by
  obtain ⟨markets, rfl, -⟩ := restated.result
  rfl

theorem transact_size {α : Type} {body : Tx Core Fault α} (same : ∀ a c', body.run c = .ok (a, c') →
    c'.exchange.orders.size = c.exchange.orders.size) : (transact body c).exchange.orders.size = c.exchange.orders.size := by
  rcases transact_cases body c with unchanged | ⟨a, done⟩
  · rw [unchanged]
  · exact same a _ done

theorem transition_size (allowedFrom : List MarketStatus) (status : MarketStatus) :
    (transact (MarketsService.transitionStatus marketId allowedFrom status) c).exchange.orders.size =
      c.exchange.orders.size := by
  refine transact_size fun _ _ done => ?_
  obtain ⟨market, -, restated⟩ := MarketsService.transitionStatus_ok done
  exact restated_size restated

variable {fees : FeeCalculator} {config : WalletConfig} {desk : Desk}

theorem tradingStepUnder_orders (reserve : fees.Reserves) (ordered : Ordered c) (fits : DeskFits c desk)
    (action : TradingAction) :
    (tradingStepUnder fees (c, desk) action).1.exchange.orders.size = c.exchange.orders.size ∨
      ∃ k now sequence placement, action = .createOrder k now sequence ∧ desk.placements[k]? = some placement ∧
        Placed c (tradingStepUnder fees (c, desk) action).1 placement now sequence := by
  cases action with
  | createOrder k now sequence =>
    simp only [tradingStepUnder]
    split
    next placement listed =>
      rcases transact_cases (create fees now placement sequence) c with same | ⟨o, done⟩
      · exact .inl (by rw [same])
      · rcases create_ok reserve done with ⟨same, -⟩ | ⟨-, placed⟩
        · exact .inl (by rw [same])
        · exact .inr ⟨k, now, sequence, placement, rfl, listed, placed⟩
    next => exact .inl rfl
  | applyExecution k now =>
    left
    simp only [tradingStepUnder]
    split
    next i listed =>
      refine transact_size fun _ _ done => ?_
      rcases applyExecution_ok (fits.instructions i (List.mem_of_getElem? listed)) done with same |
        ⟨market, buy, sell, -, -, -, -, -, executed⟩
      · rw [same]
      · simp [Table.size, executed.orders]
    next => rfl
  | applyMintExecution k now =>
    left
    simp only [tradingStepUnder, tradingStep]
    split
    next i listed =>
      refine transact_size fun _ _ done => ?_
      rcases applyMintExecution_ok (fits.mintInstructions i (List.mem_of_getElem? listed)) done with same |
        ⟨market, a, b, -, -, -, -, -, executed⟩
      · rw [same]
      · simp [Table.size, executed.orders]
    next => rfl
  | cancelOrder userId orderId =>
    refine .inl (transact_size fun _ _ done => ?_)
    obtain ⟨order, ended⟩ := cancel_ok done
    exact Table.size_of_set ended.orders
  | openMarket marketId => exact .inl (transition_size _ _)
  | pauseMarket marketId => exact .inl (transition_size _ _)
  | resumeMarket marketId => exact .inl (transition_size _ _)
  | cancelMarket marketId => exact .inl (transition_size _ _)
  | closeMarket marketId =>
    refine .inl (transact_size fun _ _ done => ?_)
    obtain ⟨market, c₁, -, restated, ended, -⟩ := MarketsService.close_ok done
    exact (endedAll_size ended).trans (restated_size restated)
  | createMarket dto =>
    refine .inl (transact_size fun _ _ done => ?_)
    obtain ⟨markets, outcomes, market, new, rfl, -⟩ := (MarketsService.create_ok done).result
    rfl
  | resolve now marketId resolverId winningOutcomeId =>
    refine .inl (transact_size fun _ _ done => ?_)
    simp only [run_bind_ok] at done
    obtain ⟨_, _, authorized, resolved⟩ := done
    obtain rfl := ResolutionService.assertAuthorized_ok authorized
    obtain ⟨⟨market, -, -, markets, resolutions, settlements, rfl, -⟩, -⟩ := ResolutionService.resolve_ok resolved
    rfl
  | settleOnePosition now positionId =>
    refine .inl (transact_size fun _ _ done => ?_)
    rcases settleOnePosition_settled ordered done with rfl | ⟨position, rate, settled⟩
    · rfl
    · obtain ⟨l, settlements, positions, transactionId, rfl, -⟩ := settled.result
      rfl
  | finalizeResolved k now =>
    left
    simp only [tradingStepUnder, tradingStep]
    split
    next marketId listed =>
      refine transact_size fun _ _ done => ?_
      obtain ⟨c₁, resolutions, rfl, marked⟩ := SettlementService.finalizeResolved_ok done
      rcases marked with ⟨rfl, -⟩ | ⟨market, -, restated⟩
      · rfl
      · have same := restated_size restated
        exact same
    next => rfl
  | prepareOrder | readIncoming | beginSettlement =>
    left
    simp only [tradingStepUnder, tradingStep]
    split <;> rfl
  | readInstructions k | readMintInstructions k | countRemaining k =>
    left
    simp only [tradingStepUnder, tradingStep]
    split
    · split <;> rfl
    · rfl
  | readMintIncoming k =>
    left
    simp only [tradingStepUnder, tradingStep]
    split
    · split
      · split <;> rfl
      · rfl
    · rfl

theorem placed_unused {placement : Placement} {now : Time} {sequence : Nat} (placed : Placed c c' placement now sequence) :
    ∀ order ∈ c.exchange.orders.rows, ¬ (order.userId = placement.userId ∧ order.clientOrderId = placement.clientOrderId) := by
  intro order member same
  have distinct := c'.exchange.orders.distinct
  rw [placed.orders, List.pairwise_append] at distinct
  have apart := distinct.2.2 order member (orderRow placement sequence) (by simp)
  simp [RowSpec.clash, orderRow, same] at apart

/-- An order that leaves its trader within their maximum also does with the orders of theirs that rest counted in. -/
def Covers (c : Core) (placement : Placement) : Prop :=
  ∀ cap ∈ (OrderRiskValidator.riskLimit c placement.userId).bind RiskLimit.maxPositionSize,
    OrderRiskValidator.held c placement.riskInput + placement.quantity ≤ cap →
    OrderRiskValidator.held c placement.riskInput +
      restingSum (bids placement.userId placement.marketId placement.outcomeId) c.exchange.orders + placement.quantity ≤ cap

instance (c : Core) (placement : Placement) : Decidable (Covers c placement) := inferInstanceAs (Decidable (∀ cap ∈ _, _))

def Covered (s : Platform) : Action → Prop
  -- each BUY order under a new key is so covered when it is created
  | .trading (.createOrder k _ _) => ∀ placement ∈ s.desk.placements[k]?, placement.side = .buy →
    (∀ order ∈ s.db.core.exchange.orders.rows,
      ¬ (order.userId = placement.userId ∧ order.clientOrderId = placement.clientOrderId)) →
    Covers s.db.core placement
  | _ => True

def WithinLimits (c : Core) : Prop :=
  ∀ userId cap, (OrderRiskValidator.riskLimit c userId).bind RiskLimit.maxPositionSize = some cap →
    ∀ marketId outcomeId, committed c userId marketId outcomeId ≤ cap

theorem WithinLimits.placed (within : WithinLimits c) {placement : Placement} {now : Time} {sequence : Nat}
    (placed : Placed c c' placement now sequence) (covers : placement.side = .buy → Covers c placement) : WithinLimits c' := by
  intro userId cap limited marketId outcomeId
  rw [OrderRiskValidator.riskLimit, placed.static.riskLimits] at limited
  have before := within userId cap limited marketId outcomeId
  have shares := (placed.positions.total (keyed userId marketId outcomeId)).trans (add_zero _)
  have rests := restingSum_placed (f := bids userId marketId outcomeId) placed
  unfold committed at before ⊢
  rw [rests, Exchange.positions, shares]
  by_cases mine : placement.userId = userId ∧ placement.marketId = marketId ∧ placement.outcomeId = outcomeId ∧
      placement.side = .buy
  · obtain ⟨rfl, rfl, rfl, buy⟩ := mine
    -- the order was checked against the position alone
    obtain ⟨market, listed, -⟩ := placed.market
    have admitted := (placed.admitted market listed).position buy cap limited
    have covered := covers buy cap limited admitted
    rw [held_eq] at covered
    have counted : bids placement.userId placement.marketId placement.outcomeId (orderRow placement sequence) = 1 := by
      simp [bids, orderRow, buy]
    rw [counted]
    simp only [Placement.riskInput, Exchange.positions] at covered
    linarith
  · have other : bids userId marketId outcomeId (orderRow placement sequence) = 0 := by
      simp only [bids, orderRow, mine, if_false]
    rw [other, zero_mul, add_zero]
    exact before

theorem WithinLimits.initial (seed : Seed) : WithinLimits seed.core := by
  intro userId cap limited marketId outcomeId
  simp only [OrderRiskValidator.riskLimit, Option.bind_eq_some_iff, Option.map_eq_some_iff] at limited
  obtain ⟨limit, ⟨pair, found, rfl⟩, set⟩ := limited
  have valid := seed.core.riskLimits.checked pair.2 (Table.get?_mem (Table.find?_some found).1)
  simp only [RowSpec.check, List.all_cons, set, Option.all_some, Bool.and_eq_true, decide_eq_true_eq] at valid
  have nothing : committed seed.core userId marketId outcomeId = 0 := by
    simp [committed, weighted, restingSum, Seed.core, Exchange.positions]
  rw [nothing]
  exact valid.1

variable {s : Platform}

theorem WithinLimits.step (reserve : fees.Reserves) (integrity : s.Integrity) (within : WithinLimits s.db.core)
    {action : Action} (covered : Covered s action) : WithinLimits (s.stepUnder fees config action).db.core := by
  have ordered := integrity.settleable.ordered
  cases action with
  | wallet action =>
    obtain ⟨l, same⟩ := (Platform.walletStep_effect integrity action).frame.core
    have core : (s.stepUnder fees config (.wallet action)).db.core = _ := same
    rw [core]
    exact within
  | trading action =>
    have effect := tradingStepUnder_effect reserve ordered integrity.fits action
    change WithinLimits (tradingStepUnder fees (s.db.core, s.desk) action).1
    rcases tradingStepUnder_orders reserve ordered integrity.fits action with same |
      ⟨k, now, sequence, placement, rfl, listed, placed⟩
    · intro userId cap limited marketId outcomeId
      rw [OrderRiskValidator.riskLimit, effect.limits.1] at limited
      rcases effect.committed_le with below | ⟨placement, now, sequence, placed⟩
      · exact below.trans (within userId cap limited marketId outcomeId)
      · have grown := Table.size_of_append placed.orders
        omega
    · exact within.placed placed fun buy => covered placement listed buy (placed_unused placed)

instance {s : Platform} : ∀ action, Decidable (Covered s action) := by
  intro action
  unfold Covered
  split <;> infer_instance

/-- In a run that rounds nothing and whose new BUY orders are covered, no position is larger than its user's maximum. -/
theorem covered_positions (run : Guarded (fun s => ∃ seed, s = Platform.initial seed)
    (fun s action => Rounded.Few s action ∧ Covered s action) (Rounded.perform config) s) {userId : Nat} {cap : ℚ}
    (limited : (OrderRiskValidator.riskLimit s.db.core userId).bind RiskLimit.maxPositionSize = some cap) :
    ∀ position ∈ s.db.core.exchange.positions.rows, position.userId = userId → position.quantity ≤ cap := by
  have kept : s.Integrity ∧ WithinLimits s.db.core := by
    refine Guarded.invariant (fun s => s.Integrity ∧ WithinLimits s.db.core) ?_ ?_ run
    · rintro _ ⟨seed, rfl⟩
      exact ⟨.initial seed, .initial seed⟩
    · rintro s action - ⟨few, covered⟩ ⟨integrity, within⟩
      rw [Rounded.perform_eq config integrity few, ← Platform.stepUnder_zero]
      exact ⟨integrity.stepUnder zeroFee_reserves action, within.step zeroFee_reserves integrity covered⟩
  rintro position member rfl
  exact (quantity_le_committed member).trans (kept.2 _ cap limited _ _)

def Seed.sized : Seed := { Seed.sample with riskLimits := ⟨[⟨1, some 10, none, none, none⟩], by decide +kernel, by decide⟩ }

/-- Alice bids twice for this quantity, Bob buys the other outcome's shares of twice as much, and both bids are minted. -/
def twoBids (quantity : ℚ) : List Action :=
  [.deposit 1 "0x1" 100, .deposit 2 "0x2" 100,
    .trading (.createMarket ⟨"final", "sports", none, ["YES", "NO"]⟩), .trading (.openMarket 0),
    .trading (.prepareOrder 0 1 ⟨0, 0, .buy, .limit, some (3 / 5), quantity, none⟩ "a"), .trading (.createOrder 0 0 0),
    .trading (.prepareOrder 0 1 ⟨0, 0, .buy, .limit, some (3 / 5), quantity, none⟩ "b"), .trading (.createOrder 1 0 1),
    .trading (.prepareOrder 0 2 ⟨0, 1, .buy, .limit, some (2 / 5), 2 * quantity, none⟩ "c"), .trading (.createOrder 2 0 2),
    .trading (.readIncoming 0 2), .trading (.readMintIncoming 0), .trading (.readMintInstructions 0),
    .trading (.applyMintExecution 0 0), .trading (.applyMintExecution 1 0)]

/-- Two bids for 5 are covered by a maximum of 10. -/
theorem coveredBids_within :
    ((twoBids 5).foldl (Rounded.perform .sample) (.initial .sized)).db.core.exchange.positions.rows ≠ [] ∧
    ∀ position ∈ ((twoBids 5).foldl (Rounded.perform .sample) (.initial .sized)).db.core.exchange.positions.rows,
      position.userId = 1 → position.quantity ≤ 10 := by
  refine ⟨by decide +kernel, ?_⟩
  have allowed : Allowed (fun s action => Rounded.Small 0 1 1000 s action ∧ Covered s action) (Rounded.perform .sample)
      (.initial .sized) (twoBids 5) := by decide +kernel
  exact covered_positions (Guarded.foldl (.refl ⟨.sized, rfl⟩) (twoBids 5) (allowed.mono fun _ _ both =>
    ⟨⟨_, _, _, Rounded.scale_sample, both.1⟩, both.2⟩)) (by decide +kernel)

/-- Both bids for 10 pass the check, which sees no position yet, and leave Alice with 20. -/
theorem twoBids_exceed : ¬ ∀ config s userId cap, Rounded.Reached config s →
    (OrderRiskValidator.riskLimit s.db.core userId).bind RiskLimit.maxPositionSize = some cap →
    ∀ position ∈ s.db.core.exchange.positions.rows, position.userId = userId → position.quantity ≤ cap := by
  intro limited
  have allowed : Allowed (Rounded.Small 0 1 1000) (Rounded.perform .sample) (.initial .sized) (twoBids 10) := by decide +kernel
  have reached : Rounded.Reached .sample ((twoBids 10).foldl (Rounded.perform .sample) (.initial .sized)) :=
    Guarded.foldl (.refl ⟨_, rfl⟩) _ (allowed.mono fun _ _ small => ⟨_, _, _, Rounded.scale_sample, small⟩)
  have position : ((twoBids 10).foldl (Rounded.perform .sample) (.initial .sized)).db.core.exchange.positions.get? 1 =
      some ⟨1, 0, 0, 20, 0, 3 / 5, 0, none⟩ := by decide +kernel
  have within := limited _ _ 1 10 reached (by decide +kernel) _ (Table.get?_mem position) rfl
  norm_num at within

end Positions

end VerdictVaut
