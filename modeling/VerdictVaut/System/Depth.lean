import VerdictVaut.System.Charged
import VerdictVaut.Trading.OrderBook
import VerdictVaut.Shared.Grouped

set_option autoImplicit false

namespace VerdictVaut

open Relational Relational.Tx VerdictVaut.Core ExecutionCoordinator ResolutionService OrderBook

variable {fees : FeeCalculator} {config : WalletConfig} {c c' : Core} {s : Platform}

section Limits

theorem TradingEffect.known (effect : TradingEffect c c') (o : Nat) (order' : Order)
    (found : c'.exchange.orders.get? o = some order') :
    (∃ order, c.exchange.orders.get? o = some order ∧ terms order' = terms order) ∨
      ∃ placement sequence, order' = OrdersService.orderRow placement sequence := by
  have same (orders : c'.exchange.orders = c.exchange.orders) :
      (∃ order, c.exchange.orders.get? o = some order ∧ terms order' = terms order) ∨
        ∃ placement sequence, order' = OrdersService.orderRow placement sequence := by
    rw [orders] at found
    exact .inl ⟨order', found, rfl⟩
  cases effect with
  | unchanged this => exact same (by rw [this])
  | filled marketFound buyFound sellFound fits fresh done =>
    exact .inl ((carries_of_two_sets terms buyFound sellFound done.orders rfl rfl).2 o order' found)
  | minted marketFound foundA foundB fits binary fresh done =>
    exact .inl ((carries_of_two_sets terms foundA foundB done.orders rfl rfl).2 o order' found)
  | placed fits listed done =>
    rw [Table.get?_of_append done.orders] at found
    split at found
    next =>
      cases found
      exact .inr ⟨_, _, rfl⟩
    next => exact .inl ⟨order', found, rfl⟩
  | ended done =>
    obtain ⟨before, earlier, terms, -⟩ := done.origin found
    exact .inl ⟨before, earlier, terms⟩
  | restated plain done =>
    obtain ⟨markets, rfl, -⟩ := done.result
    exact same rfl
  | closed running restated ended quiet =>
    obtain ⟨before, earlier, terms, -⟩ := ended.origin found
    obtain ⟨markets, rfl, -⟩ := restated.result
    exact .inl ⟨before, earlier, terms⟩
  | created done =>
    obtain ⟨markets, outcomes, market, new, rfl, -⟩ := done.result
    exact same rfl
  | resolved done =>
    obtain ⟨⟨market, -, -, markets, resolutions, settlements, rfl, -⟩, -⟩ := done
    exact same rfl
  | settled done =>
    obtain ⟨l, settlements, positions, transactionId, rfl, -⟩ := done.result
    exact same rfl
  | finalized finished marked this =>
    rcases marked with ⟨rfl, -⟩ | ⟨market, -, restated⟩
    · exact same (by rw [this]; rfl)
    · obtain ⟨markets, rfl, -⟩ := restated.result
      exact same (by rw [this]; rfl)

def Limited (c : Core) : Prop := ∀ order ∈ c.exchange.orders.rows, order.price.isSome = true

theorem Limited.traded (limited : Limited c) (effect : TradingEffect c c') : Limited c' := by
  intro order' member
  obtain ⟨o, found⟩ := Table.mem_iff_get?.mp member
  rcases effect.known o order' found with ⟨order, earlier, same⟩ | ⟨placement, sequence, rfl⟩
  · simp only [terms, Prod.mk.injEq] at same
    rw [same.2.2.2.2.1]
    exact limited order (Table.get?_mem earlier)
  · rfl

theorem Platform.ReachedUnder.limited (reserve : fees.Reserves) (reached : Platform.ReachedUnder fees config s) :
    Limited s.db.core := by
  refine Reachable.invariant (fun s => Limited s.db.core) ?_ ?_ reached
  · rintro _ ⟨seed, rfl⟩
    simp [Limited, Platform.initial, Seed.core]
  · intro s action earlier limited
    have integrity := Platform.ReachedUnder.integrity reserve earlier
    cases action with
    | trading action =>
      exact limited.traded (tradingStepUnder_effect reserve integrity.settleable.ordered integrity.fits action)
    | wallet action =>
      obtain ⟨l, same⟩ := (@Platform.walletStep_effect config s integrity action).frame.core
      change Limited (s.walletStep config action).db.core
      rw [same]
      exact limited

end Limits

section Earmarked

variable {H : Type} [Holder H]

theorem Reserved.Agrees.total {r : Reserved H} (agrees : r.Agrees) (selected : H → Bool) :
    sumWhere selected Holder.reserved r.holders.rows =
      sumWhere (fun reservation => reservation.isActive && (r.holders.get? reservation.holderId).any selected)
        Reservation.unconsumed r.reservations.rows := by
  -- what some holders have reserved is what the active reservations on them add up to
  rw [sumWhere_rows, sumWhere_byKey _ _ Reservation.holderId r.holders.size _ agrees.held]
  apply Finset.sum_congr rfl
  intro i inside
  obtain ⟨holder, found⟩ : ∃ holder, r.holders.get? i = some holder :=
    ⟨_, List.getElem?_eq_getElem (Finset.mem_range.mp inside)⟩
  have mine : sumWhere (fun reservation => reservation.isActive && (r.holders.get? reservation.holderId).any selected)
      Reservation.unconsumed (r.reservations.rows.filter fun reservation => decide (reservation.holderId = i)) =
      if selected holder then Reserved.earmarked r.reservations.rows i else 0 := by
    rw [sumWhere_filter]
    cases picked : selected holder with
    | false =>
      apply sumWhere_eq_zero
      intro reservation _
      by_cases here : reservation.holderId = i
      · simp [share, here, found, picked]
      · simp [share, here]
    | true =>
      apply sumWhere_congr
      intro reservation _
      by_cases here : reservation.holderId = i
      · simp [share, here, found, picked]
      · simp [share, here]
  rw [mine, found, Option.map_some, Option.getD_some, share, agrees.reserved i holder found]

end Earmarked

section Depth

def inOutcome (marketId outcomeId : Nat) (position : Position) : Bool :=
  decide (position.marketId = marketId) && decide (position.outcomeId = outcomeId)

theorem Backing.shareRefs (backing : Backing c) (o : Nat) :
    (c.exchange.shares.reservations.rows.filter fun r => decide (r.referenceId = o)) = c.exchange.shares.forRef .order o := by
  rw [Reserved.forRef]
  apply List.filter_congr
  intro r member
  simp [Reserved.isFor, (backing.shareKeys r member).1]

theorem Backing.shareRefs_lt (backing : Backing c) :
    ∀ r ∈ c.exchange.shares.reservations.rows, r.referenceId < c.exchange.orders.size := by
  intro r member
  by_contra outside
  have none := backing.noShares r.referenceId (not_lt.mp outside)
  rw [← backing.shareRefs] at none
  have listed : r ∈ c.exchange.shares.reservations.rows.filter fun other => decide (other.referenceId = r.referenceId) :=
    List.mem_filter.mpr ⟨member, by simp⟩
  rw [none] at listed
  cases listed

theorem Backing.offered (backing : Backing c) (limited : Limited c) (marketId outcomeId : Nat) :
    sumWhere (fun order => isResting marketId outcomeId order && decide (order.side = .sell)) Order.remainingQuantity
      c.exchange.orders.rows =
      sumWhere (inOutcome marketId outcomeId) Position.reservedQuantity c.exchange.positions.rows := by
  have reserved := backing.agrees.total (inOutcome marketId outcomeId)
  rw [sumWhere_byKey _ _ Reservation.referenceId c.exchange.orders.size _ backing.shareRefs_lt] at reserved
  change _ = sumWhere (inOutcome marketId outcomeId) Holder.reserved c.exchange.shares.holders.rows
  rw [reserved, sumWhere_rows]
  apply Finset.sum_congr rfl
  intro o inside
  obtain ⟨order, found⟩ : ∃ order, c.exchange.orders.get? o = some order :=
    ⟨_, List.getElem?_eq_getElem (Finset.mem_range.mp inside)⟩
  have priced := limited order (Table.get?_mem found)
  have backed := backing.orders o order found
  rw [found, Option.map_some, Option.getD_some, backing.shareRefs]
  cases side : order.side with
  | buy =>
    rw [(backed.buy side).1]
    simp [share, side]
  | sell =>
    obtain ⟨-, r, single, ⟨active, exactly⟩, position, held, mine⟩ := backed.sell side
    rw [single, sumWhere_cons, sumWhere_nil, add_zero]
    obtain ⟨-, ofMarket, ofOutcome⟩ := isPosition_iff.mp mine
    have holder : c.exchange.shares.holders.get? r.holderId = some position := held
    simp only [share, holder, Option.any_some, active, inOutcome, ofMarket, ofOutcome, isResting, priced, side, exactly,
      decide_true, Bool.and_true]
    congr 1
    simp only [Bool.and_comm]

theorem Ordered.bidsFunded (ordered : Ordered c) {assetId : Nat} {asset : Asset}
    (settlement : c.ledger.assets.find? Asset.isSettlementCurrency = some (assetId, asset)) :
    sumWhere (fun order => order.isExecutable && decide (order.side = .buy))
      (fun order => order.price.getD 0 * order.remainingQuantity) c.exchange.orders.rows ≤
      sumWhere (fun account => decide (account.assetId = assetId)) LedgerAccount.reservedBalance c.ledger.accounts.rows := by
  have backing := ordered.backing
  let held (r : Reservation) : Bool := r.isActive &&
    (c.ledger.accounts.get? r.holderId).any fun account => decide (account.assetId = assetId)
  have reserved : sumWhere (fun account => decide (account.assetId = assetId)) LedgerAccount.reservedBalance
      c.ledger.accounts.rows = sumWhere held Reservation.unconsumed c.ledger.funds.reservations.rows :=
    ordered.sound.agrees.total _
  have nonneg : ∀ r ∈ c.ledger.funds.reservations.rows, 0 ≤ r.unconsumed := by
    intro r member
    have valid := c.ledger.funds.reservations.checked r member
    simp only [RowSpec.check, Reservation.check, Bool.and_eq_true, decide_eq_true_eq] at valid
    exact sub_nonneg.mpr valid.2
  -- the withdrawals' reservations are on the same accounts
  let ofOrders := c.ledger.funds.reservations.rows.filter fun r => decide (r.referenceType = .order)
  have part : sumWhere held Reservation.unconsumed ofOrders ≤
      sumWhere held Reservation.unconsumed c.ledger.funds.reservations.rows := by
    rw [sumWhere_filter]
    apply sumWhere_mono
    intro r member
    have positive := nonneg r member
    cases picked : held r <;> by_cases ofOrder : r.referenceType = .order <;> simp [share, picked, ofOrder, positive]
  have refs (o : Nat) : (ofOrders.filter fun r => decide (r.referenceId = o)) = c.ledger.funds.forRef .order o := by
    rw [Reserved.forRef, List.filter_filter]
    apply List.filter_congr
    intro r _
    rw [Reserved.isFor, Bool.and_comm]
  have inside : ∀ r ∈ ofOrders, r.referenceId < c.exchange.orders.size := by
    intro r member
    by_contra outside
    have none := backing.noFunds r.referenceId (not_lt.mp outside)
    rw [← refs] at none
    have listed : r ∈ ofOrders.filter fun other => decide (other.referenceId = r.referenceId) :=
      List.mem_filter.mpr ⟨member, by simp⟩
    rw [none] at listed
    cases listed
  rw [reserved]
  refine le_trans ?_ part
  rw [sumWhere_byKey _ _ Reservation.referenceId c.exchange.orders.size _ inside, sumWhere_rows]
  apply Finset.sum_le_sum
  intro o within
  obtain ⟨order, found⟩ : ∃ order, c.exchange.orders.get? o = some order :=
    ⟨_, List.getElem?_eq_getElem (Finset.mem_range.mp within)⟩
  have backed := backing.orders o order found
  rw [found, Option.map_some, Option.getD_some, refs]
  cases side : order.side with
  | sell =>
    rw [(backed.sell side).1]
    simp [share, side]
  | buy =>
    obtain ⟨-, r, single, ⟨active, limit, limited, enough⟩, account, asset', accountFound, -, named⟩ := backed.buy side
    rw [settlement] at named
    obtain ⟨rfl, -⟩ := Prod.mk.inj (Option.some.inj named)
    rw [single, sumWhere_cons, sumWhere_nil, add_zero]
    have holder : c.ledger.accounts.get? r.holderId = some account := accountFound
    cases resting : order.isExecutable with
    | false => simp [share, held, active, resting]
    | true =>
      have cover := enough resting
      simp only [share, held, active, resting, side, holder, limited, decide_true, Bool.and_self, Option.any_some, if_true,
        Option.getD_some]
      linarith

end Depth

section Reached

structure BookBacked (c : Core) (view : OrderBookView) : Prop where
  -- the book that is shown is the liquidity there is, and all of it is backed
  bids : Displays c.exchange.orders view.marketId view.outcomeId .buy .desc view.bids
  asks : Displays c.exchange.orders view.marketId view.outcomeId .sell .asc view.asks
  positive : ∀ level ∈ view.bids ++ view.asks, 0 < level.remainingQuantity ∧ 0 < level.price ∧ level.price < 1
  swept : ∀ bound,
    ((getRestingCandidates c.exchange.orders view.marketId view.outcomeId .buy bound).map MatchCandidate.remainingQuantity).sum =
      ((view.bids.filter fun level => bound.admits level.price).map OrderBookLevel.remainingQuantity).sum ∧
    ((getRestingCandidates c.exchange.orders view.marketId view.outcomeId .sell bound).map MatchCandidate.remainingQuantity).sum =
      ((view.asks.filter fun level => bound.admits level.price).map OrderBookLevel.remainingQuantity).sum
  offered : (view.asks.map OrderBookLevel.remainingQuantity).sum =
    sumWhere (inOutcome view.marketId view.outcomeId) Position.reservedQuantity c.exchange.positions.rows
  funded : ∀ assetId asset, c.ledger.assets.find? Asset.isSettlementCurrency = some (assetId, asset) →
    (view.bids.map fun level => level.price * level.remainingQuantity).sum ≤
      sumWhere (fun account => decide (account.assetId = assetId)) LedgerAccount.reservedBalance c.ledger.accounts.rows

theorem OrderBook.IsLevel.positive (backing : Backing c) {marketId outcomeId : Nat} {side : OrderSide} {level : OrderBookLevel}
    (isLevel : IsLevel c.exchange.orders marketId outcomeId side level) :
    0 < level.remainingQuantity ∧ 0 < level.price ∧ level.price < 1 := by
  obtain ⟨⟨order, member, rests⟩, whole⟩ := isLevel
  obtain ⟨o, found⟩ := Table.mem_iff_get?.mp member
  have picked := rests
  simp only [restsAt, isResting, Bool.and_eq_true, decide_eq_true_eq] at rests
  obtain ⟨⟨⟨⟨-, executable⟩, -⟩, -⟩, limited⟩ := rests
  have valid := Table.check_of_get? found
  simp only [RowSpec.check, Bool.and_eq_true, limited, Option.all_some, decide_eq_true_eq] at valid
  refine ⟨?_, valid.1.1.2⟩
  rw [whole]
  calc 0 < order.remainingQuantity := (backing.orders o order found).resting executable
    _ = share (restsAt marketId outcomeId side level.price) Order.remainingQuantity order := by simp [share, picked]
    _ ≤ _ := by
      refine share_le_sumWhere _ _ _ (fun other listed => ?_) order member
      have others := c.exchange.orders.checked other listed
      simp only [RowSpec.check, Bool.and_eq_true, decide_eq_true_eq] at others
      unfold share
      split
      · exact others.1.2.1
      · exact le_rfl

/-- Every level that `getBook` shows can be traded with, and what is behind it is reserved. -/
theorem reached_bookBacked (reserve : fees.Reserves) (reached : Platform.ReachedUnder fees config s)
    {marketId outcomeId : Nat} {view : OrderBookView} (read : getBook s.db.core.exchange marketId outcomeId = .ok view) :
    BookBacked s.db.core view := by
  have ordered := (Platform.ReachedUnder.integrity reserve reached).settleable.ordered
  have limited := Platform.ReachedUnder.limited reserve reached
  obtain ⟨bids, asks⟩ := getBook_displays read
  obtain ⟨-, rfl⟩ := getBook_iff.mp read
  refine ⟨bids, asks, ?_, fun bound => ⟨bids.swept bound, asks.swept bound⟩, ?_, ?_⟩
  · intro level member
    rcases List.mem_append.mp member with bid | ask
    · exact ((bids.exactly level).mp bid).positive ordered.backing
    · exact ((asks.exactly level).mp ask).positive ordered.backing
  · have depth := asks.depth fun _ => 1
    rw [← ordered.backing.offered limited]
    simp only [one_mul] at depth
    rw [depth]
    apply sumWhere_congr
    intro order member
    obtain ⟨price, priced⟩ := Option.isSome_iff_exists.mp (limited order member)
    simp [share, priced]
  · intro assetId asset settlement
    refine le_trans ?_ (ordered.bidsFunded settlement)
    have depth := bids.depth id
    simp only [id] at depth
    rw [depth]
    apply sumWhere_mono
    intro order member
    have valid := s.db.core.exchange.orders.checked order member
    obtain ⟨price, priced⟩ := Option.isSome_iff_exists.mp (limited order member)
    simp only [RowSpec.check, Bool.and_eq_true, decide_eq_true_eq, priced, Option.all_some] at valid
    have nonneg : 0 ≤ price * order.remainingQuantity := mul_nonneg valid.1.1.2.1.le valid.1.2.1
    by_cases here : isResting marketId outcomeId order = true
    · have executable : order.isExecutable = true := by
        simp only [isResting, Bool.and_eq_true] at here
        exact here.1.2
      by_cases side : order.side = .buy
      · simp [share, here, executable, side]
      · simp [share, side]
    · by_cases counted : (order.isExecutable && decide (order.side = .buy)) = true
      · simp [share, here, counted, priced, nonneg]
      · simp [share, here, counted]

/-- The book after the sample sale is placed: 10 shares at a half on either side of it. -/
theorem chargedSale_bookBacked :
    getBook (Platform.afterUnder percentFees (chargedSale 100)).db.core.exchange 0 0 =
      .ok ⟨0, 0, [⟨1 / 2, 10⟩], [⟨1 / 2, 10⟩]⟩ ∧
    BookBacked (Platform.afterUnder percentFees (chargedSale 100)).db.core ⟨0, 0, [⟨1 / 2, 10⟩], [⟨1 / 2, 10⟩]⟩ :=
  ⟨by decide +kernel, reached_bookBacked percentFees_funded.reserves (chargedSale_reached 100)
    (by decide +kernel : getBook _ 0 0 = _)⟩

end Reached

end VerdictVaut
