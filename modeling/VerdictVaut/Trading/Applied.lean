import VerdictVaut.Trading.Effects

set_option autoImplicit false

namespace VerdictVaut.ExecutionCoordinator

open Relational Relational.Tx VerdictVaut.Core

def terms (order : Order) : Nat × Nat × Nat × OrderSide × Option ℚ × ℚ × Nat :=
  -- what an order was placed with; no step changes it
  (order.userId, order.marketId, order.outcomeId, order.side, order.price, order.quantity, order.sequence)

/-- The fresh-state checks of `applyExecution` and of `applyMintExecution`. -/
structure Executable (now : Time) (market : Market) (quantity : ℚ) (a b : Order) : Prop where
  market : market.isExecutable now = true
  first : a.isExecutable = true
  second : b.isExecutable = true
  positive : 0 < minRemaining quantity a b

theorem run_checked {α : Type} {now : Time} {market : Market} {quantity : ℚ} {a b : Order}
    (body : Tx Core Fault (Option α)) (c : Core) :
    (¬ Executable now market quantity a b ∧
      (if market.isExecutable now = false then pure none
        else if a.isExecutable = false ∨ b.isExecutable = false then pure none
        else if minRemaining quantity a b ≤ 0 then pure none
        else body : Tx Core Fault (Option α)).run c = .ok (none, c)) ∨
    (Executable now market quantity a b ∧
      (if market.isExecutable now = false then pure none
        else if a.isExecutable = false ∨ b.isExecutable = false then pure none
        else if minRemaining quantity a b ≤ 0 then pure none
        else body : Tx Core Fault (Option α)).run c = body.run c) := by
  by_cases closed : market.isExecutable now = false
  · exact .inl ⟨fun ok => by simp [ok.market] at closed, by rw [if_pos closed]; rfl⟩
  by_cases ended : a.isExecutable = false ∨ b.isExecutable = false
  · refine .inl ⟨fun ok => ?_, by rw [if_neg closed, if_pos ended]; rfl⟩
    rcases ended with stale | stale
    · simp [ok.first] at stale
    · simp [ok.second] at stale
  by_cases empty : minRemaining quantity a b ≤ 0
  · exact .inl ⟨fun ok => absurd ok.positive (not_lt.mpr empty),
      by rw [if_neg closed, if_neg ended, if_pos empty]; rfl⟩
  · rw [not_or] at ended
    exact .inr ⟨⟨by simpa using closed, by simpa using ended.1, by simpa using ended.2, not_le.mp empty⟩,
      by rw [if_neg closed, if_neg (not_or.mpr ended), if_neg empty]⟩

section Fills

structure FillTerms (i : ExecutionInstruction) (buy sell : Order) : Prop where
  -- an instruction as the matching engine makes it for these two orders
  buySide : buy.side = .buy
  sellSide : sell.side = .sell
  buyer : i.buyerUserId = buy.userId
  seller : i.sellerUserId = sell.userId
  apart : i.buyerUserId ≠ i.sellerUserId
  buyMarket : i.marketId = buy.marketId
  sellMarket : i.marketId = sell.marketId
  buyOutcome : i.outcomeId = buy.outcomeId
  sellOutcome : i.outcomeId = sell.outcomeId
  limit : ∃ limit, buy.price = some limit ∧ i.price ≤ limit
  price : 0 < i.price ∧ i.price < 1
  roles : (i.makerOrderId = i.buyOrderId ∧ i.takerOrderId = i.sellOrderId) ∨
    (i.makerOrderId = i.sellOrderId ∧ i.takerOrderId = i.buyOrderId)

theorem FillTerms.carried {i : ExecutionInstruction} {buy sell buy' sell' : Order} (fits : FillTerms i buy sell)
    (sameB : terms buy' = terms buy) (sameS : terms sell' = terms sell) : FillTerms i buy' sell' := by
  simp only [terms, Prod.mk.injEq] at sameB sameS
  obtain ⟨userB, marketB, outcomeB, sideB, priceB, -, -⟩ := sameB
  obtain ⟨userS, marketS, outcomeS, sideS, -, -, -⟩ := sameS
  exact
    { buySide := sideB.trans fits.buySide
      sellSide := sideS.trans fits.sellSide
      buyer := fits.buyer.trans userB.symm
      seller := fits.seller.trans userS.symm
      apart := fits.apart
      buyMarket := fits.buyMarket.trans marketB.symm
      sellMarket := fits.sellMarket.trans marketS.symm
      buyOutcome := fits.buyOutcome.trans outcomeB.symm
      sellOutcome := fits.sellOutcome.trans outcomeS.symm
      limit := by rw [priceB]; exact fits.limit
      price := fits.price
      roles := fits.roles }

variable {c c' : Core} {i : ExecutionInstruction} {buy sell : Order} {q : ℚ} {now : Time}

structure Executed (c c' : Core) (i : ExecutionInstruction) (buy sell : Order) (q : ℚ) : Prop where
  -- what one applied instruction does
  static : Static c c'
  mints : c'.exchange.mints = c.exchange.mints
  fills : ∃ fee, c'.exchange.fills.rows = c.exchange.fills.rows ++ [fillRow i q fee]
  fresh : ∀ fill ∈ c.exchange.fills.rows, fill.idempotencyKey ≠ i.idempotencyKey
  orders : c'.exchange.orders.rows =
    (c.exchange.orders.rows.set i.buyOrderId (executed buy q)).set i.sellOrderId (executed sell q)
  different : i.buyOrderId ≠ i.sellOrderId
  funds : Drawn c.ledger.funds c'.ledger.funds i.buyOrderId (q * i.price) (buy.remainingQuantity - q = 0)
  fundsOthers : ∀ type id, ¬ (type = .order ∧ id = i.buyOrderId) →
    c'.ledger.funds.forRef type id = c.ledger.funds.forRef type id
  shares : Drawn c.exchange.shares c'.exchange.shares i.sellOrderId q (sell.remainingQuantity - q = 0)
  sharesOthers : ∀ type id, ¬ (type = .order ∧ id = i.sellOrderId) →
    c'.exchange.shares.forRef type id = c.exchange.shares.forRef type id
  sharesKeys : Reserved.SameRefs c.exchange.shares c'.exchange.shares
  positions : ∃ settledB settledS,
    (settledB = none ∨ ∃ before ∈ c.exchange.positions.rows,
      tag before = (i.buyerUserId, i.marketId, i.outcomeId, settledB)) ∧
    (settledS = none ∨ ∃ before ∈ c.exchange.positions.rows,
      tag before = (i.sellerUserId, i.marketId, i.outcomeId, settledS)) ∧
    Rebalanced c.exchange.shares c'.exchange.shares
      (fun t => t = (i.buyerUserId, i.marketId, i.outcomeId, none) ∨
        t = (i.sellerUserId, i.marketId, i.outcomeId, none))
      (fun w => w (i.buyerUserId, i.marketId, i.outcomeId, settledB) * q -
        w (i.sellerUserId, i.marketId, i.outcomeId, settledS) * q)
  ledger : Ledger.Moved tradingKinds c.ledger c'.ledger
  transactions : ∀ t ∈ c'.ledger.transactions.rows, t ∈ c.ledger.transactions.rows ∨
    (t.referenceType = .fill ∧ t.referenceId = c.exchange.fills.size)
  collateral : ∀ m asset, Ledger.balanceOf c'.ledger (.market m) asset = Ledger.balanceOf c.ledger (.market m) asset

theorem tradePostings_market (i : ExecutionInstruction) (q price : ℚ) (feeResult : FillFeeResult) (m assetId asset : Nat) :
    Ledger.posted (Ledger.only (.market m) asset) assetId (tradePostings i q price feeResult) = 0 := by
  by_cases free : feeResult.buyerFee + feeResult.sellerFee = 0 <;>
    simp [Ledger.posted, tradePostings, share, Ledger.only, free]

theorem transferred {s₀ s₁ s₂ s₃ s₄ : Reserved Position} {buyer seller marketId outcomeId : Nat}
    (before : Rebalanced s₀ s₁ (fun _ => False) (fun _ => 0))
    (increased : Shifted s₁ s₂ buyer marketId outcomeId q)
    (decreased : Shifted s₂ s₃ seller marketId outcomeId (-q))
    (after : Rebalanced s₃ s₄ (fun _ => False) (fun _ => 0)) :
    ∃ settledB settledS,
      (settledB = none ∨ ∃ before ∈ s₀.holders.rows, tag before = (buyer, marketId, outcomeId, settledB)) ∧
      (settledS = none ∨ ∃ before ∈ s₀.holders.rows, tag before = (seller, marketId, outcomeId, settledS)) ∧
      Rebalanced s₀ s₄
        (fun t => t = (buyer, marketId, outcomeId, none) ∨ t = (seller, marketId, outcomeId, none))
        (fun w => w (buyer, marketId, outcomeId, settledB) * q -
          w (seller, marketId, outcomeId, settledS) * q) := by
  -- the seller's shares go to the buyer, between two changes of the reserved quantities
  obtain ⟨settledB, knownB, first⟩ := increased.rebalanced
  obtain ⟨settledS, knownS, second⟩ := decreased.rebalanced
  have known := before.trans first
  refine ⟨settledB, settledS, ?_, ?_, ((known.trans second).trans after).weaken ?_ ?_⟩
  · rcases knownB with rfl | ⟨row, member, same⟩
    · exact .inl rfl
    · rcases before.origin row member with ⟨row', member', same'⟩ | absurd
      · exact .inr ⟨row', member', same'.trans same⟩
      · cases absurd
  · rcases knownS with rfl | ⟨row, member, same⟩
    · exact .inl rfl
    · rcases known.origin row member with ⟨row', member', same'⟩ | absurd | opened
      · exact .inr ⟨row', member', same'.trans same⟩
      · cases absurd
      · rw [same] at opened
        simp only [Prod.mk.injEq] at opened
        exact .inl opened.2.2.2
  · intro t opened
    simpa using opened
  · intro w
    ring

theorem FillTerms.different (fits : FillTerms i buy sell)
    (buyFound : c.exchange.orders.get? i.buyOrderId = some buy)
    (sellFound : c.exchange.orders.get? i.sellOrderId = some sell) : i.buyOrderId ≠ i.sellOrderId := by
  intro same
  rw [same, sellFound] at buyFound
  cases buyFound
  have sides := fits.buySide
  rw [fits.sellSide] at sides
  cases sides

theorem settleFill_ok {t : Table Fill} {u : Unit} {fee : ℚ} {feeResult : FillFeeResult}
    (fills : t.rows = c.exchange.fills.rows ++ [fillRow i q fee])
    (fresh : ∀ fill ∈ c.exchange.fills.rows, fill.idempotencyKey ≠ i.idempotencyKey)
    (different : i.buyOrderId ≠ i.sellOrderId)
    (buyFound : c.exchange.orders.get? i.buyOrderId = some buy)
    (sellFound : c.exchange.orders.get? i.sellOrderId = some sell)
    (buySide : buy.side = .buy) (sellSide : sell.side = .sell)
    (done : (settleFill c.exchange.fills.size i buy sell q feeResult).run (fillsField.set t c) = .ok (u, c')) :
    Executed c c' i buy sell q := by
  simp only [settleFill, consumeReservations, run_bind_ok] at done
  obtain ⟨_, c₃, ⟨_, c₂, consumedB, consumedS⟩, _, c₄, posted, _, c₅, updatedB, _, c₆, updatedS, _, c₈, moved,
    _, c₉, releasedB, releasedS⟩ := done
  obtain ⟨funds, kB, rB, rfl, activeB, -, enoughB, rewrittenB⟩ := consumeFrom_ok consumedB
  obtain ⟨shares, kS, rS, rfl, activeS, -, enoughS, rewrittenS⟩ := consumeFrom_ok consumedS
  simp only [postTradeLedger, run_bind_ok, run_pure] at posted
  obtain ⟨result, _, posted, same⟩ := posted
  cases same
  obtain ⟨assetId, asset, l, named, entered, rfl⟩ := postInSettlementCurrency_ok posted
  obtain ⟨orders₁, rfl, rowsB⟩ := updateOrder_ok updatedB buyFound
  have sellFound' : orders₁.get? i.sellOrderId = some sell := by
    rw [Table.get?_of_set rowsB (Table.get?_lt buyFound), if_neg (Ne.symm different)]
    exact sellFound
  obtain ⟨orders₂, rfl, rowsS⟩ := updateOrder_ok updatedS sellFound'
  obtain ⟨middle, shares₂, rfl, shiftedB, shiftedS⟩ := updatePositions_ok moved
  obtain ⟨funds₂, rfl, endB, howB⟩ := releaseFilled_ok fundsField (by rw [buySide]; rfl) releasedB
  obtain ⟨shares₃, rfl, endS, howS⟩ := releaseFilled_ok sharesField (by rw [sellSide]; rfl) releasedS
  have kept := LedgerKept.rewritten activeB rewrittenB
  have onFunds := ((drawn_onRef activeB rewrittenB).trans (.same (reservations_posted entered))).trans endB
  have onShares := ((drawn_onRef activeS rewrittenS).trans
    (.same (shiftedS.reservations.trans shiftedB.reservations))).trans endS
  have ended : LedgerKept l { l with funds := funds₂ } := .released howB
  obtain ⟨settledB, settledS, knownB, knownS, rebalanced⟩ :=
    transferred (rebalanced_rewritten rewrittenS) shiftedB shiftedS (rebalanced_released howS)
  exact
    { static := (((((((Static.fills _ _).trans (.funds _ _)).trans (.shares _ _)).trans (.ledger _ _)).trans
        (.orders _ _)).trans (.orders _ _)).trans (.shares _ _)).trans ((Static.funds _ _).trans (.shares _ _))
      mints := rfl
      fills := ⟨fee, fills⟩
      fresh := fresh
      orders := by
        change orders₂.rows = _
        rw [rowsS]
        change orders₁.rows.set _ _ = _
        rw [rowsB]
        rfl
      different := different
      funds := ⟨enough_of_rewritten activeB enoughB rewrittenB, onFunds.mine⟩
      fundsOthers := onFunds.others
      shares := ⟨enough_of_rewritten activeS enoughS rewrittenS, onShares.mine⟩
      sharesOthers := onShares.others
      sharesKeys := onShares.refs
      positions := ⟨settledB, settledS, knownB, knownS, rebalanced⟩
      ledger := (kept.moved.trans (.postTransaction entered rfl rfl)).trans ended.moved
      transactions := transactions_posted entered
      collateral := by
        intro m other
        change Ledger.balanceOf { l with funds := funds₂ } _ _ = _
        rw [ended.balance, balanceOf_posted entered (tradePostings_market i q i.price feeResult m · other)]
        exact kept.balance _ _ }

theorem executeFill_ok {fees : FeeCalculator} {result : Option Nat}
    (done : (executeFill fees i buy sell q).run c = .ok (result, c'))
    (buyFound : c.exchange.orders.get? i.buyOrderId = some buy)
    (sellFound : c.exchange.orders.get? i.sellOrderId = some sell) (fits : FillTerms i buy sell) :
    (c' = c ∧ ∃ fill ∈ c.exchange.fills.rows, fill.idempotencyKey = i.idempotencyKey) ∨
      Executed c c' i buy sell q := by
  -- an instruction past the fresh-state checks either was already filled or executes against both orders
  simp only [executeFill, run_bind_ok] at done
  obtain ⟨_, _, allowed, ⟨fillId, existed⟩, c₁, created, rest⟩ := done
  obtain ⟨-, rfl⟩ := run_throwIf_ok.mp allowed
  rcases run_createOnce_ok created with ⟨rfl, rfl, t, inserted, rfl⟩ | ⟨rfl, rfl, fill, position, holds⟩
  · obtain ⟨-, fresh, rows⟩ := Table.insert_ok inserted
    simp only [Bool.false_eq_true, if_false, run_bind_ok, run_pure] at rest
    obtain ⟨_, c₂, settled, same⟩ := rest
    cases same
    refine .inr (settleFill_ok rows ?_ (fits.different buyFound sellFound) buyFound sellFound
      fits.buySide fits.sellSide settled)
    intro fill member same
    exact uniqueOn_eq_none.mp (fresh fill member) same.symm
  · simp only [if_true, run_pure] at rest
    cases rest
    exact .inl ⟨rfl, fill, Table.get?_mem position, of_decide_eq_true holds⟩

theorem run_applyExecution {market : Market} (buyFound : c.exchange.orders.get? i.buyOrderId = some buy)
    (sellFound : c.exchange.orders.get? i.sellOrderId = some sell)
    (marketFound : c.exchange.markets.get? i.marketId = some market) (fees : FeeCalculator) (now : Time) :
    (¬ Executable now market i.quantity buy sell ∧ (applyExecution fees now i).run c = .ok (none, c)) ∨
      (Executable now market i.quantity buy sell ∧ (applyExecution fees now i).run c =
        (executeFill fees i buy sell (minRemaining i.quantity buy sell)).run c) := by
  have first : (getOrThrow ordersField i.buyOrderId : Tx Core Fault Order).run c = .ok (buy, c) :=
    run_getOrThrow_ok.mpr ⟨buyFound, rfl⟩
  have second : (getOrThrow ordersField i.sellOrderId : Tx Core Fault Order).run c = .ok (sell, c) :=
    run_getOrThrow_ok.mpr ⟨sellFound, rfl⟩
  have third : (getOrThrow marketsField i.marketId : Tx Core Fault Market).run c = .ok (market, c) :=
    run_getOrThrow_ok.mpr ⟨marketFound, rfl⟩
  rw [applyExecution, run_bind_of_ok first, run_bind_of_ok second, run_bind_of_ok third]
  exact run_checked _ c

end Fills

section Mints

/-- A mint instruction as the engine makes it for these two orders, in a market of two outcomes. -/
structure MintTerms (i : MintInstruction) (a b : Order) : Prop where
  sideA : a.side = .buy
  sideB : b.side = .buy
  buyerA : i.buyerAUserId = a.userId
  buyerB : i.buyerBUserId = b.userId
  apart : i.buyerAUserId ≠ i.buyerBUserId
  marketA : i.marketId = a.marketId
  marketB : i.marketId = b.marketId
  outcomeA : i.outcomeAId = a.outcomeId
  outcomeB : i.outcomeBId = b.outcomeId
  outcomes : i.outcomeAId ≠ i.outcomeBId
  limitA : ∃ limit, a.price = some limit ∧ i.priceA ≤ limit
  limitB : ∃ limit, b.price = some limit ∧ i.priceB ≤ limit
  prices : i.priceA + i.priceB = 1
  positive : 0 < i.priceA ∧ 0 < i.priceB

theorem MintTerms.carried {i : MintInstruction} {a b a' b' : Order} (fits : MintTerms i a b)
    (sameA : terms a' = terms a) (sameB : terms b' = terms b) : MintTerms i a' b' := by
  simp only [terms, Prod.mk.injEq] at sameA sameB
  obtain ⟨userA, marketA, outcomeA, sideA, priceA, -, -⟩ := sameA
  obtain ⟨userB, marketB, outcomeB, sideB, priceB, -, -⟩ := sameB
  exact
    { sideA := sideA.trans fits.sideA
      sideB := sideB.trans fits.sideB
      buyerA := fits.buyerA.trans userA.symm
      buyerB := fits.buyerB.trans userB.symm
      apart := fits.apart
      marketA := fits.marketA.trans marketA.symm
      marketB := fits.marketB.trans marketB.symm
      outcomeA := fits.outcomeA.trans outcomeA.symm
      outcomeB := fits.outcomeB.trans outcomeB.symm
      outcomes := fits.outcomes
      limitA := by rw [priceA]; exact fits.limitA
      limitB := by rw [priceB]; exact fits.limitB
      prices := fits.prices
      positive := fits.positive }

variable {c c' : Core} {i : MintInstruction} {a b : Order} {q : ℚ} {now : Time}

theorem MintTerms.different (fits : MintTerms i a b)
    (foundA : c.exchange.orders.get? i.buyOrderAId = some a)
    (foundB : c.exchange.orders.get? i.buyOrderBId = some b) : i.buyOrderAId ≠ i.buyOrderBId := by
  intro same
  rw [same, foundB] at foundA
  cases foundA
  exact fits.apart (fits.buyerA.trans fits.buyerB.symm)

structure Minted (c c' : Core) (i : MintInstruction) (a b : Order) (q : ℚ) : Prop where
  -- what one applied mint does. The cost of both legs goes to the market's account
  static : Static c c'
  fills : c'.exchange.fills = c.exchange.fills
  mints : c'.exchange.mints.rows = c.exchange.mints.rows ++ [mintRow i q]
  orders : c'.exchange.orders.rows =
    (c.exchange.orders.rows.set i.buyOrderAId (executed a q)).set i.buyOrderBId (executed b q)
  fundsA : Drawn c.ledger.funds c'.ledger.funds i.buyOrderAId (q * i.priceA) (a.remainingQuantity - q = 0)
  fundsB : Drawn c.ledger.funds c'.ledger.funds i.buyOrderBId (q * i.priceB) (b.remainingQuantity - q = 0)
  fundsOthers : ∀ type id, ¬ (type = .order ∧ id = i.buyOrderAId) → ¬ (type = .order ∧ id = i.buyOrderBId) →
    c'.ledger.funds.forRef type id = c.ledger.funds.forRef type id
  shares : c'.exchange.shares.reservations = c.exchange.shares.reservations
  positions : ∃ settledA settledB,
    (settledA = none ∨ ∃ before ∈ c.exchange.positions.rows,
      tag before = (i.buyerAUserId, i.marketId, i.outcomeAId, settledA)) ∧
    (settledB = none ∨ ∃ before ∈ c.exchange.positions.rows,
      tag before = (i.buyerBUserId, i.marketId, i.outcomeBId, settledB)) ∧
    Rebalanced c.exchange.shares c'.exchange.shares
      (fun t => t = (i.buyerAUserId, i.marketId, i.outcomeAId, none) ∨
        t = (i.buyerBUserId, i.marketId, i.outcomeBId, none))
      (fun w => w (i.buyerAUserId, i.marketId, i.outcomeAId, settledA) * q +
        w (i.buyerBUserId, i.marketId, i.outcomeBId, settledB) * q)
  ledger : Ledger.Moved tradingKinds c.ledger c'.ledger
  transactions : ∀ t ∈ c'.ledger.transactions.rows, t ∈ c.ledger.transactions.rows ∨
    (t.referenceType = .completeSetMint ∧ t.referenceId = c.exchange.mints.size)
  posted : ∃ assetId asset, c.ledger.assets.find? Asset.isSettlementCurrency = some (assetId, asset) ∧
    ((∃ t ∈ c.ledger.transactions.rows, t.idempotencyKey = ⟨"mint", [c.exchange.mints.size]⟩) ∨
      ∀ m other, Ledger.balanceOf c'.ledger (.market m) other = Ledger.balanceOf c.ledger (.market m) other +
        if i.marketId = m ∧ assetId = other then q * i.priceA + q * i.priceB else 0)

theorem minted_positions {s₀ s₁ s₂ : Reserved Position} {userA userB marketId outcomeA outcomeB : Nat}
    (first : Shifted s₀ s₁ userA marketId outcomeA q) (second : Shifted s₁ s₂ userB marketId outcomeB q) :
    ∃ settledA settledB,
      (settledA = none ∨ ∃ before ∈ s₀.holders.rows, tag before = (userA, marketId, outcomeA, settledA)) ∧
      (settledB = none ∨ ∃ before ∈ s₀.holders.rows, tag before = (userB, marketId, outcomeB, settledB)) ∧
      Rebalanced s₀ s₂
        (fun t => t = (userA, marketId, outcomeA, none) ∨ t = (userB, marketId, outcomeB, none))
        (fun w => w (userA, marketId, outcomeA, settledA) * q + w (userB, marketId, outcomeB, settledB) * q) := by
  obtain ⟨settledA, knownA, movedA⟩ := first.rebalanced
  obtain ⟨settledB, knownB, movedB⟩ := second.rebalanced
  refine ⟨settledA, settledB, knownA, ?_, movedA.trans movedB⟩
  rcases knownB with rfl | ⟨row, member, same⟩
  · exact .inl rfl
  · rcases movedA.origin row member with ⟨row', member', same'⟩ | opened
    · exact .inr ⟨row', member', same'.trans same⟩
    · rw [same] at opened
      simp only [Prod.mk.injEq] at opened
      exact .inl opened.2.2.2

theorem drawn_both {H : Type} [Holder H] {s₀ s₁ s₂ s₃ s₄ s₅ : Reserved H} {orderA orderB : Nat}
    {drawA drawB finishA finishB : Reservation → Reservation} (different : orderA ≠ orderB)
    (drawnA : Reserved.OnRef s₀ s₁ .order orderA drawA) (drawnB : Reserved.OnRef s₁ s₂ .order orderB drawB)
    (between : s₃.reservations = s₂.reservations) (endA : Reserved.OnRef s₃ s₄ .order orderA finishA)
    (endB : Reserved.OnRef s₄ s₅ .order orderB finishB) :
    (∀ r, s₀.forRef .order orderA = [r] → s₅.forRef .order orderA = [finishA (drawA r)]) ∧
    (∀ r, s₀.forRef .order orderB = [r] → s₅.forRef .order orderB = [finishB (drawB r)]) ∧
    ∀ type id, ¬ (type = .order ∧ id = orderA) → ¬ (type = .order ∧ id = orderB) →
      s₅.forRef type id = s₀.forRef type id := by
  -- two orders' reservations, each drawn down and then given back, in turn
  have kept : ∀ type id, s₃.forRef type id = s₂.forRef type id := by
    intro type id
    rw [Reserved.forRef, between, Reserved.forRef]
  have notB : ¬ (ReferenceType.order = .order ∧ orderA = orderB) := fun same => different same.2
  have notA : ¬ (ReferenceType.order = .order ∧ orderB = orderA) := fun same => different same.2.symm
  refine ⟨?_, ?_, ?_⟩
  · intro r single
    rw [endB.others _ _ notB]
    refine endA.mine _ ?_
    rw [kept, drawnB.others _ _ notB]
    exact drawnA.mine r single
  · intro r single
    refine endB.mine _ ?_
    rw [endA.others _ _ notA, kept]
    refine drawnB.mine r ?_
    rw [drawnA.others _ _ notA]
    exact single
  · intro type id outsideA outsideB
    rw [endB.others _ _ outsideB, endA.others _ _ outsideA, kept, drawnB.others _ _ outsideB,
      drawnA.others _ _ outsideA]

theorem mintPostings_market (i : MintInstruction) (q : ℚ) (m assetId other : Nat) :
    Ledger.posted (Ledger.only (.market m) other) assetId (mintPostings i q) =
      if i.marketId = m ∧ assetId = other then q * i.priceA + q * i.priceB else 0 := by
  simp [Ledger.posted, mintPostings, share, Ledger.only]

theorem settleMint_ok {t : Table CompleteSetMint} {u : Unit}
    (mints : t.rows = c.exchange.mints.rows ++ [mintRow i q])
    (different : i.buyOrderAId ≠ i.buyOrderBId)
    (foundA : c.exchange.orders.get? i.buyOrderAId = some a)
    (foundB : c.exchange.orders.get? i.buyOrderBId = some b) (sideA : a.side = .buy) (sideB : b.side = .buy)
    (done : (settleMint c.exchange.mints.size i a b q).run (mintsField.set t c) = .ok (u, c')) :
    Minted c c' i a b q := by
  simp only [settleMint, run_bind_ok] at done
  obtain ⟨_, c₁, consumedA, _, c₂, consumedB, _, c₃, posted, _, c₄, updatedA, _, c₅, updatedB, _, c₆, increasedA,
    _, c₇, increasedB, _, c₈, releasedA, releasedB⟩ := done
  obtain ⟨funds₁, kA, rA, rfl, activeA, -, enoughA, rewrittenA⟩ := consumeFrom_ok consumedA
  obtain ⟨funds₂, kB, rB, rfl, activeB, -, enoughB, rewrittenB⟩ := consumeFrom_ok consumedB
  simp only [postMintLedger, run_bind_ok, run_pure] at posted
  obtain ⟨result, _, posted, same⟩ := posted
  cases same
  obtain ⟨assetId, asset, l, named, entered, rfl⟩ := postInSettlementCurrency_ok posted
  obtain ⟨orders₁, rfl, rowsA⟩ := updateOrder_ok updatedA foundA
  have foundB' : orders₁.get? i.buyOrderBId = some b := by
    rw [Table.get?_of_set rowsA (Table.get?_lt foundA), if_neg (Ne.symm different)]
    exact foundB
  obtain ⟨orders₂, rfl, rowsB⟩ := updateOrder_ok updatedB foundB'
  obtain ⟨shares₁, rfl, shiftedA⟩ := increaseBuyerPosition_ok increasedA
  obtain ⟨shares₂, rfl, shiftedB⟩ := increaseBuyerPosition_ok increasedB
  obtain ⟨funds₃, rfl, endA, howA⟩ := releaseFilled_ok fundsField (by rw [sideA]; rfl) releasedA
  obtain ⟨funds₄, rfl, endB, howB⟩ := releaseFilled_ok fundsField (by rw [sideB]; rfl) releasedB
  have keptA := LedgerKept.rewritten activeA rewrittenA
  have keptB := LedgerKept.rewritten activeB rewrittenB
  have endedA : LedgerKept l { l with funds := funds₃ } := .released howA
  have endedB : LedgerKept { l with funds := funds₃ } { l with funds := funds₄ } := .released howB
  have drawnA := drawn_onRef activeA rewrittenA
  have drawnB := drawn_onRef activeB rewrittenB
  obtain ⟨mineA, mineB, others⟩ := drawn_both different drawnA drawnB (reservations_posted entered) endA endB
  exact
    { static := (((((((Static.mints _ _).trans (.funds _ _)).trans (.funds _ _)).trans (.ledger _ _)).trans
        (.orders _ _)).trans (.orders _ _)).trans ((Static.shares _ _).trans (.shares _ _))).trans
        ((Static.funds _ _).trans (.funds _ _))
      fills := rfl
      mints := mints
      orders := by
        change orders₂.rows = _
        rw [rowsB]
        change orders₁.rows.set _ _ = _
        rw [rowsA]
        rfl
      fundsA := ⟨enough_of_rewritten activeA enoughA rewrittenA, mineA⟩
      fundsB := by
        refine ⟨fun r single => enough_of_rewritten activeB enoughB rewrittenB r ?_, mineB⟩
        refine (drawnA.others _ _ fun same => different same.2.symm).trans single
      fundsOthers := others
      shares := shiftedB.reservations.trans shiftedA.reservations
      positions := minted_positions shiftedA shiftedB
      ledger := ((keptA.moved.trans keptB.moved).trans (.postTransaction entered rfl rfl)).trans
        (endedA.moved.trans endedB.moved)
      transactions := transactions_posted entered
      posted := by
        refine ⟨assetId, asset, named, ?_⟩
        rcases balanceOf_settled named rfl entered with ⟨-, taken⟩ | change
        · exact .inl taken
        · right
          intro m other
          have before : Ledger.balanceOf _ (.market m) other = Ledger.balanceOf c.ledger (.market m) other :=
            (keptB.balance _ _).trans (keptA.balance _ _)
          have after := (endedB.balance (.market m) other).trans (endedA.balance (.market m) other)
          rw [change, mintPostings_market] at after
          exact after.trans (congrArg (· + _) before) }

theorem executeMint_ok {result : Option Nat}
    (done : (executeMint i a b q).run c = .ok (result, c'))
    (foundA : c.exchange.orders.get? i.buyOrderAId = some a)
    (foundB : c.exchange.orders.get? i.buyOrderBId = some b) (fits : MintTerms i a b) :
    (c' = c ∧ ∃ mint ∈ c.exchange.mints.rows, mint.idempotencyKey = i.idempotencyKey) ∨ Minted c c' i a b q := by
  simp only [executeMint, run_bind_ok] at done
  obtain ⟨⟨mintId, existed⟩, c₁, created, rest⟩ := done
  rcases run_createOnce_ok created with ⟨rfl, rfl, t, inserted, rfl⟩ | ⟨rfl, rfl, mint, position, holds⟩
  · obtain ⟨-, -, rows⟩ := Table.insert_ok inserted
    simp only [Bool.false_eq_true, if_false, run_bind_ok, run_pure] at rest
    obtain ⟨_, c₂, settled, same⟩ := rest
    cases same
    exact .inr (settleMint_ok rows (fits.different foundA foundB) foundA foundB fits.sideA fits.sideB settled)
  · simp only [if_true, run_pure] at rest
    cases rest
    exact .inl ⟨rfl, mint, Table.get?_mem position, of_decide_eq_true holds⟩

theorem run_applyMintExecution {market : Market} (foundA : c.exchange.orders.get? i.buyOrderAId = some a)
    (foundB : c.exchange.orders.get? i.buyOrderBId = some b)
    (marketFound : c.exchange.markets.get? i.marketId = some market) (now : Time) :
    (¬ Executable now market i.quantity a b ∧ (applyMintExecution now i).run c = .ok (none, c)) ∨
      (Executable now market i.quantity a b ∧ (applyMintExecution now i).run c =
        (executeMint i a b (minRemaining i.quantity a b)).run c) := by
  have first : (getOrThrow ordersField i.buyOrderAId : Tx Core Fault Order).run c = .ok (a, c) :=
    run_getOrThrow_ok.mpr ⟨foundA, rfl⟩
  have second : (getOrThrow ordersField i.buyOrderBId : Tx Core Fault Order).run c = .ok (b, c) :=
    run_getOrThrow_ok.mpr ⟨foundB, rfl⟩
  have third : (getOrThrow marketsField i.marketId : Tx Core Fault Market).run c = .ok (market, c) :=
    run_getOrThrow_ok.mpr ⟨marketFound, rfl⟩
  rw [applyMintExecution, run_bind_of_ok first, run_bind_of_ok second, run_bind_of_ok third]
  exact run_checked _ c

end Mints

end VerdictVaut.ExecutionCoordinator
