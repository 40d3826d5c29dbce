import VerdictVaut.System.Integrity

set_option autoImplicit false

namespace VerdictVaut

open Relational Relational.Tx VerdictVaut.Core ExecutionCoordinator ResolutionService

variable {config : WalletConfig} {s : Platform}

section Markets

structure Collateralized (c : Core) (m a b : Nat) : Prop where
  -- the collateral of a binary market covers what its positions are worth
  sets : openInterest c.exchange m a = minted c.exchange m ∧ openInterest c.exchange m b = minted c.exchange m
  collateral : ∀ assetId asset, c.ledger.assets.find? Asset.isSettlementCurrency = some (assetId, asset) →
    Ledger.balanceOf c.ledger (.market m) assetId = minted c.exchange m - paidOut c.exchange m
  pays : ∀ positionId position now e, c.exchange.positions.get? positionId = some position → position.marketId = m →
    (SettlementService.settleOnePosition now positionId).run c = .error e →
    ∀ accountId current requested, e ≠ .insufficientBalance accountId current requested
  empties : ∀ market assetId asset, c.exchange.markets.get? m = some market → market.isDecided = true →
    c.ledger.assets.find? Asset.isSettlementCurrency = some (assetId, asset) →
    (∀ i position, c.exchange.positions.get? i = some position → position.marketId = m →
      ∃ settlement ∈ c.exchange.positionSettlements.rows, settlement.positionId = i) →
    Ledger.balanceOf c.ledger (.market m) assetId = 0

/-- In every state, every binary market is collateralized. -/
theorem reached_collateralized (reached : Platform.Reached config s) {m a b : Nat}
    (binary : outcomesOf s.db.core.exchange.outcomes m = [a, b]) : Collateralized s.db.core m a b := by
  obtain ⟨sound, -, solvent, -⟩ := reached.integrity.settleable.ordered
  refine ⟨solvent.sets m a b binary, fun assetId asset named => solvent.collateral assetId asset named m, ?_, ?_⟩
  · intro positionId position now e found mine failed
    exact settleOnePosition_error solvent sound found (by rw [mine]; exact binary) failed
  · intro market assetId asset found decided named settled
    rw [solvent.collateral assetId asset named m]
    exact solvent.nothing_left binary found decided settled

def mintedMarket : List Action :=
  -- two buyers of the two outcomes, whose orders are matched by a mint
  [.deposit 1 "0x1" 100, .deposit 2 "0x2" 100,
    .trading (.createMarket ⟨"final", "sports", none, ["YES", "NO"]⟩), .trading (.openMarket 0),
    .trading (.prepareOrder 0 1 ⟨0, 0, .buy, .limit, some (3 / 5), 10, none⟩ "a"), .trading (.createOrder 0 0 0),
    .trading (.prepareOrder 0 2 ⟨0, 1, .buy, .limit, some (2 / 5), 10, none⟩ "b"), .trading (.createOrder 1 0 1),
    .trading (.readIncoming 0 1), .trading (.readMintIncoming 0), .trading (.readMintInstructions 0),
    .trading (.applyMintExecution 0 0)]

theorem mintedMarket_collateralized :
    minted (Platform.after mintedMarket).db.core.exchange 0 = 10 ∧
      Collateralized (Platform.after mintedMarket).db.core 0 0 1 := by
  refine ⟨by decide +kernel, reached_collateralized (Platform.reached_after mintedMarket) ?_⟩
  decide +kernel

end Markets

section Reservations

structure ReservedAgrees (c : Core) : Prop where
  -- what is reserved on accounts and positions is what the active reservations hold
  funds : ∀ i account, c.ledger.accounts.get? i = some account → account.reservedBalance =
    sumWhere (fun r => decide (r.holderId = i) && r.isActive) (fun r => r.amount - r.consumedAmount)
      c.ledger.funds.reservations.rows
  fundsBounds : ∀ i account userId, c.ledger.accounts.get? i = some account → account.owner = .user userId →
    0 ≤ account.reservedBalance ∧ account.reservedBalance ≤ account.cachedBalance
  shares : ∀ i position, c.exchange.positions.get? i = some position → position.reservedQuantity =
    sumWhere (fun r => decide (r.holderId = i) && r.isActive) (fun r => r.amount - r.consumedAmount)
      c.exchange.shares.reservations.rows
  sharesBounds : ∀ i position, c.exchange.positions.get? i = some position →
    0 ≤ position.reservedQuantity ∧ position.reservedQuantity ≤ position.quantity

theorem reached_reservedAgrees (reached : Platform.Reached config s) : ReservedAgrees s.db.core := by
  obtain ⟨sound, backing, -, -⟩ := reached.integrity.settleable.ordered
  refine ⟨sound.agrees.reserved, ?_, backing.agrees.reserved, ?_⟩
  · intro i account userId found owned
    have member := Table.get?_mem found
    exact ⟨LedgerAccount.reserved_nonneg member, (LedgerAccount.bounds member (by rw [owned]; rfl)).2⟩
  · intro i position found
    have valid := Table.check_of_get? found
    simp only [RowSpec.check, Position.check, Bool.and_eq_true, decide_eq_true_eq] at valid
    exact valid.2

theorem mintedMarket_reservedAgrees :
    (Platform.after mintedMarket).db.core.ledger.funds.reservations.size = 2 ∧
      ReservedAgrees (Platform.after mintedMarket).db.core :=
  ⟨by decide +kernel, reached_reservedAgrees (Platform.reached_after mintedMarket)⟩

end Reservations

section Orders

structure OrderAgrees (c : Core) (orderId : Nat) (order : Order) : Prop where
  -- an order agrees with its reservation and with what was executed of it
  reservation : ∃ r, c.ledger.funds.forRef .order orderId ++ c.exchange.shares.forRef .order orderId = [r] ∧
    (r.status = .active ↔ order.status = .opened ∨ order.status = .partiallyFilled) ∧
    (order.side = .sell → r.amount - r.consumedAmount = order.remainingQuantity) ∧
    (order.side = .buy → r.status = .active → ∃ limit, order.price = some limit ∧
      order.remainingQuantity * limit ≤ r.amount - r.consumedAmount)
  quantities : order.filledQuantity + order.remainingQuantity = order.quantity
  filled : order.filledQuantity = executedTotal c.exchange orderId

theorem Backed.orderAgrees {c : Core} {orderId : Nat} {order : Order} (backed : Backed c orderId order)
    (found : c.exchange.orders.get? orderId = some order) : OrderAgrees c orderId order := by
  have executable : order.isExecutable = true ↔ order.status = .opened ∨ order.status = .partiallyFilled := by
    simp [Order.isExecutable]
  have valid := Table.check_of_get? found
  simp only [RowSpec.check, Bool.and_eq_true, decide_eq_true_eq] at valid
  refine ⟨?_, valid.2, backed.filled⟩
  cases side : order.side with
  | buy =>
    obtain ⟨none, r, single, held, -⟩ := backed.buy side
    have active : r.status = .active ↔ order.isExecutable = true := by
      rw [← held.active, Reservation.isActive, decide_eq_true_eq]
    refine ⟨r, by rw [none, single, List.append_nil], active.trans executable, ?_, ?_⟩
    · intro sell
      cases sell
    intro _ isActive
    obtain ⟨limit, priced, enough⟩ := held.enough
    exact ⟨limit, priced, enough (active.mp isActive)⟩
  | sell =>
    obtain ⟨none, r, single, held, -⟩ := backed.sell side
    have active : r.status = .active ↔ order.isExecutable = true := by
      rw [← held.active, Reservation.isActive, decide_eq_true_eq]
    refine ⟨r, by rw [none, single, List.nil_append], active.trans executable, fun _ => held.exact, ?_⟩
    intro buy
    cases buy

theorem Ordered.market {c : Core} (ordered : Ordered c) {o : Nat} {order : Order}
    (found : c.exchange.orders.get? o = some order) : ∃ market, c.exchange.markets.get? order.marketId = some market := by
  obtain ⟨⟨i, outcome⟩, member, -⟩ := List.mem_map.mp (ordered.listed order (Table.get?_mem found))
  obtain ⟨place, ofMarket⟩ := Table.mem_findMany.mp member
  have inside := ordered.solvent.outcomesIn outcome (Table.get?_mem place)
  rw [of_decide_eq_true ofMarket] at inside
  exact ⟨_, List.getElem?_eq_getElem inside⟩

theorem applyExecution_succeeds {c : Core} (ordered : Ordered c) {i : ExecutionInstruction} (fits : FillFits c i)
    (now : Time) : ∃ result c', (applyExecution zeroFeeCalculator now i).run c = .ok (result, c') := by
  obtain ⟨buy, sell, buyFound, sellFound, terms⟩ := fits
  obtain ⟨market, marketFound⟩ := ordered.market buyFound
  rw [← terms.buyMarket] at marketFound
  rcases run_applyExecution buyFound sellFound marketFound zeroFeeCalculator now with ⟨-, stale⟩ | ⟨fresh, ran⟩
  · exact ⟨_, _, stale⟩
  · rw [ran]
    exact executeFill_succeeds ordered.backing ordered.sound.agrees buyFound sellFound terms fresh

theorem applyMintExecution_succeeds {c : Core} (ordered : Ordered c) {i : MintInstruction} (fits : MintFits c i)
    (now : Time) : ∃ result c', (applyMintExecution now i).run c = .ok (result, c') := by
  obtain ⟨a, b, foundA, foundB, terms, -⟩ := fits
  obtain ⟨market, marketFound⟩ := ordered.market foundA
  rw [← terms.marketA] at marketFound
  rcases run_applyMintExecution foundA foundB marketFound now with ⟨-, stale⟩ | ⟨fresh, ran⟩
  · exact ⟨_, _, stale⟩
  · rw [ran]
    exact executeMint_succeeds ordered.backing ordered.sound.agrees foundA foundB terms fresh

/-- Every order agrees with its reservation, so that no instruction of the engine ever throws: whenever it is
applied, it is stale or finds enough reserved. -/
theorem reached_ordersAgree (reached : Platform.Reached config s) :
    (∀ o order, s.db.core.exchange.orders.get? o = some order → OrderAgrees s.db.core o order) ∧
      (∀ i ∈ s.desk.instructions, ∀ now, ∃ result c',
        (applyExecution zeroFeeCalculator now i).run s.db.core = .ok (result, c')) ∧
      ∀ i ∈ s.desk.mintInstructions, ∀ now, ∃ result c', (applyMintExecution now i).run s.db.core = .ok (result, c') := by
  obtain ⟨⟨ordered, -, -⟩, fits, -⟩ := reached.integrity
  refine ⟨?_, ?_, ?_⟩
  · exact fun o order found => (ordered.backing.orders o order found).orderAgrees found
  · exact fun i member now => applyExecution_succeeds ordered (fits.instructions i member) now
  · exact fun i member now => applyMintExecution_succeeds ordered (fits.mintInstructions i member) now

def matchedSale : List Action :=
  -- a sale of half of a minted position, matched and not yet executed
  mintedMarket ++
  [.trading (.prepareOrder 0 1 ⟨0, 0, .sell, .limit, some (1 / 2), 5, none⟩ "c"), .trading (.createOrder 2 0 2),
    .trading (.prepareOrder 0 2 ⟨0, 0, .buy, .limit, some (1 / 2), 8, none⟩ "d"), .trading (.createOrder 3 0 3),
    .trading (.readIncoming 0 3), .trading (.readInstructions 1)]

theorem matchedSale_ordersAgree :
    (Platform.after matchedSale).desk.instructions.length = 1 ∧
      (∀ o order, (Platform.after matchedSale).db.core.exchange.orders.get? o = some order →
        OrderAgrees (Platform.after matchedSale).db.core o order) ∧
      (∀ i ∈ (Platform.after matchedSale).desk.instructions, ∀ now, ∃ result c',
        (applyExecution zeroFeeCalculator now i).run (Platform.after matchedSale).db.core = .ok (result, c')) ∧
      ∀ i ∈ (Platform.after matchedSale).desk.mintInstructions, ∀ now, ∃ result c',
        (applyMintExecution now i).run (Platform.after matchedSale).db.core = .ok (result, c') :=
  ⟨by decide +kernel, reached_ordersAgree (Platform.reached_after matchedSale)⟩

end Orders

end VerdictVaut
