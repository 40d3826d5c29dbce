import VerdictVaut.System.Journal

set_option autoImplicit false

namespace VerdictVaut

open Relational Relational.Tx VerdictVaut.Core ExecutionCoordinator ResolutionService

variable {fees : FeeCalculator} {config : WalletConfig} {c c' : Core} {desk : Desk} {s : Platform}

section Quotes

structure Quoted (orders : Table Order) (i : ExecutionInstruction) (buy sell : Order) (bid ask : ℚ) : Prop where
  -- an instruction between two orders, at the maker's own limit and within the taker's
  buyFound : orders.get? i.buyOrderId = some buy
  sellFound : orders.get? i.sellOrderId = some sell
  buySide : buy.side = .buy
  sellSide : sell.side = .sell
  buyPrice : buy.price = some bid
  sellPrice : sell.price = some ask
  within : ask ≤ i.price ∧ i.price ≤ bid
  maker : (i.makerOrderId = i.buyOrderId ∧ i.takerOrderId = i.sellOrderId ∧ i.price = bid) ∨
    (i.makerOrderId = i.sellOrderId ∧ i.takerOrderId = i.buyOrderId ∧ i.price = ask)

structure MintQuoted (orders : Table Order) (i : MintInstruction) (a b : Order) (limit : ℚ) : Prop where
  -- a mint for two orders: the resting one pays its own limit and the incoming one the rest
  foundA : orders.get? i.buyOrderAId = some a
  foundB : orders.get? i.buyOrderBId = some b
  sideA : a.side = .buy
  sideB : b.side = .buy
  limitA : a.price = some limit
  limitB : b.price = some i.priceB
  within : i.priceA ≤ limit
  whole : i.priceA + i.priceB = 1

def FairFill (orders : Table Order) (i : ExecutionInstruction) : Prop :=
  ∃ buy sell bid ask, Quoted orders i buy sell bid ask

def FairMint (orders : Table Order) (i : MintInstruction) : Prop :=
  ∃ a b limit, MintQuoted orders i a b limit

theorem FairFill.carried {orders orders' : Table Order} {i : ExecutionInstruction} (fair : FairFill orders i)
    (carried : Table.Carries terms orders orders') : FairFill orders' i := by
  obtain ⟨buy, sell, bid, ask, quoted⟩ := fair
  obtain ⟨buy', buyFound, sameB⟩ := carried _ _ quoted.buyFound
  obtain ⟨sell', sellFound, sameS⟩ := carried _ _ quoted.sellFound
  simp only [terms, Prod.mk.injEq] at sameB sameS
  obtain ⟨-, -, -, sideB, priceB, -, -⟩ := sameB
  obtain ⟨-, -, -, sideS, priceS, -, -⟩ := sameS
  exact ⟨buy', sell', bid, ask, buyFound, sellFound, sideB.trans quoted.buySide, sideS.trans quoted.sellSide,
    priceB.trans quoted.buyPrice, priceS.trans quoted.sellPrice, quoted.within, quoted.maker⟩

theorem FairMint.carried {orders orders' : Table Order} {i : MintInstruction} (fair : FairMint orders i)
    (carried : Table.Carries terms orders orders') : FairMint orders' i := by
  obtain ⟨a, b, limit, quoted⟩ := fair
  obtain ⟨a', foundA, sameA⟩ := carried _ _ quoted.foundA
  obtain ⟨b', foundB, sameB⟩ := carried _ _ quoted.foundB
  simp only [terms, Prod.mk.injEq] at sameA sameB
  obtain ⟨-, -, -, sideA, priceA, -, -⟩ := sameA
  obtain ⟨-, -, -, sideB, priceB, -, -⟩ := sameB
  exact ⟨a', b', limit, foundA, foundB, sideA.trans quoted.sideA, sideB.trans quoted.sideB,
    priceA.trans quoted.limitA, priceB.trans quoted.limitB, quoted.within, quoted.whole⟩

-- an instruction's quantity is cut down when it is applied, and its price is not
theorem fairFill_row {orders : Table Order} {i : ExecutionInstruction} {q fee : ℚ} :
    FairFill orders (fillRow i q fee).instruction ↔ FairFill orders i := by
  constructor
  · rintro ⟨buy, sell, bid, ask, quoted⟩
    exact ⟨buy, sell, bid, ask, quoted.buyFound, quoted.sellFound, quoted.buySide, quoted.sellSide, quoted.buyPrice,
      quoted.sellPrice, quoted.within, quoted.maker⟩
  · rintro ⟨buy, sell, bid, ask, quoted⟩
    exact ⟨buy, sell, bid, ask, quoted.buyFound, quoted.sellFound, quoted.buySide, quoted.sellSide, quoted.buyPrice,
      quoted.sellPrice, quoted.within, quoted.maker⟩

theorem fairMint_row {orders : Table Order} {i : MintInstruction} {q : ℚ} :
    FairMint orders (mintRow i q).instruction ↔ FairMint orders i := by
  constructor
  · rintro ⟨a, b, limit, quoted⟩
    exact ⟨a, b, limit, quoted.foundA, quoted.foundB, quoted.sideA, quoted.sideB, quoted.limitA, quoted.limitB,
      quoted.within, quoted.whole⟩
  · rintro ⟨a, b, limit, quoted⟩
    exact ⟨a, b, limit, quoted.foundA, quoted.foundB, quoted.sideA, quoted.sideB, quoted.limitA, quoted.limitB,
      quoted.within, quoted.whole⟩

theorem instruction_fair {orders : Table Order} {marketId outcomeId : Nat} {incoming resting : MatchCandidate}
    {order other : Order} {q : ℚ} (mine : CandidateOf orders marketId outcomeId incoming order)
    (theirs : CandidateOf orders marketId outcomeId resting other) (sides : resting.side ≠ incoming.side)
    (crossing : PriceTimePriority.crosses incoming resting) :
    FairFill orders (PriceTimePriority.instruction marketId outcomeId incoming resting q) := by
  -- what the matching engine makes of two orders of one outcome is at a price that both accept
  cases side : incoming.side with
  | buy =>
    have other_side : resting.side = .sell := by
      cases this : resting.side with
      | buy => exact absurd (this.trans side.symm) sides
      | sell => rfl
    simp only [PriceTimePriority.crosses, side, if_true] at crossing
    refine ⟨order, other, incoming.price, resting.price, ?_, ?_, mine.side.trans side, theirs.side.trans other_side,
      mine.price, theirs.price, ⟨le_rfl, crossing⟩, ?_⟩
    · simpa [PriceTimePriority.instruction, side] using mine.found
    · simpa [PriceTimePriority.instruction, side] using theirs.found
    · right
      simp [PriceTimePriority.instruction, side]
  | sell =>
    have other_side : resting.side = .buy := by
      cases this : resting.side with
      | sell => exact absurd (this.trans side.symm) sides
      | buy => rfl
    have below : incoming.price ≤ resting.price := by simpa [PriceTimePriority.crosses, side] using crossing
    refine ⟨other, order, resting.price, incoming.price, ?_, ?_, theirs.side.trans other_side, mine.side.trans side,
      theirs.price, mine.price, ⟨below, le_rfl⟩, ?_⟩
    · simpa [PriceTimePriority.instruction, side] using theirs.found
    · simpa [PriceTimePriority.instruction, side] using mine.found
    · left
      simp [PriceTimePriority.instruction, side]

theorem readInstructions_fair {x : Incoming} (fits : IncomingFits c x) {instructions : List ExecutionInstruction}
    (done : (readInstructions x).run c = .ok (instructions, c')) :
    ∀ i ∈ instructions, FairFill c.exchange.orders i := by
  rw [readInstructions, run_read] at done
  cases done
  intro i member
  obtain ⟨order, mine⟩ := fits
  obtain ⟨resting, listed, crossing, q, rfl⟩ := mem_matchEligible member
  obtain ⟨read, sides, -⟩ := mem_eligible.mp listed
  obtain ⟨other, theirs, -⟩ := mem_getRestingCandidates.mp read
  exact instruction_fair mine theirs sides crossing

theorem readMintInstructions_fair {x : MintIncoming} (fits : MintIncomingFits c x)
    {instructions : List MintInstruction} (done : (readMintInstructions x).run c = .ok (instructions, c')) :
    ∀ i ∈ instructions, FairMint c.exchange.orders i := by
  rw [readMintInstructions, run_read] at done
  cases done
  intro i member
  obtain ⟨side, -, ⟨order, mine⟩, -⟩ := fits
  obtain ⟨resting, listed, enough, q, rfl⟩ := mem_matchEligibleMints member
  simp only [CompleteSetMintEngine.eligible, List.mem_insertionSort, List.mem_filter, decide_eq_true_eq] at listed
  obtain ⟨⟨read, ofSide⟩, -⟩ := listed
  obtain ⟨other, theirs, -⟩ := mem_getRestingCandidates.mp read
  exact ⟨order, other, x.candidate.price, mine.found, theirs.found, mine.side.trans side, theirs.side.trans ofSide,
    mine.price, theirs.price, sub_le_iff_le_add.mpr enough, sub_add_cancel 1 resting.price⟩

end Quotes

section Rows

structure Priced (c : Core) (desk : Desk) : Prop where
  -- every price that is written down or in flight is one that both orders accept
  fills : ∀ fill ∈ c.exchange.fills.rows, FairFill c.exchange.orders fill.instruction
  mints : ∀ mint ∈ c.exchange.mints.rows, FairMint c.exchange.orders mint.instruction
  instructions : ∀ i ∈ desk.instructions, FairFill c.exchange.orders i
  mintInstructions : ∀ i ∈ desk.mintInstructions, FairMint c.exchange.orders i

structure Executes (c c' : Core) (desk : Desk) : Prop where
  -- what a step of trading executes is an instruction that was in flight
  fills : c'.exchange.fills.rows = c.exchange.fills.rows ∨ ∃ i ∈ desk.instructions, ∃ q fee,
    c'.exchange.fills.rows = c.exchange.fills.rows ++ [fillRow i q fee]
  mints : c'.exchange.mints.rows = c.exchange.mints.rows ∨ ∃ i ∈ desk.mintInstructions, ∃ q,
    c'.exchange.mints.rows = c.exchange.mints.rows ++ [mintRow i q]

theorem QuietEffect.executes (effect : QuietEffect c c') : Executes c c' desk := by
  have nothing {c' : Core} (fills : c'.exchange.fills = c.exchange.fills)
      (mints : c'.exchange.mints = c.exchange.mints) : Executes c c' desk := ⟨.inl (by rw [fills]), .inl (by rw [mints])⟩
  cases effect with
  | unchanged same =>
    rw [same]
    exact nothing rfl rfl
  | placed fits listed done => exact nothing done.fills done.mints
  | ended done => exact nothing done.fills done.mints
  | restated plain done =>
    obtain ⟨markets, rfl, -⟩ := done.result
    exact nothing rfl rfl
  | closed running restated ended quiet =>
    obtain ⟨-, fills, mints, -⟩ := ended.frame
    obtain ⟨markets, rfl, -⟩ := restated.result
    exact nothing fills mints
  | created done =>
    obtain ⟨markets, outcomes, market, new, rfl, -⟩ := done.result
    exact nothing rfl rfl
  | resolved done =>
    obtain ⟨market, -, -, markets, resolutions, settlements, rfl, -⟩ := done.market
    exact nothing rfl rfl
  | settled done =>
    obtain ⟨l, settlements, positions, transactionId, rfl, -⟩ := done.result
    exact nothing rfl rfl
  | finalized finished marked same =>
    rw [same]
    rcases marked with ⟨rfl, -⟩ | ⟨market, resolving, restated⟩
    · exact nothing rfl rfl
    · obtain ⟨markets, rfl, -⟩ := restated.result
      exact nothing rfl rfl

theorem transact_executes {α : Type} {body : Tx Core Fault α}
    (effect : ∀ a c', body.run c = .ok (a, c') → Executes c c' desk) : Executes c (transact body c) desk := by
  rcases transact_cases body c with same | ⟨a, done⟩
  · rw [same]
    exact ⟨.inl rfl, .inl rfl⟩
  · exact effect a _ done

theorem tradingStepUnder_executes (reserve : fees.Reserves) (ordered : Ordered c) (fits : DeskFits c desk)
    (action : TradingAction) : Executes c (tradingStepUnder fees (c, desk) action).1 desk := by
  cases action with
  | createOrder k now sequence =>
    simp only [tradingStepUnder]
    split
    next placement listed =>
      refine transact_executes fun _ _ done => ?_
      rcases OrdersService.create_ok reserve done with ⟨same, -⟩ | ⟨-, placed⟩
      · rw [same]
        exact ⟨.inl rfl, .inl rfl⟩
      · exact ⟨.inl (by rw [placed.fills]), .inl (by rw [placed.mints])⟩
    next => exact ⟨.inl rfl, .inl rfl⟩
  | applyExecution k now =>
    simp only [tradingStepUnder]
    split
    next i listed =>
      have inFlight := List.mem_of_getElem? listed
      refine transact_executes fun _ _ done => ?_
      rcases applyExecution_ok (fits.instructions i inFlight) done with same | ⟨_, _, _, -, -, -, -, -, executed⟩
      · rw [same]
        exact ⟨.inl rfl, .inl rfl⟩
      · obtain ⟨fee, fills⟩ := executed.fills
        exact ⟨.inr ⟨i, inFlight, _, fee, fills⟩, .inl (by rw [executed.mints])⟩
    next => exact ⟨.inl rfl, .inl rfl⟩
  | applyMintExecution k now =>
    simp only [tradingStepUnder, tradingStep]
    split
    next i listed =>
      have inFlight := List.mem_of_getElem? listed
      refine transact_executes fun _ _ done => ?_
      rcases applyMintExecution_ok (fits.mintInstructions i inFlight) done with same | ⟨_, _, _, -, -, -, -, -, minted⟩
      · rw [same]
        exact ⟨.inl rfl, .inl rfl⟩
      · exact ⟨.inl (by rw [minted.fills]), .inr ⟨i, inFlight, _, minted.mints⟩⟩
    next => exact ⟨.inl rfl, .inl rfl⟩
  | _ => exact (tradingStep_quiet ordered fits rfl).executes

end Rows

section Spent

def costOf (x : Exchange) (orderId : Nat) : ℚ :=
  -- what the executions of a BUY order cost
  sumWhere (fun fill => decide (fill.buyOrderId = orderId)) (fun fill => fill.quantity * fill.price) x.fills.rows +
    (sumWhere (fun mint => decide (mint.buyOrderAId = orderId)) (fun mint => mint.quantity * mint.priceA) x.mints.rows +
      sumWhere (fun mint => decide (mint.buyOrderBId = orderId)) (fun mint => mint.quantity * mint.priceB) x.mints.rows)

def soldOf (x : Exchange) (orderId : Nat) : ℚ :=
  sumWhere (fun fill => decide (fill.sellOrderId = orderId)) Fill.quantity x.fills.rows

def proceedsOf (x : Exchange) (orderId : Nat) : ℚ :=
  -- what the executions of a SELL order brought in, before fees
  sumWhere (fun fill => decide (fill.sellOrderId = orderId)) (fun fill => fill.quantity * fill.price) x.fills.rows

structure Spent (c : Core) : Prop where
  -- an order's reservation is drawn down by what its executions took
  buys : ∀ o r, c.ledger.funds.forRef .order o = [r] → r.consumedAmount = costOf c.exchange o
  sells : ∀ o r, c.exchange.shares.forRef .order o = [r] → r.consumedAmount = soldOf c.exchange o

theorem settle_consumedAmount (r : Reservation) : (Reserved.settle r).consumedAmount = r.consumedAmount := by
  unfold Reserved.settle
  split <;> rfl

theorem Drawn.consumed {H : Type} [Holder H] {s s' : Reserved H} {orderId : Nat} {amount : ℚ} {ends : Prop}
    [Decidable ends] (drawn : ExecutionCoordinator.Drawn s s' orderId amount ends) {r r' : Reservation}
    (single : s.forRef .order orderId = [r]) (after : s'.forRef .order orderId = [r']) :
    r'.consumedAmount = r.consumedAmount + amount := by
  rw [drawn.mine r single] at after
  cases after
  unfold finish
  split
  · rw [settle_consumedAmount]
    rfl
  · rfl

theorem Spent.kept (spent : Spent c) (fills : c'.exchange.fills = c.exchange.fills)
    (mints : c'.exchange.mints = c.exchange.mints)
    (funds : ∀ o, c'.ledger.funds.forRef .order o = c.ledger.funds.forRef .order o)
    (shares : ∀ o, c'.exchange.shares.forRef .order o = c.exchange.shares.forRef .order o) : Spent c' := by
  constructor
  · intro o r single
    rw [funds] at single
    rw [spent.buys o r single, costOf, costOf, fills, mints]
  · intro o r single
    rw [shares] at single
    rw [spent.sells o r single, soldOf, soldOf, fills]

theorem Spent.filled (spent : Spent c) (backing : Backing c) {i : ExecutionInstruction} {buy sell : Order} {q : ℚ}
    (buyFound : c.exchange.orders.get? i.buyOrderId = some buy)
    (sellFound : c.exchange.orders.get? i.sellOrderId = some sell) (fits : FillTerms i buy sell)
    (done : Executed c c' i buy sell q) : Spent c' := by
  obtain ⟨fee, fills⟩ := done.fills
  have cost (o : Nat) : costOf c'.exchange o = costOf c.exchange o + if i.buyOrderId = o then q * i.price else 0 := by
    simp only [costOf, fills, done.mints, sumWhere_append, sumWhere_cons, sumWhere_nil, share, fillRow, decide_eq_true_eq]
    ring
  have sold (o : Nat) : soldOf c'.exchange o = soldOf c.exchange o + if i.sellOrderId = o then q else 0 := by
    simp only [soldOf, fills, sumWhere_append, sumWhere_cons, sumWhere_nil, share, fillRow, decide_eq_true_eq]
    ring
  constructor
  · intro o r' after
    rw [cost]
    by_cases mine : i.buyOrderId = o
    · subst mine
      obtain ⟨-, r, single, -⟩ := (backing.orders _ _ buyFound).buy fits.buySide
      rw [Drawn.consumed done.funds single after, spent.buys _ r single, if_pos rfl]
    · rw [done.fundsOthers _ _ fun same => mine same.2.symm] at after
      rw [spent.buys o r' after, if_neg mine, add_zero]
  · intro o r' after
    rw [sold]
    by_cases mine : i.sellOrderId = o
    · subst mine
      obtain ⟨-, r, single, -⟩ := (backing.orders _ _ sellFound).sell fits.sellSide
      rw [Drawn.consumed done.shares single after, spent.sells _ r single, if_pos rfl]
    · rw [done.sharesOthers _ _ fun same => mine same.2.symm] at after
      rw [spent.sells o r' after, if_neg mine, add_zero]

theorem Spent.minted (spent : Spent c) (backing : Backing c) {i : MintInstruction} {a b : Order} {q : ℚ}
    (foundA : c.exchange.orders.get? i.buyOrderAId = some a) (foundB : c.exchange.orders.get? i.buyOrderBId = some b)
    (fits : MintTerms i a b) (done : Minted c c' i a b q) : Spent c' := by
  have different : i.buyOrderAId ≠ i.buyOrderBId := fits.different foundA foundB
  have cost (o : Nat) : costOf c'.exchange o = costOf c.exchange o +
      ((if i.buyOrderAId = o then q * i.priceA else 0) + if i.buyOrderBId = o then q * i.priceB else 0) := by
    simp only [costOf, done.fills, done.mints, sumWhere_append, sumWhere_cons, sumWhere_nil, share, mintRow,
      decide_eq_true_eq]
    ring
  constructor
  · intro o r' after
    rw [cost]
    by_cases ofA : i.buyOrderAId = o
    · subst ofA
      obtain ⟨-, r, single, -⟩ := (backing.orders _ _ foundA).buy fits.sideA
      rw [Drawn.consumed done.fundsA single after, spent.buys _ r single, if_pos rfl, if_neg different.symm, add_zero]
    · by_cases ofB : i.buyOrderBId = o
      · subst ofB
        obtain ⟨-, r, single, -⟩ := (backing.orders _ _ foundB).buy fits.sideB
        rw [Drawn.consumed done.fundsB single after, spent.buys _ r single, if_pos rfl, if_neg ofA, zero_add]
      · rw [done.fundsOthers _ _ (fun same => ofA same.2.symm) fun same => ofB same.2.symm] at after
        rw [spent.buys o r' after, if_neg ofA, if_neg ofB, add_zero, add_zero]
  · intro o r' after
    rw [Reserved.forRef, done.shares] at after
    rw [soldOf, done.fills]
    exact spent.sells o r' after

theorem Spent.ended (spent : Spent c) (backing : Backing c) {orderId : Nat} {order : Order} {status : OrderStatus}
    (done : OrdersService.Ended c c' orderId order status) : Spent c' := by
  have backed := backing.orders _ _ done.found
  cases side : order.side with
  | buy =>
    obtain ⟨shares, onRef⟩ := done.buy side
    obtain ⟨-, r, single, -⟩ := backed.buy side
    constructor
    · intro o r' after
      rw [costOf, done.fills, done.mints]
      by_cases mine : o = orderId
      · subst mine
        rw [onRef.mine r single] at after
        cases after
        rw [settle_consumedAmount]
        exact spent.buys _ r single
      · rw [onRef.others _ _ fun same => mine same.2] at after
        exact spent.buys o r' after
    · intro o r' after
      rw [shares] at after
      rw [soldOf, done.fills]
      exact spent.sells o r' after
  | sell =>
    obtain ⟨ledger, onRef⟩ := done.sell side
    obtain ⟨-, r, single, -⟩ := backed.sell side
    constructor
    · intro o r' after
      rw [ledger] at after
      rw [costOf, done.fills, done.mints]
      exact spent.buys o r' after
    · intro o r' after
      rw [soldOf, done.fills]
      by_cases mine : o = orderId
      · subst mine
        rw [onRef.mine r single] at after
        cases after
        rw [settle_consumedAmount]
        exact spent.sells _ r single
      · rw [onRef.others _ _ fun same => mine same.2] at after
        exact spent.sells o r' after

theorem Spent.endedAll (spent : Spent c) (ordered : Ordered c) (done : OrdersService.EndedAll c c') : Spent c' := by
  induction done with
  | refl => exact spent
  | head first _ ih => exact ih (spent.ended ordered.backing first) (ordered.ended first).ordered

-- the key under which a new order reserves is not taken
theorem Backing.untakenFunds (backing : Backing c) (sound : c.ledger.Sound) :
    ∀ r ∈ c.ledger.funds.reservations.rows, r.idempotencyKey ≠ ⟨"order-reserve", [c.exchange.orders.size]⟩ := by
  intro r member key
  have reference : Ledger.reserveKey r.referenceType r.referenceId =
    Ledger.reserveKey .order c.exchange.orders.size := (sound.reservationKeys r member).symm.trans key
  have inside : r ∈ c.ledger.funds.forRef .order c.exchange.orders.size :=
    List.mem_filter.mpr ⟨member, Reserved.isFor_iff.mpr (Ledger.reserveKey_order reference)⟩
  simp [backing.noFunds _ le_rfl] at inside

theorem Backing.untakenShares (backing : Backing c) :
    ∀ r ∈ c.exchange.shares.reservations.rows, r.idempotencyKey ≠ ⟨"order-reserve", [c.exchange.orders.size]⟩ := by
  intro r member key
  obtain ⟨kind, own⟩ := backing.shareKeys r member
  have number : r.referenceId = c.exchange.orders.size := by simpa [own] using key
  have inside : r ∈ c.exchange.shares.forRef .order c.exchange.orders.size :=
    List.mem_filter.mpr ⟨member, Reserved.isFor_iff.mpr ⟨kind, number⟩⟩
  simp [backing.noShares _ le_rfl] at inside

theorem costOf_absent (backing : Backing c) {o : Nat} (outside : c.exchange.orders.size ≤ o) :
    costOf c.exchange o = 0 ∧ soldOf c.exchange o = 0 := by
  have fills : ∀ fill ∈ c.exchange.fills.rows, fill.buyOrderId ≠ o ∧ fill.sellOrderId ≠ o := by
    intro fill member
    have inside := backing.fills fill member
    omega
  have mints : ∀ mint ∈ c.exchange.mints.rows, mint.buyOrderAId ≠ o ∧ mint.buyOrderBId ≠ o := by
    intro mint member
    have inside := backing.mints mint member
    omega
  constructor
  · rw [costOf, sumWhere_eq_zero, sumWhere_eq_zero, sumWhere_eq_zero, add_zero, add_zero]
    · exact fun mint member => by simp [share, (mints mint member).2]
    · exact fun mint member => by simp [share, (mints mint member).1]
    · exact fun fill member => by simp [share, (fills fill member).1]
  · rw [soldOf, sumWhere_eq_zero]
    exact fun fill member => by simp [share, (fills fill member).2]

theorem Spent.placed (spent : Spent c) (ordered : Ordered c) {placement : OrdersService.Placement} {now : Time}
    {sequence : Nat} (done : OrdersService.Placed c c' placement now sequence) : Spent c' := by
  have backing := ordered.backing
  obtain ⟨noCost, noSale⟩ := costOf_absent backing le_rfl
  cases side : placement.side with
  | buy =>
    obtain ⟨shares, symbol, assetId, asset, -, -, buffer, -, opened⟩ := done.buy side
    obtain ⟨-, holderId, account, -, -, -, single, others⟩ :=
      opened.added (backing.untakenFunds ordered.sound) (backing.noFunds _ le_rfl)
    constructor
    · intro o r' after
      rw [costOf, done.fills, done.mints]
      by_cases mine : o = c.exchange.orders.size
      · subst mine
        rw [single] at after
        cases after
        exact noCost.symm
      · rw [others o mine] at after
        exact spent.buys o r' after
    · intro o r' after
      rw [shares] at after
      rw [soldOf, done.fills]
      exact spent.sells o r' after
  | sell =>
    obtain ⟨ledger, opened⟩ := done.sell side
    obtain ⟨-, holderId, position, -, -, -, single, others⟩ :=
      opened.added backing.untakenShares (backing.noShares _ le_rfl)
    constructor
    · intro o r' after
      rw [ledger] at after
      rw [costOf, done.fills, done.mints]
      exact spent.buys o r' after
    · intro o r' after
      rw [soldOf, done.fills]
      by_cases mine : o = c.exchange.orders.size
      · subst mine
        rw [single] at after
        cases after
        exact noSale.symm
      · rw [others o mine] at after
        exact spent.sells o r' after

theorem Spent.traded (spent : Spent c) (ordered : Ordered c) (effect : TradingEffect c c') : Spent c' := by
  cases effect with
  | unchanged same =>
    rw [same]
    exact spent
  | filled marketFound buyFound sellFound fits fresh done => exact spent.filled ordered.backing buyFound sellFound fits done
  | minted marketFound foundA foundB fits binary fresh done => exact spent.minted ordered.backing foundA foundB fits done
  | placed fits listed done => exact spent.placed ordered done
  | ended done => exact spent.ended ordered.backing done
  | restated plain done =>
    obtain ⟨markets, rfl, -⟩ := done.result
    exact spent.kept rfl rfl (fun _ => rfl) fun _ => rfl
  | closed running restated ended quiet =>
    simp only [List.mem_cons, List.not_mem_nil, or_false] at running
    have closed := ordered.restated (by rcases running with was | was <;> simp [Market.isDecided, was]) restated
    obtain ⟨markets, rfl, -⟩ := restated.result
    refine Spent.endedAll ?_ closed.ordered ended
    exact spent.kept rfl rfl (fun _ => rfl) fun _ => rfl
  | created done =>
    obtain ⟨markets, outcomes, market, new, rfl, -⟩ := done.result
    exact spent.kept rfl rfl (fun _ => rfl) fun _ => rfl
  | resolved done =>
    obtain ⟨market, -, -, markets, resolutions, settlements, rfl, -⟩ := done.market
    exact spent.kept rfl rfl (fun _ => rfl) fun _ => rfl
  | settled done =>
    obtain ⟨l, settlements, positions, transactionId, rfl, -, -, -, reservations, -⟩ := done.result
    refine spent.kept rfl rfl (fun o => ?_) fun _ => rfl
    change l.funds.forRef .order o = _
    rw [Reserved.forRef, reservations]
    rfl
  | finalized finished marked same =>
    rw [same]
    rcases marked with ⟨rfl, -⟩ | ⟨market, resolving, restated⟩
    · exact spent.kept rfl rfl (fun _ => rfl) fun _ => rfl
    · obtain ⟨markets, rfl, -⟩ := restated.result
      exact spent.kept rfl rfl (fun _ => rfl) fun _ => rfl

theorem Spent.wallet {db db' : Db} (spent : Spent db.core) (frame : WalletFrame db db') : Spent db'.core := by
  have refs (o : Nat) : db'.core.ledger.funds.forRef .order o = db.core.ledger.funds.forRef .order o := by
    rcases frame.moved with moved | moved
    · exact moved.moved.reservations _ _ rfl
    · exact moved.moved.reservations _ _ rfl
  obtain ⟨l, same⟩ := frame.core
  rw [same] at refs ⊢
  exact spent.kept rfl rfl refs fun _ => rfl

end Spent

section Reached

/-- The trades of a database: every one is at a price that both of its orders accept and that is the maker's own, and every
order's reservation was drawn down by exactly what its trades took, at its limit or better. -/
structure FairlyTraded (c : Core) : Prop where
  fills : ∀ fill ∈ c.exchange.fills.rows, FairFill c.exchange.orders fill.instruction
  mints : ∀ mint ∈ c.exchange.mints.rows, FairMint c.exchange.orders mint.instruction
  bought : ∀ o order, c.exchange.orders.get? o = some order → order.side = .buy → ∃ r limit,
    c.ledger.funds.forRef .order o = [r] ∧ order.price = some limit ∧ r.consumedAmount = costOf c.exchange o ∧
    costOf c.exchange o ≤ order.filledQuantity * limit
  sold : ∀ o order, c.exchange.orders.get? o = some order → order.side = .sell → ∃ r,
    c.exchange.shares.forRef .order o = [r] ∧ r.amount = order.quantity ∧ r.consumedAmount = order.filledQuantity ∧
    ∀ limit, order.price = some limit → order.filledQuantity * limit ≤ proceedsOf c.exchange o

theorem Priced.initial (seed : Seed) : Priced (Platform.initial seed).db.core (Platform.initial seed).desk := by
  constructor <;> simp [Platform.initial, Seed.core, Desk.empty]

theorem Spent.initial (seed : Seed) : Spent (Platform.initial seed).db.core := by
  constructor
  · intro o r single
    simp [Platform.initial, Seed.core, Reserved.forRef, Ledger.initial] at single
  · intro o r single
    simp [Platform.initial, Seed.core, Reserved.forRef] at single

theorem Priced.carried (priced : Priced c desk) (carried : Table.Carries terms c.exchange.orders c'.exchange.orders)
    (executes : Executes c c' desk) : Priced c' desk where
  fills := by
    intro fill member
    refine FairFill.carried ?_ carried
    rcases executes.fills with same | ⟨i, inFlight, q, fee, rows⟩
    · exact priced.fills fill (same ▸ member)
    · rw [rows] at member
      rcases List.mem_append.mp member with old | new
      · exact priced.fills fill old
      · rw [List.mem_singleton.mp new, fairFill_row]
        exact priced.instructions i inFlight
  mints := by
    intro mint member
    refine FairMint.carried ?_ carried
    rcases executes.mints with same | ⟨i, inFlight, q, rows⟩
    · exact priced.mints mint (same ▸ member)
    · rw [rows] at member
      rcases List.mem_append.mp member with old | new
      · exact priced.mints mint old
      · rw [List.mem_singleton.mp new, fairMint_row]
        exact priced.mintInstructions i inFlight
  instructions i member := (priced.instructions i member).carried carried
  mintInstructions i member := (priced.mintInstructions i member).carried carried

theorem tradingStepUnder_quotes (fits : DeskFits c desk) (action : TradingAction) :
    (∀ i ∈ (tradingStepUnder fees (c, desk) action).2.instructions, i ∈ desk.instructions ∨ FairFill c.exchange.orders i) ∧
    ∀ i ∈ (tradingStepUnder fees (c, desk) action).2.mintInstructions,
      i ∈ desk.mintInstructions ∨ FairMint c.exchange.orders i := by
  cases action with
  | readInstructions k =>
    simp only [tradingStepUnder, tradingStep]
    split
    next incoming listed =>
      split
      next instructions seen =>
        obtain ⟨c', done⟩ := observe_some seen
        refine ⟨fun i member => ?_, fun i member => .inl member⟩
        have fair := readInstructions_fair (fits.incomings incoming (List.mem_of_getElem? listed)) done
        exact (List.mem_append.mp member).imp id (fair i)
      next => exact ⟨fun i member => .inl member, fun i member => .inl member⟩
    next => exact ⟨fun i member => .inl member, fun i member => .inl member⟩
  | readMintInstructions k =>
    simp only [tradingStepUnder, tradingStep]
    split
    next incoming listed =>
      split
      next instructions seen =>
        obtain ⟨c', done⟩ := observe_some seen
        refine ⟨fun i member => .inl member, fun i member => ?_⟩
        have fair := readMintInstructions_fair (fits.mintIncomings incoming (List.mem_of_getElem? listed)) done
        exact (List.mem_append.mp member).imp id (fair i)
      next => exact ⟨fun i member => .inl member, fun i member => .inl member⟩
    next => exact ⟨fun i member => .inl member, fun i member => .inl member⟩
  | _ =>
    simp only [tradingStepUnder, tradingStep]
    repeat' split
    all_goals exact ⟨fun i member => .inl member, fun i member => .inl member⟩

theorem Platform.ReachedUnder.priced (reserve : fees.Reserves) (reached : Platform.ReachedUnder fees config s) :
    Priced s.db.core s.desk ∧ Spent s.db.core := by
  refine Reachable.invariant (fun s => Priced s.db.core s.desk ∧ Spent s.db.core) ?_ ?_ reached
  · rintro _ ⟨seed, rfl⟩
    exact ⟨.initial seed, .initial seed⟩
  · rintro s action earlier ⟨priced, spent⟩
    have integrity := Platform.ReachedUnder.integrity reserve earlier
    have ordered := integrity.settleable.ordered
    cases action with
    | trading action =>
      have effect := tradingStepUnder_effect reserve ordered integrity.fits action
      have carried := (effect.advances ordered).persists.orders
      have after := priced.carried carried (tradingStepUnder_executes reserve ordered integrity.fits action)
      obtain ⟨quotes, mintQuotes⟩ := @tradingStepUnder_quotes fees _ _ integrity.fits action
      refine ⟨⟨after.fills, after.mints, ?_, ?_⟩, spent.traded ordered effect⟩
      · intro i member
        rcases quotes i member with old | fair
        · exact after.instructions i old
        · exact fair.carried carried
      · intro i member
        rcases mintQuotes i member with old | fair
        · exact after.mintInstructions i old
        · exact fair.carried carried
    | wallet action =>
      have frame := (@Platform.walletStep_effect config s integrity action).frame
      have desk : (s.walletStep config action).desk = s.desk := by
        rcases Platform.walletStep_held config s action with same | ⟨-, ⟨_, -, same⟩ | ⟨_, -, same⟩⟩
        · exact congrArg Prod.fst same
        · exact congrArg Prod.fst same
        · exact congrArg Prod.fst same
      have after : Spent (s.walletStep config action).db.core := spent.wallet frame
      obtain ⟨l, same⟩ := frame.core
      refine ⟨?_, after⟩
      change Priced (s.walletStep config action).db.core (s.walletStep config action).desk
      rw [desk, same]
      exact ⟨priced.fills, priced.mints, priced.instructions, priced.mintInstructions⟩

theorem checked_mint {mint : CompleteSetMint} (member : mint ∈ c.exchange.mints.rows) :
    0 ≤ mint.quantity ∧ mint.buyOrderAId ≠ mint.buyOrderBId := by
  have valid := c.exchange.mints.checked mint member
  simp only [RowSpec.check, Bool.and_eq_true, decide_eq_true_eq] at valid
  exact ⟨valid.1.1.2.le, valid.2⟩

theorem checked_fill {fill : Fill} (member : fill ∈ c.exchange.fills.rows) : 0 ≤ fill.quantity := by
  have valid := c.exchange.fills.checked fill member
  simp only [RowSpec.check, Bool.and_eq_true, decide_eq_true_eq] at valid
  exact valid.1.1.1.1.le

theorem FairFill.buys {orders : Table Order} {i : ExecutionInstruction} (fair : FairFill orders i) {o : Nat} {order : Order}
    (mine : i.buyOrderId = o) (found : orders.get? o = some order) :
    order.side = .buy ∧ ∀ limit, order.price = some limit → i.price ≤ limit := by
  subst mine
  obtain ⟨buy, sell, bid, ask, quoted⟩ := fair
  obtain rfl : buy = order := Option.some.inj (quoted.buyFound.symm.trans found)
  refine ⟨quoted.buySide, fun limit limited => ?_⟩
  obtain rfl : bid = limit := Option.some.inj (quoted.buyPrice.symm.trans limited)
  exact quoted.within.2

theorem FairFill.sells {orders : Table Order} {i : ExecutionInstruction} (fair : FairFill orders i) {o : Nat} {order : Order}
    (mine : i.sellOrderId = o) (found : orders.get? o = some order) :
    order.side = .sell ∧ ∀ limit, order.price = some limit → limit ≤ i.price := by
  subst mine
  obtain ⟨buy, sell, bid, ask, quoted⟩ := fair
  obtain rfl : sell = order := Option.some.inj (quoted.sellFound.symm.trans found)
  refine ⟨quoted.sellSide, fun limit limited => ?_⟩
  obtain rfl : ask = limit := Option.some.inj (quoted.sellPrice.symm.trans limited)
  exact quoted.within.1

theorem FairMint.incoming {orders : Table Order} {i : MintInstruction} (fair : FairMint orders i) {o : Nat} {order : Order}
    (mine : i.buyOrderAId = o) (found : orders.get? o = some order) :
    order.side = .buy ∧ ∀ limit, order.price = some limit → i.priceA ≤ limit := by
  subst mine
  obtain ⟨a, b, bid, quoted⟩ := fair
  obtain rfl : a = order := Option.some.inj (quoted.foundA.symm.trans found)
  refine ⟨quoted.sideA, fun limit limited => ?_⟩
  obtain rfl : bid = limit := Option.some.inj (quoted.limitA.symm.trans limited)
  exact quoted.within

theorem FairMint.resting {orders : Table Order} {i : MintInstruction} (fair : FairMint orders i) {o : Nat} {order : Order}
    (mine : i.buyOrderBId = o) (found : orders.get? o = some order) :
    order.side = .buy ∧ ∀ limit, order.price = some limit → i.priceB ≤ limit := by
  subst mine
  obtain ⟨a, b, bid, quoted⟩ := fair
  obtain rfl : b = order := Option.some.inj (quoted.foundB.symm.trans found)
  refine ⟨quoted.sideB, fun limit limited => ?_⟩
  obtain rfl : i.priceB = limit := Option.some.inj (quoted.limitB.symm.trans limited)
  exact le_rfl

theorem Priced.bought (priced : Priced c desk) {o : Nat} {order : Order} (found : c.exchange.orders.get? o = some order)
    (side : order.side = .buy) {limit : ℚ} (limited : order.price = some limit) :
    costOf c.exchange o ≤ executedTotal c.exchange o * limit := by
  -- what a BUY order's executions cost is at most its limit for each share
  have fills : sumWhere (fun fill => decide (fill.buyOrderId = o)) (fun fill => fill.quantity * fill.price)
      c.exchange.fills.rows ≤ sumWhere (fun fill => decide (fill.buyOrderId = o) || decide (fill.sellOrderId = o))
        (fun fill => fill.quantity * limit) c.exchange.fills.rows := by
    apply sumWhere_mono
    intro fill member
    have fair := priced.fills fill member
    by_cases ofBuy : fill.buyOrderId = o
    · have below := (fair.buys ofBuy found).2 limit limited
      simp only [share, ofBuy, decide_true, Bool.true_or, if_true]
      exact mul_le_mul_of_nonneg_left below (checked_fill member)
    · -- a BUY order is never the one that sells
      have other : fill.sellOrderId ≠ o := by
        intro ofSell
        have selling := (fair.sells ofSell found).1
        rw [side] at selling
        cases selling
      simp [share, ofBuy, other]
  have mints : sumWhere (fun mint => decide (mint.buyOrderAId = o)) (fun mint => mint.quantity * mint.priceA)
      c.exchange.mints.rows + sumWhere (fun mint => decide (mint.buyOrderBId = o))
        (fun mint => mint.quantity * mint.priceB) c.exchange.mints.rows ≤
      sumWhere (fun mint => decide (mint.buyOrderAId = o) || decide (mint.buyOrderBId = o))
        (fun mint => mint.quantity * limit) c.exchange.mints.rows := by
    apply sumWhere_add_le
    intro mint member
    have fair := priced.mints mint member
    obtain ⟨nonneg, different⟩ := checked_mint member
    by_cases ofA : mint.buyOrderAId = o
    · have ofB : mint.buyOrderBId ≠ o := fun ofB => different (ofA.trans ofB.symm)
      have below := (fair.incoming ofA found).2 limit limited
      simp only [share, ofA, ofB, decide_true, decide_false, Bool.true_or, if_true, Bool.false_eq_true, if_false, add_zero]
      exact mul_le_mul_of_nonneg_left below nonneg
    · by_cases ofB : mint.buyOrderBId = o
      · have below := (fair.resting ofB found).2 limit limited
        simp only [share, ofA, ofB, decide_true, decide_false, Bool.or_true, if_true, Bool.false_eq_true, if_false, zero_add]
        exact mul_le_mul_of_nonneg_left below nonneg
      · simp [share, ofA, ofB]
  rw [executedTotal, add_mul, ← sumWhere_mul, ← sumWhere_mul]
  exact add_le_add fills mints

theorem Priced.sold (priced : Priced c desk) {o : Nat} {order : Order} (found : c.exchange.orders.get? o = some order)
    (side : order.side = .sell) : executedTotal c.exchange o = soldOf c.exchange o := by
  have mints : sumWhere (fun mint => decide (mint.buyOrderAId = o) || decide (mint.buyOrderBId = o))
      CompleteSetMint.quantity c.exchange.mints.rows = 0 := by
    apply sumWhere_eq_zero
    intro mint member
    have fair := priced.mints mint member
    have ofA : mint.buyOrderAId ≠ o := by
      intro mine
      have buying := (fair.incoming mine found).1
      rw [side] at buying
      cases buying
    have ofB : mint.buyOrderBId ≠ o := by
      intro mine
      have buying := (fair.resting mine found).1
      rw [side] at buying
      cases buying
    simp [share, ofA, ofB]
  rw [executedTotal, mints, add_zero, soldOf]
  apply sumWhere_congr
  intro fill member
  have ofBuy : fill.buyOrderId ≠ o := by
    intro mine
    have buying := ((priced.fills fill member).buys mine found).1
    rw [side] at buying
    cases buying
  simp [share, ofBuy]

theorem Priced.proceeds (priced : Priced c desk) {o : Nat} {order : Order}
    (found : c.exchange.orders.get? o = some order) {limit : ℚ} (limited : order.price = some limit) :
    soldOf c.exchange o * limit ≤ proceedsOf c.exchange o := by
  rw [soldOf, proceedsOf, ← sumWhere_mul]
  apply sumWhere_mono
  intro fill member
  by_cases mine : fill.sellOrderId = o
  · have above := ((priced.fills fill member).sells mine found).2 limit limited
    simp only [share, mine, decide_true, if_true]
    exact mul_le_mul_of_nonneg_left above (checked_fill member)
  · simp [share, mine]

/-- Nobody trades at a price that his order does not accept. -/
theorem reached_fairlyTraded (reserve : fees.Reserves) (reached : Platform.ReachedUnder fees config s) :
    FairlyTraded s.db.core := by
  obtain ⟨priced, spent⟩ := Platform.ReachedUnder.priced reserve reached
  have backing := (Platform.ReachedUnder.integrity reserve reached).settleable.ordered.backing
  refine ⟨priced.fills, priced.mints, ?_, ?_⟩
  · intro o order found side
    have backed := backing.orders o order found
    obtain ⟨-, r, single, ⟨-, limit, limited, -⟩, -⟩ := backed.buy side
    refine ⟨r, limit, single, limited, spent.buys o r single, ?_⟩
    rw [backed.filled]
    exact priced.bought found side limited
  · intro o order found side
    have backed := backing.orders o order found
    obtain ⟨-, r, single, ⟨-, exactly⟩, -⟩ := backed.sell side
    have consumed : r.consumedAmount = order.filledQuantity := by
      rw [spent.sells o r single, backed.filled, priced.sold found side]
    have valid := Table.check_of_get? found
    simp only [RowSpec.check, Bool.and_eq_true, decide_eq_true_eq] at valid
    refine ⟨r, single, ?_, consumed, fun limit limited => ?_⟩
    · have whole := valid.2
      rw [Reservation.unconsumed] at exactly
      linarith
    · rw [backed.filled, priced.sold found side]
      exact priced.proceeds found limited

theorem chargedSale_fairlyTraded :
    proceedsOf (Platform.afterUnder percentFees (chargedSale 100 ++ [.trading (.applyExecution 0 0)])).db.core.exchange 2 = 5 ∧
    FairlyTraded (Platform.afterUnder percentFees (chargedSale 100 ++ [.trading (.applyExecution 0 0)])).db.core :=
  ⟨by decide +kernel, reached_fairlyTraded percentFees_funded.reserves (Reachable.foldl (.refl ⟨.sample, rfl⟩) _)⟩

end Reached

end VerdictVaut
