import VerdictVaut.Trading.Backing

set_option autoImplicit false

namespace VerdictVaut.ExecutionCoordinator

open Relational Relational.Tx VerdictVaut.Core

variable {c : Core} {orderId : Nat} {q : ℚ}

section Statements

variable {H : Type} [Holder H]

theorem consumeFrom_succeeds (field : Field Core (Reserved H)) [field.Lawful] {r : Reservation} {amount : ℚ}
    (missing : Fault) (agrees : (field.get c).Agrees) (single : (field.get c).forRef .order orderId = [r])
    (active : r.isActive = true) (positive : 0 < amount) (enough : amount ≤ r.unconsumed) :
    ∃ s k, (consumeFrom field orderId amount missing).run c = .ok ((), field.set s c) ∧
      Reserved.Rewritten (field.get c) s k r (Reserved.draw amount r) := by
  have holds : Reserved.activeFor .order orderId r = true :=
    Bool.and_eq_true_iff.mpr ⟨(Table.mem_of_filter_singleton single).2, active⟩
  obtain ⟨k, found, position⟩ := Table.find?_of_singleton (t := (field.get c).reservations)
    (fun row picked => Reserved.activeFor_isFor picked) single holds
  have looked : (zoom field (Reserved.findActiveByReference .order orderId)).run c = .ok (some (k, r), c) :=
    run_zoom_ok.mpr ⟨field.get c, congrArg (fun pair => Except.ok (pair, field.get c)) found,
      (Field.Lawful.set_get c).symm⟩
  obtain ⟨s, consumed⟩ := Reserved.consume_succeeds agrees position (of_decide_eq_true active) positive enough
  obtain ⟨r', -, -, -, rewritten⟩ := Reserved.consume_ok consumed
  have same := rewritten.found
  rw [position] at same
  cases same
  refine ⟨s, k, ?_, rewritten⟩
  rw [consumeFrom, run_bind_of_ok looked, run_bind_of_ok (run_orThrow_ok.mpr ⟨rfl, rfl⟩)]
  exact run_zoom_ok.mpr ⟨s, consumed, rfl⟩

theorem releaseFilled_succeeds (field : Field Core (Reserved H)) (orderId : Nat) (order : Order) (q : ℚ)
    (agrees : (field.get c).Agrees)
    (chosen : releaseOrder orderId order.side = zoom field (Reserved.releaseByReference .order orderId)) :
    ∃ c', (releaseReservationIfOrderNowFilled orderId order q).run c = .ok ((), c') := by
  unfold releaseReservationIfOrderNowFilled
  rw [run_ite]
  split
  · exact ⟨c, rfl⟩
  · obtain ⟨s, released⟩ := Reserved.releaseByReference_succeeds agrees .order orderId
    rw [chosen]
    exact ⟨_, run_zoom_ok.mpr ⟨s, released, rfl⟩⟩

theorem updateOrder_succeeds {order : Order} (found : c.exchange.orders.get? orderId = some order)
    (nonneg : 0 ≤ q) (below : q ≤ order.remainingQuantity) :
    ∃ c', (updateOrder orderId order q).run c = .ok ((), c') := by
  have valid := Table.check_of_get? found
  simp only [RowSpec.check, Bool.and_eq_true] at valid
  obtain ⟨⟨⟨⟨positive, filled⟩, price⟩, remaining⟩, whole⟩ := valid
  have positive := of_decide_eq_true positive
  have filled := of_decide_eq_true filled
  have remaining := of_decide_eq_true remaining
  have whole := of_decide_eq_true whole
  obtain ⟨t, updated, -⟩ := Table.update_eq_ok (executed order q) (Table.get?_lt found)
    (by
      simp only [RowSpec.check, Bool.and_eq_true, executed]
      exact ⟨⟨⟨⟨decide_eq_true positive, decide_eq_true ⟨by linarith, by linarith⟩⟩, price⟩,
        decide_eq_true ⟨by linarith, by linarith⟩⟩, decide_eq_true (by linarith)⟩)
    (by
      intro j other different position
      have apart := Table.clash_of_ne found position (Ne.symm different)
      exact apart)
  refine ⟨ordersField.set t c, ?_⟩
  unfold updateOrder
  rw [run_bind_of_ok (run_read _ _)]
  simp only [found, if_true]
  exact run_update_ok.mpr ⟨t, updated, rfl⟩

theorem position_valid {t : Table Position} {position : Position} (member : position ∈ t.rows) :
    0 ≤ position.quantity ∧ 0 ≤ position.reservedQuantity ∧ position.reservedQuantity ≤ position.quantity := by
  have valid := t.checked position member
  simp only [RowSpec.check, Position.check, Bool.and_eq_true, decide_eq_true_eq] at valid
  exact valid

theorem updatePosition_succeeds {t : Table Position} {i : Nat} {position : Position} (row : Position)
    (found : t.get? i = some position) (same : tag row = tag position)
    (nonneg : 0 ≤ row.quantity) (reserved : row.reservedQuantity = position.reservedQuantity)
    (below : position.reservedQuantity ≤ row.quantity) : ∃ t', t.update i row = .ok t' := by
  obtain ⟨-, held, -⟩ := position_valid (Table.get?_mem found)
  obtain ⟨t', updated, -⟩ := Table.update_eq_ok row (Table.get?_lt found)
    (by
      simp only [RowSpec.check, Position.check, Bool.and_eq_true, decide_eq_true_eq, reserved]
      exact ⟨nonneg, held, below⟩)
    (by
      intro j other different position'
      have apart := Table.clash_of_ne found position' (Ne.symm different)
      simp only [tag, Prod.mk.injEq] at same
      simp only [RowSpec.clash] at apart ⊢
      rw [same.1, same.2.1, same.2.2.1]
      exact apart)
  exact ⟨t', updated⟩

theorem increaseBuyerPosition_succeeds (userId marketId outcomeId : Nat) (price : ℚ) (nonneg : 0 ≤ q) (c : Core) :
    ∃ c', (increaseBuyerPosition userId marketId outcomeId q price).run c = .ok ((), c') := by
  obtain ⟨⟨positionId, position⟩, c₁, upserted⟩ : ∃ found c₁,
      (upsert positionsField (isPosition userId marketId outcomeId) (emptyPosition userId marketId outcomeId) :
        Tx Core Fault _).run c = .ok (found, c₁) := by
    cases present : c.exchange.positions.find? (isPosition userId marketId outcomeId) with
    | some found => exact ⟨found, c, run_upsert_ok.mpr (.inl ⟨present, rfl⟩)⟩
    | none =>
      obtain ⟨t, inserted, -⟩ := Table.insert_eq_ok (emptyPosition userId marketId outcomeId)
        (by simp [RowSpec.check, Position.check, emptyPosition]) (by
          intro other member
          have absent := Table.find?_none.mp present other member
          refine uniqueOn_eq_none.mpr ?_
          rintro ⟨user, market, outcome⟩
          have hit : isPosition userId marketId outcomeId other = true :=
            isPosition_iff.mpr ⟨user.symm, market.symm, outcome.symm⟩
          rw [absent] at hit
          cases hit)
      exact ⟨_, _, run_upsert_ok.mpr (.inr ⟨present, t, inserted, rfl, rfl⟩)⟩
  obtain ⟨positions, rfl, found, -, -⟩ := upsertPosition_ok upserted
  obtain ⟨held, -, below⟩ := position_valid (Table.get?_mem found)
  rw [increaseBuyerPosition, run_bind_of_ok upserted]
  obtain ⟨t', updated⟩ := updatePosition_succeeds { position with
      quantity := position.quantity + q
      avgPrice := averagePrice position q price (position.quantity + q) }
    found rfl (by linarith) rfl (by linarith)
  exact ⟨_, run_update_ok.mpr ⟨t', updated, rfl⟩⟩

theorem increaseBuyerPosition_frame {c c' : Core} {userId marketId outcomeId : Nat} {price : ℚ} {u : Unit}
    (done : (increaseBuyerPosition userId marketId outcomeId q price).run c = .ok (u, c')) {i : Nat}
    {position : Position} (found : c.exchange.positions.get? i = some position)
    (other : isPosition userId marketId outcomeId position = false) :
    c'.exchange.positions.get? i = some position := by
  simp only [increaseBuyerPosition, run_bind_ok] at done
  obtain ⟨⟨positionId, row⟩, c₁, upserted, updated⟩ := done
  obtain ⟨positions, rfl, place, mine, rows⟩ := upsertPosition_ok upserted
  rw [run_update_ok] at updated
  obtain ⟨t, updated, rfl⟩ := updated
  obtain ⟨inside, -, -, rewritten⟩ := Table.update_ok updated
  have middle : positions.get? i = some position := by
    rcases rows with rfl | appended
    · exact found
    · rw [Table.get?_of_append appended, if_neg (Nat.ne_of_lt (Table.get?_lt found)), found]
  have different : i ≠ positionId := by
    rintro rfl
    rw [place] at middle
    cases middle
    rw [mine] at other
    cases other
  change t.get? i = some position
  rw [Table.get?_of_set rewritten inside, if_neg different]
  exact middle

theorem updatePositions_succeeds {i : ExecutionInstruction} {k : Nat} {position : Position} (price : ℚ)
    (nonneg : 0 ≤ q) (apart : i.buyerUserId ≠ i.sellerUserId) (found : c.exchange.positions.get? k = some position)
    (mine : isPosition i.sellerUserId i.marketId i.outcomeId position = true)
    (enough : position.reservedQuantity + q ≤ position.quantity) :
    ∃ c', (updatePositions i q price).run c = .ok ((), c') := by
  obtain ⟨c₁, increased⟩ :=
    increaseBuyerPosition_succeeds i.buyerUserId i.marketId i.outcomeId price nonneg c
  have kept := increaseBuyerPosition_frame increased found (by
    rw [Bool.eq_false_iff, ne_eq, isPosition_iff]
    rintro ⟨user, -⟩
    exact apart (user.symm.trans (isPosition_iff.mp mine).1))
  have looked : (findOrThrow positionsField (isPosition i.sellerUserId i.marketId i.outcomeId) :
      Tx Core Fault _).run c₁ = .ok ((k, position), c₁) :=
    run_findOrThrow_ok.mpr ⟨Table.find?_of_unique kept mine isPosition_clash, rfl⟩
  obtain ⟨-, held, -⟩ := position_valid (Table.get?_mem found)
  obtain ⟨t', updated⟩ := updatePosition_succeeds { position with
      quantity := position.quantity - q
      realizedPnl := realizedAfter position q price }
    kept rfl (by change 0 ≤ position.quantity - q; linarith) rfl
    (by change position.reservedQuantity ≤ position.quantity - q; linarith)
  rw [updatePositions, run_bind_of_ok increased, run_bind_of_ok looked]
  exact ⟨_, run_update_ok.mpr ⟨t', updated, rfl⟩⟩

end Statements

section Fills

variable {i : ExecutionInstruction} {buy sell : Order}

theorem hold_draw {r : Reservation} (active : r.isActive = true) (amount : ℚ) :
    Reserved.hold r - Reserved.hold (Reserved.draw amount r) = amount := by
  have still : (Reserved.draw amount r).isActive = true := active
  rw [Reserved.hold, Reserved.hold, if_pos active, if_pos still, draw_unconsumed]
  ring

theorem covers_drawn {l : Ledger} {funds : Reserved LedgerAccount} {k : Nat} {r : Reservation} {amount : ℚ}
    {account : LedgerAccount} {userId : Nat} (rewritten : Reserved.Rewritten l.funds funds k r (Reserved.draw amount r))
    (active : r.isActive = true) (held : l.accounts.get? r.holderId = some account)
    (owner : account.owner = .user userId) :
    Ledger.Covers { l with funds := funds } account.assetId { account := .user userId, amount := -amount } := by
  -- what the buyer's reservation gives up is what the buyer's account can then pay
  right
  rw [Ledger.reservedOf_rewritten rewritten held, Ledger.balanceOf_rewritten rewritten, hold_draw active]
  have below : Ledger.reservedOf l (.user userId) account.assetId ≤ Ledger.balanceOf l (.user userId) account.assetId :=
    Ledger.reservedOf_le_balanceOf rfl _
  simp only [Ledger.only, owner, decide_true, Bool.and_self, if_true]
  linarith

theorem covers_credit (l : Ledger) (assetId : Nat) {ref : AccountRef} {amount : ℚ} (owned : ref.isHouse = false)
    (nonneg : 0 ≤ amount) : Ledger.Covers l assetId { account := ref, amount := amount } := by
  right
  have below := Ledger.reservedOf_le_balanceOf (l := l) owned assetId
  linarith

theorem agrees_posted {l l' : Ledger} {input : Ledger.PostTransactionInput} {result : Ledger.PostTransactionResult}
    (posted : (Ledger.postTransaction input).run l = .ok (result, l')) (agrees : l.funds.Agrees) : l'.funds.Agrees := by
  rcases Ledger.postTransaction_ok posted with ⟨-, rfl, -⟩ | ⟨-, -, assetId, effect⟩
  · exact agrees
  · exact effect.agrees agrees

theorem postInSettlementCurrency_succeeds (input : String → Ledger.PostTransactionInput) {assetId : Nat} {asset : Asset}
    (named : c.ledger.assets.find? Asset.isSettlementCurrency = some (assetId, asset))
    (symbol : (input asset.symbol).assetSymbol = asset.symbol)
    (legs : 2 ≤ (input asset.symbol).postings.length)
    (balanced : ((input asset.symbol).postings.map Ledger.Posting.amount).sum = 0)
    (distinct : (input asset.symbol).postings.Pairwise fun a b => a.account ≠ b.account)
    (covered : ∀ posting ∈ (input asset.symbol).postings, Ledger.Covers c.ledger assetId posting) :
    ∃ result l, (postInSettlementCurrency input).run c = .ok (result, ledgerField.set l c) ∧
      (Ledger.postTransaction (input asset.symbol)).run c.ledger = .ok (result, l) := by
  have looked : settlementAsset.run c = .ok ((assetId, asset), c) := run_findOrThrow_ok.mpr ⟨named, rfl⟩
  obtain ⟨result, l, posted⟩ := Ledger.postTransaction_succeeds (input asset.symbol)
    (by rw [symbol]; exact named_settlement named) legs balanced distinct covered
  refine ⟨result, l, ?_, posted⟩
  rw [postInSettlementCurrency, run_bind_of_ok looked]
  exact run_zoom_ok.mpr ⟨l, posted, rfl⟩

theorem position_drawn {s s' : Reserved Position} {k : Nat} {r : Reservation} {position : Position}
    (rewritten : Reserved.Rewritten s s' k r (Reserved.draw q r)) (active : r.isActive = true)
    (found : s.holders.get? r.holderId = some position) :
    ∃ position', s'.holders.get? r.holderId = some position' ∧ tag position' = tag position ∧
      position'.reservedQuantity + q ≤ position'.quantity := by
  -- the seller's position after its reservation is drawn down: the shares to deliver are free
  obtain ⟨holder, held, holders⟩ := rewritten.holder
  rw [found] at held
  cases held
  have below := (position_valid (Table.get?_mem found)).2.2
  refine ⟨_, (Table.get?_of_set holders (Table.get?_lt found) _).trans (if_pos rfl), rfl, ?_⟩
  rw [hold_draw active]
  change position.reservedQuantity - q + q ≤ position.quantity
  linarith

theorem isPosition_tag {a b : Position} {userId marketId outcomeId : Nat} (same : tag a = tag b)
    (mine : isPosition userId marketId outcomeId b = true) : isPosition userId marketId outcomeId a = true := by
  simp only [tag, Prod.mk.injEq] at same
  rw [isPosition_iff] at mine ⊢
  rw [same.1, same.2.1, same.2.2.1]
  exact mine

theorem tradePostings_sum (price : ℚ) (feeResult : FillFeeResult) :
    ((tradePostings i q price feeResult).map Ledger.Posting.amount).sum = 0 := by
  by_cases free : feeResult.buyerFee + feeResult.sellerFee = 0
  · simp only [tradePostings, free, ne_eq, not_true_eq_false, if_false, List.append_nil, List.map_cons, List.map_nil,
      List.sum_cons, List.sum_nil]
    linarith
  · simp only [tradePostings, free, ne_eq, not_false_eq_true, if_true, List.cons_append, List.nil_append, List.map_cons,
      List.map_nil, List.sum_cons, List.sum_nil]
    ring

theorem tradePostings_apart (apart : i.buyerUserId ≠ i.sellerUserId) (price : ℚ) (feeResult : FillFeeResult) :
    (tradePostings i q price feeResult).Pairwise fun a b => a.account ≠ b.account := by
  by_cases free : feeResult.buyerFee + feeResult.sellerFee = 0 <;> simp [tradePostings, free, apart]

theorem tradePostings_users (apart : i.buyerUserId ≠ i.sellerUserId) (price : ℚ) (feeResult : FillFeeResult) (assetId : Nat) :
    Ledger.posted (Ledger.only (.user i.buyerUserId) assetId) assetId (tradePostings i q price feeResult) =
        -(q * price + feeResult.buyerFee) ∧
      Ledger.posted (Ledger.only (.user i.sellerUserId) assetId) assetId (tradePostings i q price feeResult) =
        q * price - feeResult.sellerFee := by
  by_cases free : feeResult.buyerFee + feeResult.sellerFee = 0 <;>
    simp [Ledger.posted, tradePostings, share, Ledger.only, free, apart, Ne.symm apart]

def Affordable (c : Core) (i : ExecutionInstruction) (q : ℚ) (feeResult : FillFeeResult) : Prop :=
  -- what a fill charges beyond its cost, each side can pay from what it has not reserved
  ∀ assetId asset, c.ledger.assets.find? Asset.isSettlementCurrency = some (assetId, asset) →
    feeResult.buyerFee ≤ Ledger.available c.ledger (.user i.buyerUserId) assetId ∧
    feeResult.sellerFee ≤ q * i.price + Ledger.available c.ledger (.user i.sellerUserId) assetId

theorem affordable_free (c : Core) (positive : 0 ≤ q * i.price) :
    Affordable c i q { buyerFee := 0, sellerFee := 0 } := by
  intro assetId asset _
  have bound : ∀ userId, Ledger.reservedOf c.ledger (.user userId) assetId ≤ Ledger.balanceOf c.ledger (.user userId) assetId :=
    fun userId => Ledger.reservedOf_le_balanceOf rfl assetId
  have buyer := bound i.buyerUserId
  have seller := bound i.sellerUserId
  constructor <;> simp only [Ledger.available] <;> linarith

theorem available_drawn {l : Ledger} {funds : Reserved LedgerAccount} {k : Nat} {r : Reservation} {cost : ℚ}
    {account : LedgerAccount} {buyer seller : Nat}
    (rewritten : Reserved.Rewritten l.funds funds k r (Reserved.draw cost r)) (active : r.isActive = true)
    (held : l.accounts.get? r.holderId = some account) (owner : account.owner = .user buyer) (apart : buyer ≠ seller) :
    Ledger.available { l with funds := funds } (.user buyer) account.assetId =
        Ledger.available l (.user buyer) account.assetId + cost ∧
      Ledger.available { l with funds := funds } (.user seller) account.assetId =
        Ledger.available l (.user seller) account.assetId := by
  -- what a reservation gives up is free to pay with, and leaves other users' balances alone
  simp only [Ledger.available, Ledger.balanceOf_rewritten rewritten, Ledger.reservedOf_rewritten rewritten held,
    hold_draw active, Ledger.only, owner, AccountRef.user.injEq, apart, decide_true, decide_false, Bool.and_self,
    Bool.false_and, Bool.false_eq_true, if_true, if_false]
  constructor <;> ring

theorem settleFill_succeeds {t : Table Fill} {feeResult : FillFeeResult} (fillId : Nat) (backing : Backing c)
    (funds : c.ledger.funds.Agrees) (affordable : Affordable c i q feeResult)
    (buyFound : c.exchange.orders.get? i.buyOrderId = some buy)
    (sellFound : c.exchange.orders.get? i.sellOrderId = some sell) (fits : FillTerms i buy sell)
    (buyResting : buy.isExecutable = true) (sellResting : sell.isExecutable = true) (positive : 0 < q)
    (belowBuy : q ≤ buy.remainingQuantity) (belowSell : q ≤ sell.remainingQuantity) :
    ∃ c', (settleFill fillId i buy sell q feeResult).run (fillsField.set t c) = .ok ((), c') := by
  -- from the order invariant, everything after the insertion of the fill goes through
  obtain ⟨-, rB, singleB, backedB, heldB⟩ := (backing.orders _ _ buyFound).buy fits.buySide
  obtain ⟨-, rS, singleS, backedS, heldS⟩ := (backing.orders _ _ sellFound).sell fits.sellSide
  have cost := backedB.cost buyResting positive.le belowBuy fits.price.1.le fits.limit
  have costPositive : 0 < q * i.price := mul_pos positive fits.price.1
  have activeB : rB.isActive = true := backedB.active.trans buyResting
  have activeS : rS.isActive = true := backedS.active.trans sellResting
  obtain ⟨funds₁, kB, consumedB, rewrittenB⟩ := consumeFrom_succeeds (c := fillsField.set t c) fundsField
    (.noActiveFundReservation i.buyOrderId "cannot execute") funds singleB activeB costPositive cost
  obtain ⟨shares₁, kS, consumedS, rewrittenS⟩ := consumeFrom_succeeds
    (c := fundsField.set funds₁ (fillsField.set t c)) sharesField (.noActivePositionReservation i.sellOrderId)
    backing.agrees singleS activeS positive (belowSell.trans backedS.exact.ge)
  obtain ⟨account, asset, held, owner, named⟩ := heldB.account
  obtain ⟨result, l, posted, entered⟩ := postInSettlementCurrency_succeeds
    (c := sharesField.set shares₁ (fundsField.set funds₁ (fillsField.set t c)))
    (fun symbol =>
      { assetSymbol := symbol, type := .trade, referenceType := .fill, referenceId := fillId,
        idempotencyKey := ⟨"trade", [fillId]⟩,
        postings := tradePostings i q i.price feeResult }) named rfl
    (by simp [tradePostings]) (tradePostings_sum _ _) (tradePostings_apart fits.apart _ _)
    (by
      obtain ⟨buyer, seller⟩ := affordable _ _ named
      obtain ⟨freed, kept⟩ := available_drawn (l := c.ledger) rewrittenB activeB held (by rw [owner, fits.buyer]) fits.apart
      simp only [Ledger.available] at buyer seller freed kept
      intro posting member
      rcases List.mem_append.mp member with side | leg
      · simp only [List.mem_cons, List.not_mem_nil, or_false] at side
        rcases side with rfl | rfl
        · right
          change Ledger.reservedOf { c.ledger with funds := funds₁ } (.user i.buyerUserId) account.assetId ≤
            Ledger.balanceOf { c.ledger with funds := funds₁ } (.user i.buyerUserId) account.assetId +
              -(q * i.price + feeResult.buyerFee)
          linarith
        · right
          change Ledger.reservedOf { c.ledger with funds := funds₁ } (.user i.sellerUserId) account.assetId ≤
            Ledger.balanceOf { c.ledger with funds := funds₁ } (.user i.sellerUserId) account.assetId +
              (q * i.price - feeResult.sellerFee)
          linarith
      · split at leg
        · obtain rfl := List.mem_singleton.mp leg
          exact .inl rfl
        · cases leg)
  let c₃ : Core := ledgerField.set l (sharesField.set shares₁ (fundsField.set funds₁ (fillsField.set t c)))
  have settled : (postTradeLedger fillId i q i.price feeResult).run
      (sharesField.set shares₁ (fundsField.set funds₁ (fillsField.set t c))) = .ok ((), c₃) :=
    run_bind_of_ok posted
  obtain ⟨c₄, updatedB⟩ := updateOrder_succeeds (c := c₃) buyFound positive.le belowBuy
  obtain ⟨orders₁, rfl, rowsB⟩ := updateOrder_ok updatedB buyFound
  have sellFound' : orders₁.get? i.sellOrderId = some sell := by
    rw [Table.get?_of_set rowsB (Table.get?_lt buyFound), if_neg (Ne.symm (fits.different buyFound sellFound))]
    exact sellFound
  obtain ⟨c₅, updatedS⟩ := updateOrder_succeeds (c := ordersField.set orders₁ c₃) sellFound' positive.le belowSell
  obtain ⟨orders₂, rfl, rowsS⟩ := updateOrder_ok updatedS sellFound'
  obtain ⟨position, positionFound, mine⟩ := heldS.position
  obtain ⟨position', place, same, left⟩ := position_drawn rewrittenS activeS positionFound
  have sellers : isPosition i.sellerUserId i.marketId i.outcomeId position' = true := by
    rw [fits.seller, fits.sellMarket, fits.sellOutcome]
    exact isPosition_tag same mine
  let c₅ : Core := ordersField.set orders₂ (ordersField.set orders₁ c₃)
  obtain ⟨c₆, movedShares⟩ :=
    updatePositions_succeeds (c := c₅) (i := i) i.price positive.le fits.apart place sellers left
  obtain ⟨middle, shares₂, rfl, shiftedB, shiftedS⟩ := updatePositions_ok movedShares
  have fundsAgree : l.funds.Agrees := agrees_posted entered (rewrittenB.agrees funds)
  obtain ⟨c₇, releasedB⟩ := releaseFilled_succeeds (c := sharesField.set shares₂ c₅) fundsField i.buyOrderId buy q
    fundsAgree (by rw [fits.buySide]; rfl)
  obtain ⟨funds₂, rfl, -, -⟩ := releaseFilled_ok fundsField (by rw [fits.buySide]; rfl) releasedB
  have sharesAgree : shares₂.Agrees := shiftedS.agrees (shiftedB.agrees (rewrittenS.agrees backing.agrees))
  obtain ⟨c₈, releasedS⟩ := releaseFilled_succeeds (c := fundsField.set funds₂ (sharesField.set shares₂ c₅))
    sharesField i.sellOrderId sell q sharesAgree (by rw [fits.sellSide]; rfl)
  refine ⟨c₈, ?_⟩
  have consumed : (consumeReservations i.buyOrderId i.sellOrderId q i.price).run (fillsField.set t c) = .ok ((), _) :=
    (run_bind_of_ok consumedB).trans consumedS
  rw [settleFill, run_bind_of_ok consumed, run_bind_of_ok settled, run_bind_of_ok updatedB, run_bind_of_ok updatedS,
    run_bind_of_ok movedShares, run_bind_of_ok releasedB]
  exact releasedS

theorem executeFill_charged {fees : FeeCalculator} (nonneg : ∀ context : FillFeeContext, 0 < context.quantity →
      0 ≤ (fees.calculateFillFee context).buyerFee ∧ 0 ≤ (fees.calculateFillFee context).sellerFee) (backing : Backing c) (funds : c.ledger.funds.Agrees)
    (buyFound : c.exchange.orders.get? i.buyOrderId = some buy)
    (sellFound : c.exchange.orders.get? i.sellOrderId = some sell) (fits : FillTerms i buy sell) {now : Time}
    {market : Market} (fresh : Executable now market i.quantity buy sell)
    (affordable : (∀ fill ∈ c.exchange.fills.rows, fill.idempotencyKey ≠ i.idempotencyKey) →
      Affordable c i (minRemaining i.quantity buy sell)
        (fees.calculateFillFee (fillFeeContext i (minRemaining i.quantity buy sell)))) :
    ∃ result c', (executeFill fees i buy sell (minRemaining i.quantity buy sell)).run c = .ok (result, c') := by
  -- an instruction past the fresh-state checks is applied where its fees are affordable, or was before
  have different := fits.different buyFound sellFound
  let fee := fees.calculateFillFee (fillFeeContext i (minRemaining i.quantity buy sell))
  have charged : 0 ≤ fee.buyerFee ∧ 0 ≤ fee.sellerFee := nonneg _ fresh.positive
  obtain ⟨fillId, existed, c₁, created⟩ := run_createOnce_succeeds fillsField "idempotencyKey"
    (fillRow i (minRemaining i.quantity buy sell) (fee.buyerFee + fee.sellerFee))
    (fun fill => decide (fill.idempotencyKey = i.idempotencyKey)) (Fault.staleSnapshotConflict "idempotencyKey") c
    (by
      have roles := fits.roles
      simp only [RowSpec.check, fillRow, Bool.and_eq_true]
      exact ⟨⟨⟨⟨decide_eq_true fresh.positive, decide_eq_true fits.price⟩,
        decide_eq_true (add_nonneg charged.1 charged.2)⟩, decide_eq_true different⟩, decide_eq_true roles⟩)
    (by
      intro other _ target clash
      obtain ⟨same, rfl⟩ := uniqueOn_eq_some.mp clash
      exact ⟨by simp, decide_eq_true same.symm⟩)
  have allowed : (throwIf (fee.buyerFee < 0 ∨ fee.sellerFee < 0) (.negativeFeeLeg fee.buyerFee fee.sellerFee) :
      Tx Core Fault Unit).run c = .ok ((), c) :=
    run_throwIf_ok.mpr ⟨not_or.mpr ⟨not_lt.mpr charged.1, not_lt.mpr charged.2⟩, rfl⟩
  rw [executeFill, run_bind_of_ok allowed, run_bind_of_ok created]
  rcases run_createOnce_ok created with ⟨rfl, -, t, inserted, rfl⟩ | ⟨rfl, rfl, -⟩
  · obtain ⟨-, untaken, -⟩ := Table.insert_ok inserted
    obtain ⟨c', settled⟩ := settleFill_succeeds (t := t) fillId backing funds
      (affordable fun fill member same => uniqueOn_eq_none.mp (untaken fill member) same.symm) buyFound sellFound fits
      fresh.first fresh.second fresh.positive ((min_le_left _ _).trans (min_le_right _ _)) (min_le_right _ _)
    exact ⟨some fillId, c', run_bind_of_ok settled⟩
  · exact ⟨some fillId, _, rfl⟩

theorem executeFill_affordable {fees : FeeCalculator} {result : Option Nat} {c' : Core} (backing : Backing c)
    (buyFound : c.exchange.orders.get? i.buyOrderId = some buy) (fits : FillTerms i buy sell)
    (untaken : ∀ fill ∈ c.exchange.fills.rows, fill.idempotencyKey ≠ i.idempotencyKey)
    (untraded : ∀ t ∈ c.ledger.transactions.rows, t.idempotencyKey ≠ ⟨"trade", [c.exchange.fills.size]⟩)
    (done : (executeFill fees i buy sell q).run c = .ok (result, c')) :
    Affordable c i q (fees.calculateFillFee (fillFeeContext i q)) := by
  -- the reverse: a fill that is applied for the first time was affordable
  simp only [executeFill, run_bind_ok] at done
  obtain ⟨_, _, allowed, ⟨fillId, existed⟩, c₁, created, rest⟩ := done
  obtain ⟨-, rfl⟩ := run_throwIf_ok.mp allowed
  rcases run_createOnce_ok created with ⟨rfl, rfl, t, inserted, rfl⟩ | ⟨rfl, rfl, fill, position, holds⟩
  · simp only [Bool.false_eq_true, if_false, run_bind_ok, settleFill, consumeReservations] at rest
    obtain ⟨_, _, ⟨_, _, ⟨_, _, consumedB, consumedS⟩, _, _, posted, -⟩, -⟩ := rest
    obtain ⟨funds, kB, r, rfl, activeB, -, -, rewritten⟩ := consumeFrom_ok consumedB
    obtain ⟨shares, kS, rS, rfl, -⟩ := consumeFrom_ok consumedS
    -- the reservation that was found is the only one behind the order, on the buyer's own account
    obtain ⟨-, rB, single, -, heldB⟩ := (backing.orders _ _ buyFound).buy fits.buySide
    have mine : r ∈ c.ledger.funds.forRef .order i.buyOrderId :=
      List.mem_filter.mpr ⟨Table.get?_mem rewritten.found, Reserved.activeFor_isFor activeB⟩
    rw [single, List.mem_singleton] at mine
    subst mine
    have active : r.isActive = true := (Bool.and_eq_true_iff.mp activeB).2
    obtain ⟨account, asset, held, owner, named⟩ := heldB.account
    simp only [postTradeLedger, run_bind_ok] at posted
    obtain ⟨entry, _, posted, -⟩ := posted
    obtain ⟨assetId, asset', l, named', entered, rfl⟩ := postInSettlementCurrency_ok posted
    have same : (assetId, asset') = (account.assetId, asset) := Option.some.inj (named'.symm.trans named)
    cases same
    rcases Ledger.postTransaction_ok entered with ⟨-, -, k, existing, key⟩ | ⟨-, -, assetId, effect⟩
    · exact absurd key (untraded k (Table.get?_mem existing))
    · obtain ⟨row, found⟩ := effect.asset
      have settled := (named_settlement named).symm.trans found
      cases settled
      intro assetId asset' named'
      have same := named.symm.trans named'
      cases same
      obtain ⟨freed, kept⟩ := available_drawn (l := c.ledger) rewritten active held (by rw [owner, fits.buyer]) fits.apart
      obtain ⟨debit, credit⟩ := tradePostings_users fits.apart i.price (q := q)
        (fees.calculateFillFee (fillFeeContext i q)) account.assetId
      have bound : ∀ userId, Ledger.reservedOf l (.user userId) account.assetId ≤
          Ledger.balanceOf l (.user userId) account.assetId :=
        fun userId => Ledger.reservedOf_le_balanceOf rfl account.assetId
      have buyer := bound i.buyerUserId
      have seller := bound i.sellerUserId
      rw [effect.reserved, Ledger.balanceOf, effect.held, debit] at buyer
      rw [effect.reserved, Ledger.balanceOf, effect.held, credit] at seller
      simp only [Ledger.available] at freed kept ⊢
      change Ledger.reservedOf { c.ledger with funds := funds } (.user i.buyerUserId) account.assetId ≤
        Ledger.balanceOf { c.ledger with funds := funds } (.user i.buyerUserId) account.assetId + _ at buyer
      change Ledger.reservedOf { c.ledger with funds := funds } (.user i.sellerUserId) account.assetId ≤
        Ledger.balanceOf { c.ledger with funds := funds } (.user i.sellerUserId) account.assetId + _ at seller
      constructor <;> linarith
  · exact absurd (of_decide_eq_true holds) (untaken fill (Table.get?_mem position))

theorem executeFill_succeeds (backing : Backing c) (funds : c.ledger.funds.Agrees)
    (buyFound : c.exchange.orders.get? i.buyOrderId = some buy)
    (sellFound : c.exchange.orders.get? i.sellOrderId = some sell) (fits : FillTerms i buy sell) {now : Time}
    {market : Market} (fresh : Executable now market i.quantity buy sell) :
    ∃ result c', (executeFill zeroFeeCalculator i buy sell (minRemaining i.quantity buy sell)).run c =
      .ok (result, c') :=
  executeFill_charged (fun _ _ => ⟨le_rfl, le_rfl⟩) backing funds buyFound sellFound fits fresh fun _ =>
    affordable_free c (mul_nonneg fresh.positive.le fits.price.1.le)

end Fills

section Mints

variable {i : MintInstruction} {a b : Order}

theorem covers_kept {l : Ledger} {funds : Reserved LedgerAccount} {k : Nat} {old new : Reservation} {assetId : Nat}
    {account : LedgerAccount} {posting : Ledger.Posting} (covered : Ledger.Covers l assetId posting)
    (rewritten : Reserved.Rewritten l.funds funds k old new) (held : l.accounts.get? old.holderId = some account)
    (other : account.owner ≠ posting.account) : Ledger.Covers { l with funds := funds } assetId posting := by
  -- drawing down another user's reservation takes nothing from an account
  refine covered.imp_right fun below => ?_
  rw [Ledger.reservedOf_rewritten rewritten held, Ledger.balanceOf_rewritten rewritten]
  simpa [Ledger.only, other] using below

theorem released_agrees {H : Type} [Holder H] {s s' : Reserved H} (agrees : s.Agrees)
    (how : s' = s ∨ ∃ k r, Reserved.activeFor .order orderId r = true ∧
      Reserved.Rewritten s s' k r { r with status := .released }) : s'.Agrees := by
  rcases how with rfl | ⟨k, r, -, rewritten⟩
  · exact agrees
  · exact rewritten.agrees agrees

theorem settleMint_succeeds {t : Table CompleteSetMint} (mintId : Nat) (backing : Backing c)
    (funds : c.ledger.funds.Agrees) (foundA : c.exchange.orders.get? i.buyOrderAId = some a)
    (foundB : c.exchange.orders.get? i.buyOrderBId = some b) (fits : MintTerms i a b)
    (restingA : a.isExecutable = true) (restingB : b.isExecutable = true) (positive : 0 < q)
    (belowA : q ≤ a.remainingQuantity) (belowB : q ≤ b.remainingQuantity) :
    ∃ c', (settleMint mintId i a b q).run (mintsField.set t c) = .ok ((), c') := by
  obtain ⟨-, rA, singleA, backedA, heldA⟩ := (backing.orders _ _ foundA).buy fits.sideA
  obtain ⟨-, rB, singleB, backedB, heldB⟩ := (backing.orders _ _ foundB).buy fits.sideB
  have different := fits.different foundA foundB
  have costA := backedA.cost restingA positive.le belowA fits.positive.1.le fits.limitA
  have costB := backedB.cost restingB positive.le belowB fits.positive.2.le fits.limitB
  have positiveA : 0 < q * i.priceA := mul_pos positive fits.positive.1
  have positiveB : 0 < q * i.priceB := mul_pos positive fits.positive.2
  have activeA : rA.isActive = true := backedA.active.trans restingA
  have activeB : rB.isActive = true := backedB.active.trans restingB
  obtain ⟨funds₁, kA, consumedA, rewrittenA⟩ := consumeFrom_succeeds (c := mintsField.set t c) fundsField
    (.noActiveFundReservation i.buyOrderAId "cannot mint") funds singleA activeA positiveA costA
  have agrees₁ : funds₁.Agrees := rewrittenA.agrees funds
  have singleB' : funds₁.forRef .order i.buyOrderBId = [rB] :=
    ((drawn_onRef (Bool.and_eq_true_iff.mpr ⟨(Table.mem_of_filter_singleton singleA).2, activeA⟩)
      rewrittenA).others _ _ fun same => different same.2.symm).trans singleB
  obtain ⟨funds₂, kB, consumedB, rewrittenB⟩ := consumeFrom_succeeds
    (c := fundsField.set funds₁ (mintsField.set t c)) fundsField
    (.noActiveFundReservation i.buyOrderBId "cannot mint") agrees₁ singleB' activeB positiveB costB
  obtain ⟨accountA, asset, foundAccountA, ownerA, named⟩ := heldA.account
  obtain ⟨accountB, asset', foundAccountB, ownerB, named'⟩ := heldB.account
  have sameAsset : accountB.assetId = accountA.assetId := by
    rw [named] at named'
    simp only [Option.some.injEq, Prod.mk.injEq] at named'
    exact named'.1.symm
  let l₁ : Ledger := { c.ledger with funds := funds₁ }
  obtain ⟨accountB', foundAccountB', ownerB', ofAssetB⟩ : ∃ account, l₁.accounts.get? rB.holderId = some account ∧
      account.owner = .user b.userId ∧ account.assetId = accountA.assetId := by
    obtain ⟨holder, held, holders⟩ := rewrittenA.holder
    have carried : Table.Carries (fun a : LedgerAccount => (a.owner, a.assetId)) c.ledger.accounts funds₁.holders :=
      .of_set held holders rfl
    obtain ⟨account, found, same⟩ := carried _ _ foundAccountB
    simp only [Prod.mk.injEq] at same
    exact ⟨account, found, same.1.trans ownerB, same.2.trans sameAsset⟩
  obtain ⟨result, l, posted, entered⟩ := postInSettlementCurrency_succeeds
    (c := fundsField.set funds₂ (fundsField.set funds₁ (mintsField.set t c)))
    (fun symbol =>
      { assetSymbol := symbol, type := .mint, referenceType := .completeSetMint, referenceId := mintId,
        idempotencyKey := ⟨"mint", [mintId]⟩, postings := mintPostings i q }) named rfl
    (by simp [mintPostings]) (by simp [mintPostings]) (by simp [mintPostings, fits.apart])
    (by
      intro posting member
      simp only [mintPostings, List.mem_cons, List.not_mem_nil, or_false] at member
      rcases member with rfl | rfl | rfl
      · have first : Ledger.Covers l₁ accountA.assetId { account := .user i.buyerAUserId, amount := -(q * i.priceA) } :=
          covers_drawn rewrittenA activeA foundAccountA (by rw [ownerA, fits.buyerA])
        refine covers_kept first rewrittenB foundAccountB' ?_
        rw [ownerB', fits.buyerA]
        simpa [fits.buyerA, fits.buyerB] using fits.apart.symm
      · rw [← ofAssetB]
        exact covers_drawn (l := l₁) rewrittenB activeB foundAccountB' (by rw [ownerB', fits.buyerB])
      · exact covers_credit _ _ rfl (add_nonneg positiveA.le positiveB.le))
  let c₃ : Core := ledgerField.set l (fundsField.set funds₂ (fundsField.set funds₁ (mintsField.set t c)))
  have settled : (postMintLedger mintId i q).run (fundsField.set funds₂ (fundsField.set funds₁ (mintsField.set t c))) =
      .ok ((), c₃) := run_bind_of_ok posted
  obtain ⟨c₄, updatedA⟩ := updateOrder_succeeds (c := c₃) foundA positive.le belowA
  obtain ⟨orders₁, rfl, rowsA⟩ := updateOrder_ok updatedA foundA
  have foundB' : orders₁.get? i.buyOrderBId = some b := by
    rw [Table.get?_of_set rowsA (Table.get?_lt foundA), if_neg (Ne.symm different)]
    exact foundB
  obtain ⟨c₅, updatedB⟩ := updateOrder_succeeds (c := ordersField.set orders₁ c₃) foundB' positive.le belowB
  obtain ⟨orders₂, rfl, rowsB⟩ := updateOrder_ok updatedB foundB'
  obtain ⟨c₆, increasedA⟩ := increaseBuyerPosition_succeeds i.buyerAUserId i.marketId i.outcomeAId i.priceA
    positive.le (ordersField.set orders₂ (ordersField.set orders₁ c₃))
  obtain ⟨shares₁, rfl, -⟩ := increaseBuyerPosition_ok increasedA
  obtain ⟨c₇, increasedB⟩ := increaseBuyerPosition_succeeds i.buyerBUserId i.marketId i.outcomeBId i.priceB
    positive.le (sharesField.set shares₁ (ordersField.set orders₂ (ordersField.set orders₁ c₃)))
  obtain ⟨shares₂, rfl, -⟩ := increaseBuyerPosition_ok increasedB
  let c₈ : Core :=
    sharesField.set shares₂ (sharesField.set shares₁ (ordersField.set orders₂ (ordersField.set orders₁ c₃)))
  have agreesPosted : l.funds.Agrees := agrees_posted entered (rewrittenB.agrees agrees₁)
  obtain ⟨c₉, releasedA⟩ := releaseFilled_succeeds (c := c₈) fundsField i.buyOrderAId a q agreesPosted
    (by rw [fits.sideA]; rfl)
  obtain ⟨funds₃, rfl, -, howA⟩ := releaseFilled_ok fundsField (by rw [fits.sideA]; rfl) releasedA
  obtain ⟨c', releasedB⟩ := releaseFilled_succeeds (c := fundsField.set funds₃ c₈) fundsField i.buyOrderBId b q
    (released_agrees agreesPosted howA) (by rw [fits.sideB]; rfl)
  refine ⟨c', ?_⟩
  rw [settleMint, consumeBuyer, run_bind_of_ok consumedA, consumeBuyer, run_bind_of_ok consumedB, run_bind_of_ok settled,
    run_bind_of_ok updatedA, run_bind_of_ok updatedB, run_bind_of_ok increasedA, run_bind_of_ok increasedB,
    run_bind_of_ok releasedA]
  exact releasedB

theorem executeMint_succeeds (backing : Backing c) (funds : c.ledger.funds.Agrees)
    (foundA : c.exchange.orders.get? i.buyOrderAId = some a)
    (foundB : c.exchange.orders.get? i.buyOrderBId = some b) (fits : MintTerms i a b) {now : Time}
    {market : Market} (fresh : Executable now market i.quantity a b) :
    ∃ result c', (executeMint i a b (minRemaining i.quantity a b)).run c = .ok (result, c') := by
  obtain ⟨mintId, existed, c₁, created⟩ := run_createOnce_succeeds mintsField "idempotencyKey"
    (mintRow i (minRemaining i.quantity a b)) (fun mint => decide (mint.idempotencyKey = i.idempotencyKey))
    (Fault.staleSnapshotConflict "idempotencyKey") c
    (by
      simp only [RowSpec.check, mintRow, Bool.and_eq_true]
      exact ⟨⟨⟨⟨decide_eq_true fits.prices, decide_eq_true fits.positive⟩, decide_eq_true fresh.positive⟩,
        decide_eq_true fits.outcomes⟩, decide_eq_true (fits.different foundA foundB)⟩)
    (by
      intro other _ target clash
      obtain ⟨same, rfl⟩ := uniqueOn_eq_some.mp clash
      exact ⟨by simp, decide_eq_true same.symm⟩)
  rw [executeMint, run_bind_of_ok created]
  rcases run_createOnce_ok created with ⟨rfl, -, t, -, rfl⟩ | ⟨rfl, rfl, -⟩
  · obtain ⟨c', settled⟩ := settleMint_succeeds (t := t) mintId backing funds foundA foundB fits fresh.first
      fresh.second fresh.positive ((min_le_left _ _).trans (min_le_right _ _)) (min_le_right _ _)
    exact ⟨some mintId, c', run_bind_of_ok settled⟩
  · exact ⟨some mintId, _, rfl⟩

end Mints

end VerdictVaut.ExecutionCoordinator
