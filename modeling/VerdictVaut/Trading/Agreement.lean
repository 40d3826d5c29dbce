import VerdictVaut.Ledger.Agreement
import VerdictVaut.Trading.RoundedCalls
import VerdictVaut.Trading.Progress

set_option autoImplicit false

-- the calls of trading round nothing where the figures that they read are few-digit and small
namespace VerdictVaut

open Relational Relational.Tx VerdictVaut.Core Decimals

theorem Room.prices : Room orderPriceMaxDecimals 2 where
  scale := by decide
  digits := by norm_num [orderPriceMaxDecimals, Decimal.PRECISION]
  column := by norm_num

instance : Holder.Lawful Position where
  total_setReserved _ _ := rfl
  nonneg position valid := by
    simp only [RowSpec.check, Position.check, Bool.and_eq_true, decide_eq_true_eq] at valid
    exact valid.2.1

def InCurrency (assets : Table Asset) (account : LedgerAccount) : Prop :=
  ∃ asset, assets.find? Asset.isSettlementCurrency = some (account.assetId, asset)

instance {assets : Table Asset} : DecidablePred (InCurrency assets) := fun account =>
  decidable_of_iff ((assets.find? Asset.isSettlementCurrency).map Prod.fst = some account.assetId) (by
    simp only [Option.map_eq_some_iff, InCurrency, Prod.exists, exists_and_right, exists_eq_right])

def AnyPosition (_ : Position) : Prop := True

instance : DecidablePred AnyPosition := fun _ => inferInstanceAs (Decidable True)

theorem Order.bounds {order : Order} (valid : RowSpec.check order = true) :
    0 ≤ order.filledQuantity ∧ 0 ≤ order.remainingQuantity ∧
      order.filledQuantity + order.remainingQuantity = order.quantity := by
  simp only [RowSpec.check, Bool.and_eq_true, decide_eq_true_eq] at valid
  exact ⟨valid.1.1.1.2.1, valid.1.2.1, valid.2⟩

theorem Order.price_between {order : Order} (valid : RowSpec.check order = true) {price : ℚ}
    (priced : order.price = some price) : 0 < price ∧ price < 1 := by
  simp only [RowSpec.check, Bool.and_eq_true, decide_eq_true_eq, priced, Option.all_some] at valid
  exact valid.1.1.2

structure Order.Fits (places : ℕ) (most : ℚ) (order : Order) : Prop where
  quantity : Figure places most order.quantity
  filled : Places places order.filledQuantity

namespace Order.Fits

variable {places : ℕ} {most : ℚ} {order : Order}

instance : Decidable (order.Fits places most) :=
  decidable_of_iff (Figure places most order.quantity ∧ Places places order.filledQuantity)
    ⟨fun both => ⟨both.1, both.2⟩, fun fits => ⟨fits.quantity, fits.filled⟩⟩

theorem remaining (fits : order.Fits places most) (valid : RowSpec.check order = true) :
    Figure places most order.remainingQuantity := by
  obtain ⟨filled, nonneg, sum⟩ := Order.bounds valid
  have rest : order.remainingQuantity = order.quantity - order.filledQuantity := by linarith
  have below := (abs_le.mp fits.quantity.small).2
  exact .of_le (rest ▸ fits.quantity.fits.sub fits.filled) nonneg (by linarith)

theorem more (fits : order.Fits places most) (valid : RowSpec.check order = true) {q : ℚ} (part : Places places q)
    (positive : 0 ≤ q) (below : q ≤ order.remainingQuantity) : Figure places most (order.filledQuantity + q) := by
  obtain ⟨filled, nonneg, sum⟩ := Order.bounds valid
  have whole := (abs_le.mp fits.quantity.small).2
  exact .of_le (fits.filled.add part) (by linarith) (by linarith)

end Order.Fits

/-- The orders that rest are of such quantities, and every price has the decimals that the DTO allows. -/
def OrdersFit (places digits : ℕ) (most : ℚ) (orders : Table Order) : Prop :=
  ∀ order ∈ orders.rows, Places digits (order.price.getD 0) ∧
    (order.isExecutable = true → order.Fits places most)

/-- Quantities of `places` digits after the point, money of six more, and none of them larger than `most`. -/
structure Core.Few (places digits : ℕ) (most : ℚ) (c : Core) : Prop where
  funds : c.ledger.funds.Small (InCurrency c.ledger.assets) (places + digits) most
  shares : c.exchange.shares.Small AnyPosition places most
  orders : OrdersFit places digits most c.exchange.orders

instance {places digits : ℕ} {most : ℚ} {orders : Table Order} : Decidable (OrdersFit places digits most orders) :=
  inferInstanceAs (Decidable (∀ order ∈ orders.rows, _ ∧ (_ → _)))

instance {places digits : ℕ} {most : ℚ} {c : Core} : Decidable (c.Few places digits most) :=
  decidable_of_iff (c.ledger.funds.Small (InCurrency c.ledger.assets) (places + digits) most ∧
      c.exchange.shares.Small AnyPosition places most ∧ OrdersFit places digits most c.exchange.orders)
    ⟨fun all => ⟨all.1, all.2.1, all.2.2⟩, fun few => ⟨few.funds, few.shares, few.orders⟩⟩

/-- What the calls need; the money and the shares that a holder has may grow beyond what the orders are of. -/
structure Core.Ready (places digits : ℕ) (most more : ℚ) (c : Core) : Prop where
  funds : c.ledger.funds.Ready (InCurrency c.ledger.assets) (places + digits) more
  shares : c.exchange.shares.Ready AnyPosition places more
  orders : OrdersFit places digits most c.exchange.orders

namespace Core.Ready

variable {places digits : ℕ} {most more larger : ℚ} {c c' : Core}

theorem mono (ready : c.Ready places digits most more) (le : more ≤ larger) : c.Ready places digits most larger where
  funds := ready.funds.mono le
  shares := ready.shares.mono le
  orders := ready.orders

theorem inCurrency_steady (assets : Table Asset) : Reserved.Steady (InCurrency assets) := fun _ _ => Iff.rfl

theorem anyPosition_steady : Reserved.Steady AnyPosition := fun _ _ => Iff.rfl

theorem releaseOrder_agree (ready : c.Ready places digits most more) (room : Room (places + digits) more)
    (orderId : Nat) (side : OrderSide) :
    Agree (fun _ c' => c'.Ready places digits most more ∧ c'.exchange.orders = c.exchange.orders)
      (Rounded.ExecutionCoordinator.releaseOrder orderId side) (ExecutionCoordinator.releaseOrder orderId side) c := by
  cases side with
  | buy =>
    refine (Agree.zoom (Reserved.releaseByReference_agree (s := fundsField.get c) (inCurrency_steady _) room ready.funds
      orderId)).weaken ?_
    rintro _ _ ⟨funds, rfl, ready'⟩
    exact ⟨⟨ready', ready.shares, ready.orders⟩, rfl⟩
  | sell =>
    refine (Agree.zoom (Reserved.releaseByReference_agree (s := sharesField.get c) anyPosition_steady
      (room.coarser (Nat.le_add_right _ _)) ready.shares orderId)).weaken ?_
    rintro _ _ ⟨shares, rfl, ready'⟩
    exact ⟨⟨ready.funds, ready', ready.orders⟩, rfl⟩

theorem consumeFrom_agree {H : Type} [Holder H] [Holder.Lawful H] {field : Field Core (Reserved H)} [field.Lawful]
    {selected : H → Prop} {digits : ℕ} {amount : ℚ} {missing : Fault} {orderId : Nat} (steady : Reserved.Steady selected)
    (room : Room digits more) (part : (field.get c).Ready selected digits more) (fits : Places digits amount) :
    Agree (fun _ c' => ∃ t, c' = field.set t c ∧ t.Ready selected digits more)
      (Rounded.ExecutionCoordinator.consumeFrom field orderId amount missing)
      (ExecutionCoordinator.consumeFrom field orderId amount missing) c := by
  refine .after fun found c₁ looked => .orThrow fun pair present => ?_
  obtain ⟨t, same, rfl⟩ := run_zoom_ok.mp looked
  simp only [Reserved.findActiveByReference, run_find?, Reserved.reservationsField_get, Except.ok.injEq, Prod.mk.injEq] at same
  obtain ⟨located, rfl⟩ := same
  obtain ⟨k, r⟩ := pair
  obtain ⟨there, holds⟩ := Table.find?_some (located.trans present)
  rw [Field.Lawful.set_get]
  exact .zoom (Reserved.consume_agree steady room part there (Reserved.activeFor_status holds).1 fits)

theorem consumeBuyer_agree (ready : c.Ready places digits most more) (room : Room (places + digits) more) {cost : ℚ}
    (fits : Places (places + digits) cost) (orderId : Nat) (cannot : String) :
    Agree (fun _ c' => c'.Ready places digits most more ∧ c'.exchange.orders = c.exchange.orders)
      (Rounded.ExecutionCoordinator.consumeBuyer orderId cost cannot)
      (ExecutionCoordinator.consumeBuyer orderId cost cannot) c := by
  refine (@consumeFrom_agree _ c _ _ _ fundsField _ _ _ _ _ _ (inCurrency_steady c.ledger.assets) room ready.funds fits).weaken ?_
  rintro _ _ ⟨funds, rfl, ready'⟩
  exact ⟨⟨ready', ready.shares, ready.orders⟩, rfl⟩

theorem consumeSeller_agree (ready : c.Ready places digits most more) (room : Room places more) {quantity : ℚ}
    (fits : Places places quantity) (orderId : Nat) :
    Agree (fun _ c' => c'.Ready places digits most more ∧ c'.exchange.orders = c.exchange.orders)
      (Rounded.ExecutionCoordinator.consumeSeller orderId quantity)
      (ExecutionCoordinator.consumeSeller orderId quantity) c := by
  refine (@consumeFrom_agree _ c _ _ _ sharesField _ _ _ _ _ _ anyPosition_steady room ready.shares fits).weaken ?_
  rintro _ _ ⟨shares, rfl, ready'⟩
  exact ⟨⟨ready.funds, ready', ready.orders⟩, rfl⟩

theorem post_agree {input : String → Ledger.PostTransactionInput} {count : ℕ} {amount : ℚ}
    (ready : c.Ready places digits most more) (nonneg : 0 ≤ more)
    (room : Room (places + digits) (more + count * amount))
    (named : ∀ symbol, (input symbol).assetSymbol = symbol)
    (length : ∀ symbol, (input symbol).postings.length = count)
    (figures : ∀ symbol, ∀ posting ∈ (input symbol).postings,
      Figure (places + digits) amount posting.amount) (grows : 0 ≤ count * amount) :
    Agree (fun _ c' => c'.Ready places digits most (more + count * amount) ∧ c'.exchange.orders = c.exchange.orders)
      (Rounded.postInSettlementCurrency input) (postInSettlementCurrency input) c := by
  refine .findOrThrow fun found located => ?_
  obtain ⟨currency, asset⟩ := found
  obtain ⟨there, flagged⟩ := Table.find?_some located
  have bySymbol : c.ledger.assets.find? (fun other => decide (other.symbol = (input asset.symbol).assetSymbol)) =
      some (currency, asset) := by
    rw [named]
    exact ExecutionCoordinator.named_settlement located
  have fits : Ledger.CurrencyFits (input asset.symbol).assetSymbol (places + digits) more c.ledger := by
    intro assetId row found account member mine
    rw [bySymbol] at found
    cases found
    exact ready.funds.small.holders account member ⟨asset, by rw [mine]; exact located⟩
  have sized := length asset.symbol
  have agree := Ledger.postTransaction_agree (l := c.ledger) (by rw [sized]; exact room) nonneg (figures asset.symbol) fits
  constructor
  next => exact (show Agree _ (zoom ledgerField _) (zoom ledgerField _) c from .zoom agree).same
  next =>
    intro result c' done
    obtain ⟨l, ran, rfl⟩ := run_zoom_ok.mp done
    have fits' := agree.holds result l ran
    rw [sized] at fits'
    rcases Ledger.postTransaction_ok ran with ⟨-, rfl, -⟩ | ⟨-, -, assetId, posted⟩
    next => exact ⟨ready.mono (by linarith), rfl⟩
    next =>
      have mono := ready.mono (by linarith : more ≤ more + count * amount)
      refine ⟨⟨⟨⟨?_, ?_⟩, ?_⟩, mono.shares, mono.orders⟩, rfl⟩
      next =>
        rintro account member ⟨row, mine⟩
        change l.assets.find? _ = _ at mine
        rw [posted.assets] at mine
        cases located.symm.trans mine
        refine fits' _ asset ?_ account member rfl
        rw [posted.assets]
        exact bySymbol
      next =>
        change ∀ r ∈ l.funds.reservations.rows, _
        rw [posted.reservations]
        exact mono.funds.small.reservations
      next =>
        intro r member active order
        change r ∈ l.funds.reservations.rows at member
        rw [posted.reservations] at member
        obtain ⟨account, held, row, mine⟩ := ready.funds.held r member active order
        obtain ⟨account', held', same⟩ := posted.accounts _ _ held
        simp only [Prod.mk.injEq] at same
        refine ⟨account', held', row, ?_⟩
        change l.assets.find? _ = _
        rw [posted.assets, same.2.1]
        exact mine

structure Fillable (places : ℕ) (most q : ℚ) (order : Order) : Prop where
  -- an order that was read in this state, or in one before it
  valid : RowSpec.check order = true
  fits : order.Fits places most
  part : Places places q
  positive : 0 < q
  within : q ≤ order.remainingQuantity

theorem Fillable.rest {order : Order} {q : ℚ} (fillable : Fillable places most q order) :
    Figure places most (order.remainingQuantity - q) := by
  have below := (abs_le.mp (fillable.fits.remaining fillable.valid).small).2
  refine .of_le ((fillable.fits.remaining fillable.valid).fits.sub fillable.part) (by linarith [fillable.within]) ?_
  linarith [fillable.positive]

theorem updateOrder_agree (ready : c.Ready places digits most more) (room : Room places most) {order : Order} {q : ℚ}
    (fillable : Fillable places most q order) (orderId : Nat) :
    Agree (fun _ c' => c'.Ready places digits most more) (Rounded.ExecutionCoordinator.updateOrder orderId order q)
      (ExecutionCoordinator.updateOrder orderId order q) c := by
  have filled := fillable.fits.more fillable.valid fillable.part fillable.positive.le fillable.within
  obtain ⟨-, -, whole⟩ := Order.bounds fillable.valid
  refine .read ?_
  rw [room.plus filled, room.minus fillable.rest]
  cases there : c.exchange.orders.get? orderId with
  | none => exact .fail
  | some current =>
    refine .ite (fun _ => ?_) fun _ => .fail
    refine room.write filled (room.write fillable.rest (.self fun _ c' done => ?_))
    obtain ⟨t, updated, rfl⟩ := run_update_ok.mp done
    obtain ⟨-, checked, -, rows⟩ := Table.update_ok updated
    refine ⟨ready.funds, ready.shares, fun other member => ?_⟩
    change other ∈ t.rows at member
    rw [rows] at member
    rcases List.mem_or_eq_of_mem_set member with old | rfl
    next => exact ready.orders other old
    next =>
      -- the CHECK on the row says what its quantity is
      obtain ⟨-, -, sum⟩ := Order.bounds checked
      have same : current.quantity = order.quantity := by
        rw [← whole, ← sum]
        ring
      refine ⟨(ready.orders current (Table.get?_mem there)).1, fun _ => ⟨?_, filled.fits⟩⟩
      exact same ▸ fillable.fits.quantity

theorem increaseBuyerPosition_agree (ready : c.Ready places digits most more) {q price : ℚ} (room : Room places (more + q))
    (nonneg : 0 ≤ more) (part : Places places q) (positive : 0 < q) (userId marketId outcomeId : Nat) :
    Agree (fun _ c' => c'.Ready places digits most (more + q) ∧ c'.exchange.orders = c.exchange.orders)
      (Rounded.ExecutionCoordinator.increaseBuyerPosition userId marketId outcomeId q price)
      (ExecutionCoordinator.increaseBuyerPosition userId marketId outcomeId q price) c := by
  have grown : ∀ {c₁ : Core} {i : Nat} {position : Position}, c₁.Ready places digits most more →
      c₁.exchange.orders = c.exchange.orders → c₁.exchange.positions.get? i = some position →
      Agree (fun _ c' => c'.Ready places digits most (more + q) ∧ c'.exchange.orders = c.exchange.orders)
        (do
          let quantity ← Rounded.write (Decimal.plus position.quantity q)
          update positionsField i
            { position with
              quantity := quantity
              avgPrice := ExecutionCoordinator.averagePrice position q price (Decimal.plus position.quantity q) })
        (update positionsField i
          { position with
            quantity := position.quantity + q
            avgPrice := ExecutionCoordinator.averagePrice position q price (position.quantity + q) }) c₁ := by
    intro c₁ i position ready₁ orders found
    obtain ⟨quantity, reserved⟩ := ready₁.shares.small.holders position (Table.get?_mem found) trivial
    have sum : Figure places (more + q) (position.quantity + q) :=
      quantity.add (.of_le part positive.le le_rfl)
    rw [room.plus sum]
    refine room.write sum (.self fun _ c' done => ?_)
    obtain ⟨t, updated, rfl⟩ := run_update_ok.mp done
    obtain ⟨-, -, -, rows⟩ := Table.update_ok updated
    have wider := ready₁.mono (by linarith : more ≤ more + q)
    refine ⟨⟨wider.funds, ?_, wider.orders⟩, orders⟩
    exact wider.shares.rewriteHolder found rows (fun _ => trivial) ⟨sum, reserved.mono (by linarith)⟩
  refine .upsert (fun found located => ?_) fun t missing inserted => ?_
  next =>
    obtain ⟨i, position⟩ := found
    exact grown ready rfl (Table.find?_some located).1
  next =>
    obtain ⟨-, -, rows⟩ := Table.insert_ok inserted
    refine grown ⟨ready.funds, ?_, ready.orders⟩ rfl ?_
    next => exact ready.shares.insertHolder rows ⟨.zero nonneg, .zero nonneg⟩
    next =>
      change t.get? c.exchange.positions.size = _
      exact (Table.get?_of_append rows _).trans (if_pos rfl)

theorem updatePositions_agree (ready : c.Ready places digits most more) {q price : ℚ} (room : Room places (more + q))
    (nonneg : 0 ≤ more) (part : Places places q) (positive : 0 < q) (instruction : ExecutionInstruction) :
    Agree (fun _ c' => c'.Ready places digits most (more + q))
      (Rounded.ExecutionCoordinator.updatePositions instruction q price)
      (ExecutionCoordinator.updatePositions instruction q price) c := by
  refine (increaseBuyerPosition_agree ready room nonneg part positive _ _ _).bind fun _ c₁ _ grown => ?_
  obtain ⟨ready₁, -⟩ := grown
  refine .findOrThrow fun found located => ?_
  obtain ⟨i, position⟩ := found
  obtain ⟨there, -⟩ := Table.find?_some located
  obtain ⟨quantity, reserved⟩ := ready₁.shares.small.holders position (Table.get?_mem there) trivial
  have valid := ExecutionCoordinator.position_valid (Table.get?_mem there)
  have rest : Figure places (more + q) (position.quantity - q) :=
    quantity.sub_of_nonneg (.of_le part positive.le (by linarith)) valid.1 positive.le
  dsimp only
  rw [room.minus rest]
  refine room.write rest (.self fun _ c' done => ?_)
  obtain ⟨t, updated, rfl⟩ := run_update_ok.mp done
  obtain ⟨-, -, -, rows⟩ := Table.update_ok updated
  exact ⟨ready₁.funds, ready₁.shares.rewriteHolder there rows (fun _ => trivial) ⟨rest, reserved⟩, ready₁.orders⟩

theorem releaseFilled_agree (ready : c.Ready places digits most more) (room : Room (places + digits) more)
    (tight : Room places most) {order : Order} {q : ℚ} (fillable : Fillable places most q order) (orderId : Nat) :
    Agree (fun _ c' => c'.Ready places digits most more)
      (Rounded.ExecutionCoordinator.releaseReservationIfOrderNowFilled orderId order q)
      (ExecutionCoordinator.releaseReservationIfOrderNowFilled orderId order q) c := by
  unfold Rounded.ExecutionCoordinator.releaseReservationIfOrderNowFilled
  rw [tight.minus fillable.rest]
  refine .ite (fun _ => .pure ready) fun _ => ?_
  exact (releaseOrder_agree ready room orderId order.side).weaken fun _ _ done => done.1

structure Drawable (places digits : ℕ) (most more q price : ℚ) : Prop where
  -- what the calls on an instruction are given
  part : Places places q
  positive : 0 < q
  figure : Figure digits 1 price
  nonneg : 0 ≤ more
  tight : Room places most

namespace Drawable

variable {q price : ℚ}

theorem cost (drawable : Drawable places digits most more q price) :
    Figure (places + digits) q (q * price) := by
  have quantity : Figure places q q := .of_le drawable.part drawable.positive.le le_rfl
  have product := quantity.mul drawable.figure
  rwa [mul_one] at product

end Drawable

theorem postTradeLedger_agree (ready : c.Ready places digits most more) {q price : ℚ}
    (drawable : Drawable places digits most more q price) (room : Room (places + digits) (more + 2 * q))
    (fillId : Nat) (instruction : ExecutionInstruction) :
    Agree (fun _ c' => c'.Ready places digits most (more + 2 * q) ∧ c'.exchange.orders = c.exchange.orders)
      (Rounded.ExecutionCoordinator.postTradeLedger fillId instruction q price ⟨0, 0⟩)
      (ExecutionCoordinator.postTradeLedger fillId instruction q price ⟨0, 0⟩) c := by
  have cost := drawable.cost
  have most_cost : Room (places + digits) q :=
    room.smaller (by linarith [drawable.nonneg, drawable.positive])
  have none : Decimal.plus 0 0 = 0 + 0 := most_cost.plus (by rw [add_zero]; exact .zero drawable.positive.le)
  have same : Rounded.ExecutionCoordinator.tradePostings instruction q price ⟨0, 0⟩ =
      ExecutionCoordinator.tradePostings instruction q price ⟨0, 0⟩ := by
    have debit : Decimal.plus (q * price) 0 = q * price + 0 := most_cost.plus (by rwa [add_zero])
    have credit : Decimal.minus (q * price) 0 = q * price - 0 := most_cost.minus (by rwa [sub_zero])
    simp only [Rounded.ExecutionCoordinator.tradePostings, ExecutionCoordinator.tradePostings, most_cost.times cost, debit,
      credit, none, add_zero]
  unfold Rounded.ExecutionCoordinator.postTradeLedger
  rw [same]
  refine Agree.bind (@post_agree places digits most more c _ 2 q ready drawable.nonneg (by exact_mod_cast room) (fun _ => rfl)
    (fun _ => ?_) (fun _ posting member => ?_) (by norm_num; exact drawable.positive.le)) fun _ c' _ posted => .pure ?_
  next => simp [ExecutionCoordinator.tradePostings]
  next =>
    simp only [ExecutionCoordinator.tradePostings, add_zero, sub_zero, ne_eq, not_true_eq_false, if_false, List.append_nil,
      List.mem_cons, List.not_mem_nil, or_false] at member
    rcases member with rfl | rfl
    next => exact cost.neg
    next => exact cost
  next => exact_mod_cast posted

theorem settleFill_agree (ready : c.Ready places digits most more) {instruction : ExecutionInstruction} {q : ℚ}
    (drawable : Drawable places digits most more q instruction.price)
    (room : Room (places + digits) (more + 3 * q)) {buyOrder sellOrder : Order}
    (buy : Fillable places most q buyOrder) (sell : Fillable places most q sellOrder) (fillId : Nat) :
    Agree (fun _ c' => c'.Ready places digits most (more + 3 * q))
      (Rounded.ExecutionCoordinator.settleFill fillId instruction buyOrder sellOrder q ⟨0, 0⟩)
      (ExecutionCoordinator.settleFill fillId instruction buyOrder sellOrder q ⟨0, 0⟩) c := by
  have positive := drawable.positive
  have nonneg := drawable.nonneg
  have cost := drawable.cost
  have first : Room (places + digits) more := room.smaller (by linarith)
  have costs : Room (places + digits) q := room.smaller (by linarith)
  have coarse : places ≤ places + digits := Nat.le_add_right _ _
  unfold Rounded.ExecutionCoordinator.settleFill Rounded.ExecutionCoordinator.consumeReservations
  rw [costs.times cost]
  have reservations : Agree (fun _ c' => c'.Ready places digits most more) _ _ c :=
    (consumeBuyer_agree ready first cost.fits instruction.buyOrderId "cannot execute").bind fun _ c₁ _ drawn =>
      (consumeSeller_agree drawn.1 (first.coarser coarse) drawable.part instruction.sellOrderId).weaken
        fun _ _ consumed => consumed.1
  refine Agree.bind reservations fun _ c₂ _ consumed => ?_
  refine (postTradeLedger_agree consumed drawable (room.smaller (by linarith)) fillId instruction).bind
    fun _ c₃ _ posted => ?_
  refine (updateOrder_agree posted.1 drawable.tight buy _).bind fun _ c₄ _ bought => ?_
  refine (updateOrder_agree bought drawable.tight sell _).bind fun _ c₅ _ sold => ?_
  have whole : more + 2 * q + q = more + 3 * q := by ring
  refine (updatePositions_agree sold (whole ▸ room.coarser coarse) (by linarith) drawable.part positive instruction).bind
    fun _ c₆ _ moved => ?_
  rw [whole] at moved
  exact (releaseFilled_agree moved room drawable.tight buy _).bind fun _ c₇ _ released =>
    releaseFilled_agree released room drawable.tight sell _

theorem executeFill_agree (ready : c.Ready places digits most more) {instruction : ExecutionInstruction} {q : ℚ}
    (drawable : Drawable places digits most more q instruction.price)
    (room : Room (places + digits) (more + 3 * q)) {buyOrder sellOrder : Order}
    (buy : Fillable places most q buyOrder) (sell : Fillable places most q sellOrder) :
    Agree (fun _ c' => c'.Ready places digits most (more + 3 * q))
      (Rounded.ExecutionCoordinator.executeFill zeroFeeCalculator instruction buyOrder sellOrder q)
      (ExecutionCoordinator.executeFill zeroFeeCalculator instruction buyOrder sellOrder q) c := by
  have costs : Room (places + digits) q := room.smaller (by linarith [drawable.nonneg, drawable.positive])
  have none : Decimal.plus 0 0 = 0 + 0 := costs.plus (by rw [add_zero]; exact .zero drawable.positive.le)
  refine .throwIf fun _ => ?_
  change Agree _ (createOnce fillsField "idempotencyKey" (ExecutionCoordinator.fillRow instruction q (Decimal.plus 0 0)) _ _
    >>= _) _ c
  rw [none]
  refine .after fun pair c₁ created => ?_
  obtain ⟨fillId, existed⟩ := pair
  rcases run_createOnce_ok created with ⟨rfl, -, t, -, rfl⟩ | ⟨rfl, rfl, -⟩
  next =>
    refine Agree.bind (settleFill_agree ?_ drawable room buy sell fillId) fun _ _ _ settled => .pure settled
    exact ⟨ready.funds, ready.shares, ready.orders⟩
  next => exact .pure (ready.mono (by linarith [drawable.positive]))

structure Instructed (places digits : ℕ) (amount quantity price : ℚ) : Prop where
  -- what an instruction says: how much at most, and at what price
  fits : Places places quantity
  below : quantity ≤ amount
  some : 0 ≤ amount
  price : Figure digits 1 price

instance {amount quantity price : ℚ} : Decidable (Instructed places digits amount quantity price) :=
  decidable_of_iff (Places places quantity ∧ quantity ≤ amount ∧ 0 ≤ amount ∧ Figure digits 1 price)
    ⟨fun all => ⟨all.1, all.2.1, all.2.2.1, all.2.2.2⟩, fun i => ⟨i.fits, i.below, i.some, i.price⟩⟩

theorem minRemaining_fillable (orders : OrdersFit places digits most c.exchange.orders) {quantity : ℚ} (part : Places places quantity)
    {i j : Nat} {a b : Order} (foundA : c.exchange.orders.get? i = .some a) (foundB : c.exchange.orders.get? j = .some b)
    (restsA : a.isExecutable = true) (restsB : b.isExecutable = true)
    (positive : 0 < ExecutionCoordinator.minRemaining quantity a b) :
    Fillable places most (ExecutionCoordinator.minRemaining quantity a b) a ∧
      Fillable places most (ExecutionCoordinator.minRemaining quantity a b) b := by
  have fitsA := (orders a (Table.get?_mem foundA)).2 restsA
  have fitsB := (orders b (Table.get?_mem foundB)).2 restsB
  have validA := Table.check_of_get? foundA
  have validB := Table.check_of_get? foundB
  have least : Places places (ExecutionCoordinator.minRemaining quantity a b) :=
    (part.min (fitsA.remaining validA).fits).min (fitsB.remaining validB).fits
  exact ⟨⟨validA, fitsA, least, positive, (min_le_left _ _).trans (min_le_right _ _)⟩,
    ⟨validB, fitsB, least, positive, min_le_right _ _⟩⟩

theorem applyExecution_agree (ready : c.Ready places digits most more) {instruction : ExecutionInstruction} {amount : ℚ}
    (instructed : Instructed places digits amount instruction.quantity instruction.price) (nonneg : 0 ≤ more)
    (tight : Room places most) (room : Room (places + digits) (more + 3 * amount)) (now : Time) :
    Agree (fun _ c' => c'.Ready places digits most (more + 3 * amount))
      (Rounded.ExecutionCoordinator.applyExecution zeroFeeCalculator now instruction)
      (ExecutionCoordinator.applyExecution zeroFeeCalculator now instruction) c := by
  have grown := ready.mono (by linarith [instructed.some] : more ≤ more + 3 * amount)
  refine .getOrThrow fun buy foundB => .getOrThrow fun sell foundS => .getOrThrow fun market _ => ?_
  refine .ite (fun _ => .pure grown) fun _ => .ite (fun _ => .pure grown) fun rest => ?_
  refine .ite (fun _ => .pure grown) fun some => ?_
  simp only [not_or, Bool.not_eq_false] at rest
  have positive := not_le.mp some
  obtain ⟨fillB, fillS⟩ := minRemaining_fillable ready.orders instructed.fits foundB foundS rest.1 rest.2 positive
  have less : ExecutionCoordinator.minRemaining instruction.quantity buy sell ≤ amount :=
    ((min_le_left _ _).trans (min_le_left _ _)).trans instructed.below
  have drawable : Drawable places digits most more _ instruction.price := ⟨fillB.part, positive, instructed.price, nonneg, tight⟩
  exact (executeFill_agree ready drawable (room.smaller (by linarith)) fillB fillS).weaken
    fun _ _ done => done.mono (by linarith)

section Mints

variable {instruction : MintInstruction} {q : ℚ} {a b : Order}

theorem postMintLedger_agree (ready : c.Ready places digits most more) (drawA : Drawable places digits most more q instruction.priceA)
    (drawB : Drawable places digits most more q instruction.priceB)
    (room : Room (places + digits) (more + 6 * q)) (mintId : Nat) :
    Agree (fun _ c' => c'.Ready places digits most (more + 6 * q) ∧ c'.exchange.orders = c.exchange.orders)
      (Rounded.ExecutionCoordinator.postMintLedger mintId instruction q)
      (ExecutionCoordinator.postMintLedger mintId instruction q) c := by
  have positive := drawA.positive
  have nonneg := drawA.nonneg
  have costA := drawA.cost
  have costB := drawB.cost
  have sum := costA.add costB
  have costs : Room (places + digits) (q + q) := room.smaller (by linarith)
  have same : Rounded.ExecutionCoordinator.mintPostings instruction q = ExecutionCoordinator.mintPostings instruction q := by
    have one := costs.smaller (by linarith : q ≤ q + q)
    simp only [Rounded.ExecutionCoordinator.mintPostings, ExecutionCoordinator.mintPostings, one.times costA, one.times costB,
      costs.plus sum]
  have bound : more + (3 : ℕ) * (2 * q) = more + 6 * q := by
    push_cast
    ring
  unfold Rounded.ExecutionCoordinator.postMintLedger
  rw [same]
  refine Agree.bind (@post_agree places digits most more c _ 3 (2 * q) ready nonneg (bound ▸ room) (fun _ => rfl) (fun _ => rfl)
    (fun _ posting member => ?_) (by positivity)) fun _ c' _ posted => .pure (bound ▸ posted)
  simp only [ExecutionCoordinator.mintPostings, List.mem_cons, List.not_mem_nil, or_false] at member
  rcases member with rfl | rfl | rfl
  next => exact costA.neg.mono (by linarith)
  next => exact costB.neg.mono (by linarith)
  next => exact sum.mono (by linarith)

theorem settleMint_agree (ready : c.Ready places digits most more) (drawA : Drawable places digits most more q instruction.priceA)
    (drawB : Drawable places digits most more q instruction.priceB)
    (room : Room (places + digits) (more + 8 * q)) (fillA : Fillable places most q a)
    (fillB : Fillable places most q b) (mintId : Nat) :
    Agree (fun _ c' => c'.Ready places digits most (more + 8 * q))
      (Rounded.ExecutionCoordinator.settleMint mintId instruction a b q)
      (ExecutionCoordinator.settleMint mintId instruction a b q) c := by
  have positive := drawA.positive
  have nonneg := drawA.nonneg
  have first : Room (places + digits) more := room.smaller (by linarith)
  have costs : Room (places + digits) q := room.smaller (by linarith)
  have coarse : places ≤ places + digits := Nat.le_add_right _ _
  unfold Rounded.ExecutionCoordinator.settleMint
  rw [costs.times drawA.cost, costs.times drawB.cost]
  refine (consumeBuyer_agree ready first drawA.cost.fits _ _).bind fun _ c₁ _ consumedA => ?_
  refine (consumeBuyer_agree consumedA.1 first drawB.cost.fits _ _).bind fun _ c₂ _ consumedB => ?_
  refine (postMintLedger_agree consumedB.1 drawA drawB (room.smaller (by linarith)) mintId).bind fun _ c₃ _ posted => ?_
  refine (updateOrder_agree posted.1 drawA.tight fillA _).bind fun _ c₄ _ boughtA => ?_
  refine (updateOrder_agree boughtA drawA.tight fillB _).bind fun _ c₅ _ boughtB => ?_
  have seven : more + 6 * q + q = more + 7 * q := by ring
  have eight : more + 7 * q + q = more + 8 * q := by ring
  refine (increaseBuyerPosition_agree boughtB (seven ▸ (room.coarser coarse).smaller (by linarith)) (by linarith)
    drawA.part positive _ _ _).bind fun _ c₆ _ movedA => ?_
  rw [seven] at movedA
  refine (increaseBuyerPosition_agree movedA.1 (eight ▸ room.coarser coarse) (by linarith) drawA.part positive _ _ _).bind
    fun _ c₇ _ movedB => ?_
  rw [eight] at movedB
  exact (releaseFilled_agree movedB.1 room drawA.tight fillA _).bind fun _ c₈ _ released =>
    releaseFilled_agree released room drawA.tight fillB _

theorem executeMint_agree (ready : c.Ready places digits most more) (drawA : Drawable places digits most more q instruction.priceA)
    (drawB : Drawable places digits most more q instruction.priceB)
    (room : Room (places + digits) (more + 8 * q)) (fillA : Fillable places most q a)
    (fillB : Fillable places most q b) :
    Agree (fun _ c' => c'.Ready places digits most (more + 8 * q))
      (Rounded.ExecutionCoordinator.executeMint instruction a b q)
      (ExecutionCoordinator.executeMint instruction a b q) c := by
  refine .after fun pair c₁ created => ?_
  obtain ⟨mintId, existed⟩ := pair
  rcases run_createOnce_ok created with ⟨rfl, -, t, -, rfl⟩ | ⟨rfl, rfl, -⟩
  next =>
    refine Agree.bind (settleMint_agree ?_ drawA drawB room fillA fillB mintId) fun _ _ _ settled => .pure settled
    exact ⟨ready.funds, ready.shares, ready.orders⟩
  next => exact .pure (ready.mono (by linarith [drawA.positive]))

theorem applyMintExecution_agree (ready : c.Ready places digits most more) {amount : ℚ}
    (instructedA : Instructed places digits amount instruction.quantity instruction.priceA)
    (instructedB : Instructed places digits amount instruction.quantity instruction.priceB) (nonneg : 0 ≤ more)
    (tight : Room places most) (room : Room (places + digits) (more + 8 * amount)) (now : Time) :
    Agree (fun _ c' => c'.Ready places digits most (more + 8 * amount))
      (Rounded.ExecutionCoordinator.applyMintExecution now instruction)
      (ExecutionCoordinator.applyMintExecution now instruction) c := by
  have grown := ready.mono (by linarith [instructedA.some] : more ≤ more + 8 * amount)
  refine .getOrThrow fun a foundA => .getOrThrow fun b foundB => .getOrThrow fun market _ => ?_
  refine .ite (fun _ => .pure grown) fun _ => .ite (fun _ => .pure grown) fun rest => ?_
  refine .ite (fun _ => .pure grown) fun some => ?_
  simp only [not_or, Bool.not_eq_false] at rest
  have positive := not_le.mp some
  obtain ⟨fillA, fillB⟩ := minRemaining_fillable ready.orders instructedA.fits foundA foundB rest.1 rest.2 positive
  have less : ExecutionCoordinator.minRemaining instruction.quantity a b ≤ amount :=
    ((min_le_left _ _).trans (min_le_left _ _)).trans instructedA.below
  have drawA : Drawable places digits most more _ instruction.priceA := ⟨fillA.part, positive, instructedA.price, nonneg, tight⟩
  have drawB : Drawable places digits most more _ instruction.priceB := ⟨fillA.part, positive, instructedB.price, nonneg, tight⟩
  exact (executeMint_agree ready drawA drawB (room.smaller (by linarith)) fillA fillB).weaken
    fun _ _ done => done.mono (by linarith)

end Mints

end Core.Ready

end VerdictVaut
