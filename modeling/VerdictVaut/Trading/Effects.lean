import VerdictVaut.Trading.Orders
import VerdictVaut.Ledger.Progress

set_option autoImplicit false

namespace VerdictVaut

open Relational Relational.Tx VerdictVaut.Core

def tradingKinds : ReferenceType → Bool
  -- the references that trading and settlement put into the ledger
  | .order | .fill | .completeSetMint | .position => true
  | .deposit | .withdrawal => false

namespace ExecutionCoordinator

section Reservations

variable {H : Type} [Holder H] {field : Field Core (Reserved H)} [field.Lawful] {c c' : Core} {orderId : Nat}

theorem consumeFrom_ok {amount : ℚ} {missing : Fault} {u : Unit}
    (done : (consumeFrom field orderId amount missing).run c = .ok (u, c')) :
    ∃ s k r, c' = field.set s c ∧ Reserved.activeFor .order orderId r = true ∧ 0 < amount ∧
      amount ≤ r.unconsumed ∧ Reserved.Rewritten (field.get c) s k r (Reserved.draw amount r) := by
  -- drawing down changes the order's own reservation, which was active and large enough
  simp only [consumeFrom, run_bind_ok, run_zoom_ok, Reserved.findActiveByReference, run_find?,
    run_orThrow_ok, Except.ok.injEq, Prod.mk.injEq] at done
  obtain ⟨_, _, ⟨_, ⟨rfl, rfl⟩, rfl⟩, ⟨k, r⟩, _, ⟨found, rfl⟩, s, consumed, rfl⟩ := done
  rw [Field.Lawful.set_get] at consumed
  rw [Field.Lawful.set_get]
  obtain ⟨position, holds⟩ := Table.find?_some found
  obtain ⟨r', positive, -, enough, rewritten⟩ := Reserved.consume_ok consumed
  have same := rewritten.found
  rw [Reserved.reservationsField_get] at position
  rw [position] at same
  cases same
  exact ⟨s, k, r, rfl, holds, positive, enough, rewritten⟩

variable (field) in
omit [field.Lawful] in
theorem releaseIn_ok {u : Unit}
    (done : (zoom field (Reserved.releaseByReference .order orderId)).run c = .ok (u, c')) :
    ∃ s, c' = field.set s c ∧ Reserved.OnRef (field.get c) s .order orderId Reserved.settle ∧
      (s = field.get c ∨ ∃ k r, Reserved.activeFor .order orderId r = true ∧
        Reserved.Rewritten (field.get c) s k r { r with status := .released }) := by
  rw [run_zoom_ok] at done
  obtain ⟨s, released, rfl⟩ := done
  exact ⟨s, rfl, Reserved.releaseByReference_onRef released⟩

end Reservations

section Positions

def tag (position : Position) : Nat × Nat × Nat × Option Time :=
  -- the columns of a position that trading never rewrites
  (position.userId, position.marketId, position.outcomeId, position.settledAt)

def weighted (w : Nat × Nat × Nat × Option Time → ℚ) (positions : Table Position) : ℚ :=
  -- a sum of held quantities, weighted by those columns
  sumWhere (fun _ => true) (fun position => w (tag position) * position.quantity) positions.rows

structure Shifted (s s' : Reserved Position) (userId marketId outcomeId : Nat) (q : ℚ) : Prop where
  -- one position's quantity moves; it may have been opened for it
  reservations : s'.reservations = s.reservations
  tags : Table.Carries tag s.holders s'.holders
  agrees : s.Agrees → s'.Agrees
  origin : ∀ position ∈ s'.holders.rows,
    (∃ before ∈ s.holders.rows, tag before = tag position) ∨ tag position = (userId, marketId, outcomeId, none)
  moved : ∃ settledAt, (settledAt = none ∨
      ∃ before ∈ s.holders.rows, tag before = (userId, marketId, outcomeId, settledAt)) ∧
    ∀ w, weighted w s'.holders = weighted w s.holders + w (userId, marketId, outcomeId, settledAt) * q

variable {c c' : Core} {userId marketId outcomeId : Nat} {q : ℚ}

theorem isPosition_iff {position : Position} : isPosition userId marketId outcomeId position = true ↔
    position.userId = userId ∧ position.marketId = marketId ∧ position.outcomeId = outcomeId := by
  simp [isPosition, and_assoc]

theorem isPosition_clash (a b : Position) (first : isPosition userId marketId outcomeId a = true)
    (second : isPosition userId marketId outcomeId b = true) : RowSpec.clash a b ≠ none := by
  obtain ⟨u, m, o⟩ := isPosition_iff.mp first
  obtain ⟨u', m', o'⟩ := isPosition_iff.mp second
  simp [RowSpec.clash, u, m, o, u', m', o']

theorem weighted_set {t t' : Table Position} {i : Nat} {position position' : Position}
    (found : t.get? i = some position) (rewritten : t'.rows = t.rows.set i position')
    (same : tag position' = tag position) (w : Nat × Nat × Nat × Option Time → ℚ) :
    weighted w t' = weighted w t + w (tag position) * (position'.quantity - position.quantity) := by
  unfold weighted
  rw [rewritten, sumWhere_set _ _ _ _ _ _ found]
  simp only [share, if_true, same]
  ring

theorem shifted_of_set {s s' : Reserved Position} {i : Nat} {position position' : Position}
    (found : s.holders.get? i = some position) (mine : isPosition userId marketId outcomeId position = true)
    (reservations : s'.reservations = s.reservations)
    (rewritten : s'.holders.rows = s.holders.rows.set i position') (same : tag position' = tag position)
    (reserved : position'.reservedQuantity = position.reservedQuantity)
    (change : position'.quantity - position.quantity = q) :
    Shifted s s' userId marketId outcomeId q := by
  obtain ⟨rfl, rfl, rfl⟩ := isPosition_iff.mp mine
  refine ⟨reservations, .of_set found rewritten same,
    fun agrees => agrees.rewriteHolder found rewritten reserved reservations, ?_, ?_⟩
  · intro other member
    left
    rw [rewritten] at member
    rcases List.mem_or_eq_of_mem_set member with old | rfl
    · exact ⟨other, old, rfl⟩
    · exact ⟨position, Table.get?_mem found, same.symm⟩
  · refine ⟨position.settledAt, .inr ⟨position, Table.get?_mem found, rfl⟩, fun w => ?_⟩
    rw [weighted_set found rewritten same w, change]
    rfl

/-- `position.upsert`: the row of the key, added empty when there is none. -/
theorem upsertPosition_ok {positionId : Nat} {position : Position}
    (done : (upsert positionsField (isPosition userId marketId outcomeId)
      (emptyPosition userId marketId outcomeId) : Tx Core Fault _).run c = .ok ((positionId, position), c')) :
    ∃ positions : Table Position, c' = positionsField.set positions c ∧
      positions.get? positionId = some position ∧ isPosition userId marketId outcomeId position = true ∧
      (positions = c.exchange.positions ∨
        positions.rows = c.exchange.positions.rows ++ [emptyPosition userId marketId outcomeId]) := by
  rw [run_upsert_ok] at done
  rcases done with ⟨found, rfl⟩ | ⟨-, t, inserted, same, rfl⟩
  · obtain ⟨position, holds⟩ := Table.find?_some found
    exact ⟨c.exchange.positions, rfl, position, holds, .inl rfl⟩
  · cases same
    obtain ⟨-, -, rows⟩ := Table.insert_ok inserted
    refine ⟨t, rfl, ?_, by simp [isPosition, emptyPosition], .inr rows⟩
    rw [Table.get?_of_append rows]
    simp [positionsField]

theorem shifted_opened {s s' : Reserved Position} {positions : Table Position}
    (rows : positions = s.holders ∨
      positions.rows = s.holders.rows ++ [emptyPosition userId marketId outcomeId])
    (shifted : Shifted { s with holders := positions } s' userId marketId outcomeId q) :
    Shifted s s' userId marketId outcomeId q := by
  rcases rows with rfl | appended
  · exact shifted
  have opened : ∀ w, weighted w positions = weighted w s.holders := by
    intro w
    simp [weighted, appended, share, emptyPosition]
  have member : ∀ position ∈ positions.rows, position ∈ s.holders.rows ∨
      tag position = (userId, marketId, outcomeId, none) := by
    intro position inside
    rw [appended] at inside
    rcases List.mem_append.mp inside with old | new
    · exact .inl old
    · rw [List.mem_singleton.mp new]
      exact .inr rfl
  refine ⟨shifted.reservations, (Table.Carries.of_append appended).trans shifted.tags,
    fun agrees => shifted.agrees (agrees.insertHolder rfl rfl appended), ?_, ?_⟩
  · intro position inside
    rcases shifted.origin position inside with ⟨before, old, same⟩ | fresh
    · rcases member before old with known | fresh
      · exact .inl ⟨before, known, same⟩
      · exact .inr (same ▸ fresh)
    · exact .inr fresh
  · obtain ⟨settledAt, known, change⟩ := shifted.moved
    refine ⟨settledAt, ?_, fun w => by rw [change w, opened w]⟩
    rcases known with rfl | ⟨before, old, same⟩
    · exact .inl rfl
    · rcases member before old with known | fresh
      · exact .inr ⟨before, known, same⟩
      · left
        rw [fresh] at same
        simpa using same.symm

theorem increaseBuyerPosition_ok {price : ℚ} {u : Unit}
    (done : (increaseBuyerPosition userId marketId outcomeId q price).run c = .ok (u, c')) :
    ∃ shares, c' = sharesField.set shares c ∧
      Shifted c.exchange.shares shares userId marketId outcomeId q := by
  simp only [increaseBuyerPosition, run_bind_ok] at done
  obtain ⟨⟨positionId, position⟩, c₁, upserted, updated⟩ := done
  obtain ⟨positions, rfl, found, mine, rows⟩ := upsertPosition_ok upserted
  rw [run_update_ok] at updated
  obtain ⟨t, updated, rfl⟩ := updated
  obtain ⟨-, -, -, rewritten⟩ := Table.update_ok updated
  refine ⟨{ c.exchange.shares with holders := t }, rfl, shifted_opened rows ?_⟩
  exact shifted_of_set found mine rfl rewritten rfl rfl (by simp)

theorem decreaseSeller_ok {positionId : Nat} {position : Position} {pnl : ℚ} {u : Unit}
    (found : c.exchange.positions.get? positionId = some position)
    (mine : isPosition userId marketId outcomeId position = true)
    (done : (update positionsField positionId
      { position with quantity := position.quantity - q, realizedPnl := pnl } : Tx Core Fault Unit).run c =
        .ok (u, c')) :
    ∃ shares, c' = sharesField.set shares c ∧
      Shifted c.exchange.shares shares userId marketId outcomeId (-q) := by
  rw [run_update_ok] at done
  obtain ⟨t, updated, rfl⟩ := done
  obtain ⟨-, -, -, rewritten⟩ := Table.update_ok updated
  exact ⟨{ c.exchange.shares with holders := t }, rfl, shifted_of_set found mine rfl rewritten rfl rfl (by simp)⟩

theorem updatePositions_ok {i : ExecutionInstruction} {price : ℚ} {u : Unit}
    (done : (updatePositions i q price).run c = .ok (u, c')) :
    ∃ middle shares, c' = sharesField.set shares c ∧
      Shifted c.exchange.shares middle i.buyerUserId i.marketId i.outcomeId q ∧
      Shifted middle shares i.sellerUserId i.marketId i.outcomeId (-q) := by
  simp only [updatePositions, run_bind_ok, run_findOrThrow_ok] at done
  obtain ⟨_, c₁, increased, ⟨positionId, position⟩, _, ⟨found, rfl⟩, updated⟩ := done
  obtain ⟨middle, rfl, first⟩ := increaseBuyerPosition_ok increased
  obtain ⟨position, holds⟩ := Table.find?_some found
  obtain ⟨shares, rfl, second⟩ := decreaseSeller_ok position holds updated
  exact ⟨middle, shares, rfl, first, second⟩

/-- What a whole transaction does to the positions, whatever it does to the reserved quantities. -/
structure Rebalanced (s s' : Reserved Position) (opened : Nat × Nat × Nat × Option Time → Prop)
    (change : (Nat × Nat × Nat × Option Time → ℚ) → ℚ) : Prop where
  tags : Table.Carries tag s.holders s'.holders
  agrees : s.Agrees → s'.Agrees
  origin : ∀ position ∈ s'.holders.rows,
    (∃ before ∈ s.holders.rows, tag before = tag position) ∨ opened (tag position)
  total : ∀ w, weighted w s'.holders = weighted w s.holders + change w

theorem Rebalanced.trans {s s' s'' : Reserved Position} {opened opened' : Nat × Nat × Nat × Option Time → Prop}
    {change change' : (Nat × Nat × Nat × Option Time → ℚ) → ℚ} (first : Rebalanced s s' opened change)
    (second : Rebalanced s' s'' opened' change') :
    Rebalanced s s'' (fun t => opened t ∨ opened' t) (fun w => change w + change' w) := by
  refine ⟨first.tags.trans second.tags, second.agrees ∘ first.agrees, ?_, ?_⟩
  · intro position member
    rcases second.origin position member with ⟨between, inside, same⟩ | new
    · rcases first.origin between inside with ⟨before, old, same'⟩ | new
      · exact .inl ⟨before, old, same'.trans same⟩
      · exact .inr (.inl (same ▸ new))
    · exact .inr (.inr new)
  · intro w
    rw [second.total, first.total]
    ring

theorem Rebalanced.weaken {s s' : Reserved Position} {opened opened' : Nat × Nat × Nat × Option Time → Prop}
    {change change' : (Nat × Nat × Nat × Option Time → ℚ) → ℚ} (moved : Rebalanced s s' opened change)
    (wider : ∀ t, opened t → opened' t) (same : ∀ w, change w = change' w) :
    Rebalanced s s' opened' change' :=
  ⟨moved.tags, moved.agrees, fun position member => (moved.origin position member).imp_right (wider _),
    fun w => (moved.total w).trans (by rw [same w])⟩

theorem clash_of_tag {a b : Position} (same : tag a = tag b) : RowSpec.clash a b ≠ none := by
  simp only [tag, Prod.mk.injEq] at same
  simp [RowSpec.clash, same]

theorem weighted_tag {s : Reserved Position} {i : Nat} {position : Position} (found : s.holders.get? i = some position) :
    weighted (fun t => if t = tag position then 1 else 0) s.holders = position.quantity := by
  have picked : weighted (fun t => if t = tag position then 1 else 0) s.holders =
      sumWhere (fun other => decide (tag other = tag position)) Position.quantity s.holders.rows := by
    refine sumWhere_congr _ _ _ ?_
    intro other _
    by_cases same : tag other = tag position <;> simp [share, same]
  rw [picked]
  refine Table.sumWhere_of_unique _ (Table.get?_mem found) (by simp) ?_
  intro a b first second
  exact clash_of_tag ((of_decide_eq_true first).trans (of_decide_eq_true second).symm)

theorem Rebalanced.quantity {s s' : Reserved Position} {opened : Nat × Nat × Nat × Option Time → Prop}
    {change : (Nat × Nat × Nat × Option Time → ℚ) → ℚ} (moved : Rebalanced s s' opened change) {i : Nat}
    {position : Position} (found : s.holders.get? i = some position)
    (none : change (fun t => if t = tag position then 1 else 0) = 0) :
    ∃ position', s'.holders.get? i = some position' ∧ tag position' = tag position ∧
      position'.quantity = position.quantity := by
  obtain ⟨position', found', same⟩ := moved.tags _ _ found
  refine ⟨position', found', same, ?_⟩
  have after := weighted_tag found'
  rw [same, moved.total, none, add_zero, weighted_tag found] at after
  exact after.symm

theorem Rebalanced.origin_at {s s' : Reserved Position} {opened : Nat × Nat × Nat × Option Time → Prop}
    {change : (Nat × Nat × Nat × Option Time → ℚ) → ℚ} (moved : Rebalanced s s' opened change) {i : Nat}
    {position : Position} (found : s'.holders.get? i = some position) :
    (∃ before, s.holders.get? i = some before ∧ tag before = tag position) ∨
      (s.holders.size ≤ i ∧ opened (tag position)) := by
  -- a row after the transaction is the row that was there before, or one it opened
  by_cases inside : i < s.holders.size
  · have before : s.holders.get? i = some s.holders.rows[i] := List.getElem?_eq_getElem inside
    obtain ⟨after, found', same⟩ := moved.tags _ _ before
    rw [found] at found'
    cases found'
    exact .inl ⟨_, before, same.symm⟩
  · refine .inr ⟨not_lt.mp inside, (moved.origin position (Table.get?_mem found)).resolve_left ?_⟩
    rintro ⟨before, member, same⟩
    obtain ⟨j, earlier⟩ := Table.mem_iff_get?.mp member
    obtain ⟨after, found', same'⟩ := moved.tags _ _ earlier
    have different : i ≠ j := by
      rintro rfl
      exact inside (Table.get?_lt earlier)
    exact clash_of_tag (same'.trans same) (Table.clash_of_ne found' found different.symm)

theorem Shifted.rebalanced {s s' : Reserved Position} (shifted : Shifted s s' userId marketId outcomeId q) :
    ∃ settledAt, (settledAt = none ∨
        ∃ before ∈ s.holders.rows, tag before = (userId, marketId, outcomeId, settledAt)) ∧
      Rebalanced s s' (fun t => t = (userId, marketId, outcomeId, none))
        (fun w => w (userId, marketId, outcomeId, settledAt) * q) := by
  obtain ⟨settledAt, known, change⟩ := shifted.moved
  exact ⟨settledAt, known, shifted.tags, shifted.agrees, shifted.origin, change⟩

theorem rebalanced_of_bare {s s' : Reserved Position} (same : Reserved.bare s'.holders = Reserved.bare s.holders)
    (agrees : s.Agrees → s'.Agrees) : Rebalanced s s' (fun _ => False) (fun _ => 0) := by
  have carried : ∀ {a b : Table Position}, Reserved.bare b = Reserved.bare a → Table.Carries tag a b := by
    intro a b equal i position found
    obtain ⟨position', found', fields⟩ := Reserved.bare_get? equal found
    have columns : tag (Holder.setReserved 0 position') = tag (Holder.setReserved 0 position) := by rw [fields]
    exact ⟨position', found', columns⟩
  refine ⟨carried same, agrees, ?_, ?_⟩
  · intro position member
    obtain ⟨i, found⟩ := Table.mem_iff_get?.mp member
    obtain ⟨before, found', equal⟩ := carried same.symm i position found
    exact .inl ⟨before, Table.get?_mem found', equal⟩
  · intro w
    rw [add_zero]
    exact Reserved.bare_sum same _ _ fun _ => rfl

theorem rebalanced_rewritten {s s' : Reserved Position} {k : Nat} {old new : Reservation}
    (rewritten : Reserved.Rewritten s s' k old new) : Rebalanced s s' (fun _ => False) (fun _ => 0) :=
  rebalanced_of_bare rewritten.bare rewritten.agrees

theorem rebalanced_opened {s : Reserved Position} {positions : Table Position}
    (rows : positions = s.holders ∨
      positions.rows = s.holders.rows ++ [emptyPosition userId marketId outcomeId]) :
    Rebalanced s { s with holders := positions } (fun t => t = (userId, marketId, outcomeId, none))
      (fun _ => 0) := by
  rcases rows with rfl | appended
  · exact ⟨.refl _ _, id, fun position member => .inl ⟨position, member, rfl⟩, fun w => (add_zero _).symm⟩
  refine ⟨.of_append appended, fun agrees => agrees.insertHolder rfl rfl appended, ?_, ?_⟩
  · intro position member
    rw [appended] at member
    rcases List.mem_append.mp member with old | new
    · exact .inl ⟨position, old, rfl⟩
    · rw [List.mem_singleton.mp new]
      exact .inr rfl
  · intro w
    simp [weighted, appended, share, emptyPosition]

theorem rebalanced_refl (s : Reserved Position) : Rebalanced s s (fun _ => False) (fun _ => 0) :=
  rebalanced_of_bare rfl id

end Positions

section Orders

variable {c c' : Core} {orderId : Nat} {order : Order} {q : ℚ}

/-- An order's row after an execution of `q`. -/
def executed (order : Order) (q : ℚ) : Order :=
  { order with
    filledQuantity := order.filledQuantity + q
    remainingQuantity := order.remainingQuantity - q
    status := if order.remainingQuantity - q = 0 then .filled else .partiallyFilled }

theorem updateOrder_ok {u : Unit} (done : (updateOrder orderId order q).run c = .ok (u, c'))
    (found : c.exchange.orders.get? orderId = some order) :
    ∃ orders : Table Order, c' = ordersField.set orders c ∧
      orders.rows = c.exchange.orders.rows.set orderId (executed order q) := by
  unfold updateOrder at done
  rw [run_bind_of_ok (run_read _ _)] at done
  simp only [found, if_true, run_update_ok] at done
  obtain ⟨t, updated, rfl⟩ := done
  obtain ⟨-, -, -, rewritten⟩ := Table.update_ok updated
  exact ⟨t, rfl, rewritten⟩

structure Static (c c' : Core) : Prop where
  -- the tables that no execution touches
  users : c'.users = c.users
  riskLimits : c'.riskLimits = c.riskLimits
  categories : c'.exchange.categories = c.exchange.categories
  markets : c'.exchange.markets = c.exchange.markets
  outcomes : c'.exchange.outcomes = c.exchange.outcomes
  resolutions : c'.exchange.resolutions = c.exchange.resolutions
  settlements : c'.exchange.settlements = c.exchange.settlements
  positionSettlements : c'.exchange.positionSettlements = c.exchange.positionSettlements

theorem Static.trans {c c' c'' : Core} (first : Static c c') (second : Static c' c'') : Static c c'' where
  users := second.users.trans first.users
  riskLimits := second.riskLimits.trans first.riskLimits
  categories := second.categories.trans first.categories
  markets := second.markets.trans first.markets
  outcomes := second.outcomes.trans first.outcomes
  resolutions := second.resolutions.trans first.resolutions
  settlements := second.settlements.trans first.settlements
  positionSettlements := second.positionSettlements.trans first.positionSettlements

theorem Static.ledger (l : Ledger) (c : Core) : Static c (ledgerField.set l c) :=
  ⟨rfl, rfl, rfl, rfl, rfl, rfl, rfl, rfl⟩

theorem Static.funds (funds : Reserved LedgerAccount) (c : Core) : Static c (fundsField.set funds c) :=
  ⟨rfl, rfl, rfl, rfl, rfl, rfl, rfl, rfl⟩

theorem Static.shares (shares : Reserved Position) (c : Core) : Static c (sharesField.set shares c) :=
  ⟨rfl, rfl, rfl, rfl, rfl, rfl, rfl, rfl⟩

theorem Static.orders (orders : Table Order) (c : Core) : Static c (ordersField.set orders c) :=
  ⟨rfl, rfl, rfl, rfl, rfl, rfl, rfl, rfl⟩

theorem Static.fills (fills : Table Fill) (c : Core) : Static c (fillsField.set fills c) :=
  ⟨rfl, rfl, rfl, rfl, rfl, rfl, rfl, rfl⟩

theorem Static.mints (mints : Table CompleteSetMint) (c : Core) : Static c (mintsField.set mints c) :=
  ⟨rfl, rfl, rfl, rfl, rfl, rfl, rfl, rfl⟩

def finish (ends : Prop) [Decidable ends] (r : Reservation) : Reservation :=
  -- what an execution does to the reservation behind an order once it is drawn down
  if ends then Reserved.settle r else r

structure Drawn {H : Type} [Holder H] (s s' : Reserved H) (orderId : Nat) (amount : ℚ) (ends : Prop)
    [Decidable ends] : Prop where
  -- the reservation behind an order is drawn down and, when the order ends, given back
  enough : ∀ r, s.forRef .order orderId = [r] → r.status = .active ∧ amount ≤ r.unconsumed
  mine : ∀ r, s.forRef .order orderId = [r] →
    s'.forRef .order orderId = [finish ends (Reserved.draw amount r)]

variable {H : Type} [Holder H]

theorem enough_of_rewritten {s s' : Reserved H} {k : Nat} {r : Reservation} {amount : ℚ}
    (active : Reserved.activeFor .order orderId r = true) (enough : amount ≤ r.unconsumed)
    (consumed : Reserved.Rewritten s s' k r (Reserved.draw amount r)) (only : Reservation)
    (single : s.forRef .order orderId = [only]) : only.status = .active ∧ amount ≤ only.unconsumed := by
  obtain ⟨rfl, -⟩ := consumed.mine (Reserved.activeFor_isFor active) single
  exact ⟨(Reserved.activeFor_status active).2.2, enough⟩

theorem drawn_onRef {s s' : Reserved H} {k : Nat} {r : Reservation} {amount : ℚ}
    (active : Reserved.activeFor .order orderId r = true)
    (consumed : Reserved.Rewritten s s' k r (Reserved.draw amount r)) :
    Reserved.OnRef s s' .order orderId (Reserved.draw amount) :=
  consumed.onRef (Reserved.activeFor_isFor active) rfl

theorem releaseFilled_ok (field : Field Core (Reserved H)) [field.Lawful] {u : Unit}
    (chosen : releaseOrder orderId order.side = zoom field (Reserved.releaseByReference .order orderId))
    (done : (releaseReservationIfOrderNowFilled orderId order q).run c = .ok (u, c')) :
    ∃ s, c' = field.set s c ∧
      Reserved.OnRef (field.get c) s .order orderId (finish (order.remainingQuantity - q = 0)) ∧
      (s = field.get c ∨ ∃ k r, Reserved.activeFor .order orderId r = true ∧
        Reserved.Rewritten (field.get c) s k r { r with status := .released }) := by
  unfold releaseReservationIfOrderNowFilled at done
  by_cases finished : order.remainingQuantity - q = 0
  · simp only [finished, ne_eq, not_true_eq_false, if_false, chosen] at done
    obtain ⟨s, same, onRef, how⟩ := releaseIn_ok field done
    refine ⟨s, same, ?_, how⟩
    rw [show finish (order.remainingQuantity - q = 0) = Reserved.settle from funext fun r => if_pos finished]
    exact onRef
  · simp only [ne_eq, finished, not_false_eq_true, if_true, run_pure] at done
    cases done
    refine ⟨field.get c, (Field.Lawful.set_get c).symm, ?_, .inl rfl⟩
    rw [show finish (order.remainingQuantity - q = 0) = id from funext fun r => if_neg finished]
    exact .same rfl

structure LedgerKept (l l' : Ledger) : Prop where
  -- the ledger side of drawing down and of releasing: no balance moves
  moved : Ledger.Moved tradingKinds l l'
  balance : ∀ ref asset, Ledger.balanceOf l' ref asset = Ledger.balanceOf l ref asset
  transactions : l'.transactions = l.transactions

theorem LedgerKept.refl (l : Ledger) : LedgerKept l l := ⟨.refl _ _, fun _ _ => rfl, rfl⟩

theorem LedgerKept.rewritten {l : Ledger} {funds : Reserved LedgerAccount} {k : Nat} {old new : Reservation}
    (active : Reserved.activeFor .order orderId old = true)
    (rewritten : Reserved.Rewritten l.funds funds k old new) : LedgerKept l { l with funds := funds } := by
  refine ⟨.rewritten rewritten ?_, Ledger.balanceOf_rewritten rewritten, rfl⟩
  rw [(Reserved.activeFor_status active).1]
  rfl

theorem LedgerKept.released {l : Ledger} {funds : Reserved LedgerAccount}
    (how : funds = l.funds ∨ ∃ k r, Reserved.activeFor .order orderId r = true ∧
      Reserved.Rewritten l.funds funds k r { r with status := .released }) :
    LedgerKept l { l with funds := funds } := by
  rcases how with rfl | ⟨k, r, active, rewritten⟩
  · exact .refl l
  · exact .rewritten active rewritten

theorem rebalanced_released {s s' : Reserved Position}
    (how : s' = s ∨ ∃ k r, Reserved.activeFor .order orderId r = true ∧
      Reserved.Rewritten s s' k r { r with status := .released }) :
    Rebalanced s s' (fun _ => False) (fun _ => 0) := by
  rcases how with rfl | ⟨k, r, -, rewritten⟩
  · exact rebalanced_refl _
  · exact rebalanced_rewritten rewritten

theorem settlementAsset_ok {found : Nat × Asset} (done : settlementAsset.run c = .ok (found, c')) :
    c' = c ∧ c.ledger.assets.find? Asset.isSettlementCurrency = some found := by
  simp only [settlementAsset, run_findOrThrow_ok, assetsField] at done
  exact ⟨done.2.symm, done.1⟩

theorem postInSettlementCurrency_ok {input : String → Ledger.PostTransactionInput}
    {result : Ledger.PostTransactionResult}
    (done : (postInSettlementCurrency input).run c = .ok (result, c')) :
    ∃ assetId asset l, c.ledger.assets.find? Asset.isSettlementCurrency = some (assetId, asset) ∧
      (Ledger.postTransaction (input asset.symbol)).run c.ledger = .ok (result, l) ∧
      c' = ledgerField.set l c := by
  simp only [postInSettlementCurrency, run_bind_ok] at done
  obtain ⟨⟨assetId, asset⟩, _, looked, rest⟩ := done
  obtain ⟨rfl, named⟩ := settlementAsset_ok looked
  rw [run_zoom_ok] at rest
  obtain ⟨l, posted, rfl⟩ := rest
  exact ⟨assetId, asset, l, named, posted, rfl⟩

theorem named_settlement {t : Table Asset} {assetId : Nat} {asset : Asset}
    (found : t.find? Asset.isSettlementCurrency = some (assetId, asset)) :
    t.find? (fun other => decide (other.symbol = asset.symbol)) = some (assetId, asset) := by
  refine Table.find?_of_unique (Table.find?_some found).1 (by simp) ?_
  intro a b first second none
  exact uniqueOn_eq_none.mp none ((of_decide_eq_true first).trans (of_decide_eq_true second).symm)

theorem balanceOf_settled {l l' : Ledger} {input : Ledger.PostTransactionInput} {assetId : Nat} {asset : Asset}
    {result : Ledger.PostTransactionResult}
    (found : l.assets.find? Asset.isSettlementCurrency = some (assetId, asset))
    (symbol : input.assetSymbol = asset.symbol)
    (posted : (Ledger.postTransaction input).run l = .ok (result, l')) :
    (l' = l ∧ ∃ t ∈ l.transactions.rows, t.idempotencyKey = input.idempotencyKey) ∨
      ∀ ref other, Ledger.balanceOf l' ref other = Ledger.balanceOf l ref other +
        Ledger.posted (Ledger.only ref other) assetId input.postings := by
  -- the balances after a posting in the settlement currency, unless its key was taken
  rcases Ledger.postTransaction_ok posted with ⟨-, rfl, t, position, key⟩ | ⟨-, -, assetId', effect⟩
  · exact .inl ⟨rfl, t, Table.get?_mem position, key⟩
  · right
    obtain ⟨row, named⟩ := effect.asset
    rw [symbol, named_settlement found] at named
    cases named
    exact fun ref other => effect.held _

theorem reservations_posted {l l' : Ledger} {input : Ledger.PostTransactionInput}
    {result : Ledger.PostTransactionResult} (posted : (Ledger.postTransaction input).run l = .ok (result, l')) :
    l'.funds.reservations = l.funds.reservations := by
  rcases Ledger.postTransaction_ok posted with ⟨-, rfl, -⟩ | ⟨-, -, assetId, effect⟩
  · rfl
  · exact effect.reservations

theorem transactions_posted {l l' : Ledger} {input : Ledger.PostTransactionInput}
    {result : Ledger.PostTransactionResult} (posted : (Ledger.postTransaction input).run l = .ok (result, l'))
    (t : LedgerTransaction) (member : t ∈ l'.transactions.rows) : t ∈ l.transactions.rows ∨
      (t.referenceType = input.referenceType ∧ t.referenceId = input.referenceId) := by
  rcases Ledger.postTransaction_ok posted with ⟨-, rfl, -⟩ | ⟨-, -, assetId, effect⟩
  · exact .inl member
  · rw [effect.transactions] at member
    rcases List.mem_append.mp member with old | new
    · exact .inl old
    · rw [List.mem_singleton.mp new]
      exact .inr ⟨rfl, rfl⟩

theorem balanceOf_posted {l l' : Ledger} {input : Ledger.PostTransactionInput}
    {result : Ledger.PostTransactionResult} {ref : AccountRef} {asset : Nat}
    (posted : (Ledger.postTransaction input).run l = .ok (result, l'))
    (outside : ∀ assetId, Ledger.posted (Ledger.only ref asset) assetId input.postings = 0) :
    Ledger.balanceOf l' ref asset = Ledger.balanceOf l ref asset := by
  rcases Ledger.postTransaction_ok posted with ⟨-, rfl, -⟩ | ⟨-, -, assetId, effect⟩
  · rfl
  · rw [Ledger.balanceOf, effect.held, outside, add_zero, Ledger.balanceOf]

end Orders

end ExecutionCoordinator

end VerdictVaut
