import VerdictVaut.Markets.Solvency

set_option autoImplicit false

namespace VerdictVaut

open Relational Relational.Tx VerdictVaut.Core ExecutionCoordinator ResolutionService SettlementService

variable {c c' : Core}

section Resolving

theorem rateOf_eq (x : Exchange) {settlement : Settlement} (member : settlement ∈ x.settlements.rows) :
    rateOf x settlement.marketId settlement.outcomeId = settlement.payoutPerShare := by
  refine Table.sumWhere_of_unique _ member (by simp) ?_
  intro a b first second none
  simp only [Bool.and_eq_true, decide_eq_true_eq] at first second
  exact uniqueOn_eq_none.mp none ⟨first.1.trans second.1.symm, first.2.trans second.2.symm⟩

theorem rateOf_append (x x' : Exchange) {marketId winner m : Nat} {outcomeIds : List Nat} (o : Nat)
    (rows : x'.settlements.rows = x.settlements.rows ++ outcomeIds.map (rateRow marketId winner))
    (other : m ≠ marketId) : rateOf x' m o = rateOf x m o := by
  have none : sumWhere (fun settlement : Settlement =>
      decide (settlement.marketId = m) && decide (settlement.outcomeId = o)) Settlement.payoutPerShare
      (outcomeIds.map (rateRow marketId winner)) = 0 := by
    refine sumWhere_eq_zero _ _ _ ?_
    intro settlement member
    obtain ⟨outcomeId, -, rfl⟩ := List.mem_map.mp member
    simp [share, rateRow, Ne.symm other]
  rw [rateOf, rows, sumWhere_append, none, add_zero, rateOf]

theorem Solvent.resolved (solvent : Solvent c) {marketId winner : Nat} (done : Resolved c c' marketId winner) :
    Solvent c' := by
  obtain ⟨⟨market, closed, found, markets, resolutions, settlements, rfl, rows, rated⟩, inside⟩ := done
  have bounded := Table.get?_lt found
  have size := Table.size_of_set rows
  have undecided : ¬ ∃ market', c.exchange.markets.get? marketId = some market' ∧ market'.isDecided = true := by
    rintro ⟨market', found', decided⟩
    rw [found] at found'
    cases found'
    simp [Market.isDecided, closed] at decided
  have later : ∀ m market', markets.get? m = some market' → m ≠ marketId → c.exchange.markets.get? m = some market' := by
    intro m market' found' other
    rwa [Table.get?_of_set rows bounded, if_neg other] at found'
  have kept : ∀ m, (∃ market', c.exchange.markets.get? m = some market' ∧ market'.isDecided = true) →
      ∃ market', markets.get? m = some market' ∧ market'.isDecided = true := by
    rintro m ⟨market', found', decided⟩
    have other : m ≠ marketId := by
      rintro rfl
      exact undecided ⟨market', found', decided⟩
    exact ⟨market', by rw [Table.get?_of_set rows bounded, if_neg other, found'], decided⟩
  let after : Exchange :=
    (settlementsField.set settlements (resolutionsField.set resolutions (marketsField.set markets c))).exchange
  have rates : ∀ o, rateOf after marketId o = if o = winner then 1 else 0 := by
    intro o
    by_cases listed : o ∈ outcomesOf c.exchange.outcomes marketId
    · have member : rateRow marketId winner o ∈ settlements.rows := by
        rw [rated]
        exact List.mem_append_right _ (List.mem_map_of_mem listed)
      exact rateOf_eq after member
    · have other : o ≠ winner := by
        rintro rfl
        exact listed inside
      rw [if_neg other]
      refine sumWhere_eq_zero _ _ _ ?_
      intro settlement member
      change settlement ∈ settlements.rows at member
      rw [rated] at member
      rcases List.mem_append.mp member with old | new
      · have elsewhere : settlement.marketId ≠ marketId := by
          rintro same
          exact undecided (same ▸ solvent.rated settlement old)
        simp [share, elsewhere]
      · obtain ⟨o', listed', rfl⟩ := List.mem_map.mp new
        have elsewhere : o' ≠ o := by
          rintro rfl
          exact listed listed'
        simp [share, rateRow, elsewhere]
  have paid : ∀ m, paidOut c.exchange m = weighted (byOutcome (ofSettled after m)) c.exchange.positions := by
    intro m
    rw [solvent.paid m]
    refine sumWhere_congr _ _ _ ?_
    intro position member
    simp only [share, if_true, byOutcome_tag, ofSettled]
    by_cases counted : position.marketId = m ∧ position.settledAt.isSome = true
    · have other : m ≠ marketId := by
        rintro rfl
        exact undecided (counted.1 ▸ solvent.settledIn position member counted.2)
      rw [if_pos counted, if_pos counted, rateOf_append c.exchange after _ rated other]
    · rw [if_neg counted, if_neg counted]
  exact
    { outcomesIn := by
        change ∀ outcome ∈ c.exchange.outcomes.rows, outcome.marketId < markets.size
        rw [size]
        exact solvent.outcomesIn
      positionsIn := by
        change ∀ position ∈ c.exchange.positions.rows, position.marketId < markets.size
        rw [size]
        exact solvent.positionsIn
      decided := by
        intro m market' found' decided
        by_cases this : m = marketId
        · subst this
          exact ⟨winner, inside, rates⟩
        · obtain ⟨winner', inside', rates'⟩ := solvent.decided m market' (later m market' found' this) decided
          exact ⟨winner', inside', fun o => (rateOf_append c.exchange after o rated this).trans (rates' o)⟩
      rated := by
        intro settlement member
        change settlement ∈ settlements.rows at member
        rw [rated] at member
        rcases List.mem_append.mp member with old | new
        · exact kept _ (solvent.rated settlement old)
        · obtain ⟨o, -, rfl⟩ := List.mem_map.mp new
          exact ⟨{ market with status := .resolving },
            (Table.get?_of_set rows bounded marketId).trans (if_pos rfl), by simp [Market.isDecided]⟩
      settledIn := fun position member settled => kept _ (solvent.settledIn position member settled)
      settledBy := solvent.settledBy
      settlements := solvent.settlements
      payouts := solvent.payouts
      mintsIn := by
        change ∀ mint ∈ c.exchange.mints.rows, mint.marketId < markets.size
        rw [size]
        exact solvent.mintsIn
      mintings := solvent.mintings
      sets := solvent.sets
      collateral := solvent.collateral
      paid := paid }

theorem Solvent.dated (solvent : Solvent c) (resolutions : Table MarketResolution) :
    Solvent (resolutionsField.set resolutions c) where
  outcomesIn := solvent.outcomesIn
  positionsIn := solvent.positionsIn
  decided := solvent.decided
  rated := solvent.rated
  settledIn := solvent.settledIn
  settledBy := solvent.settledBy
  settlements := solvent.settlements
  payouts := solvent.payouts
  mintsIn := solvent.mintsIn
  mintings := solvent.mintings
  sets := solvent.sets
  collateral := solvent.collateral
  paid := solvent.paid

end Resolving

section Settling

theorem weighted_settled {t t' : Table Position} {i : Nat} {position : Position} {now : Time}
    (found : t.get? i = some position) (unsettled : position.settledAt = none)
    (rewritten : t'.rows = t.rows.set i { position with settledAt := some now }) (f : Nat → Nat → Bool → ℚ) :
    weighted (byOutcome f) t' = weighted (byOutcome f) t +
      (f position.marketId position.outcomeId true - f position.marketId position.outcomeId false) *
        position.quantity := by
  unfold weighted
  rw [rewritten, sumWhere_set _ _ _ _ _ _ found]
  simp only [share, if_true, byOutcome_tag, unsettled, Option.isSome_none, Option.isSome_some]
  ring

theorem settled_get? {positionId : Nat} {position : Position} {positions : Table Position} {now : Time}
    (found : c.exchange.positions.get? positionId = some position)
    (rewritten : positions.rows = c.exchange.positions.rows.set positionId { position with settledAt := some now })
    (i : Nat) : positions.get? i =
      if i = positionId then some { position with settledAt := some now } else c.exchange.positions.get? i :=
  Table.get?_of_set rewritten (Table.get?_lt found) i

section Paying

variable {positionId : Nat} {position : Position} {rate : Settlement} {now : Time} {settlements : Table PositionSettlement}
  {positions : Table Position} {l : Ledger} {transactionId : Option Nat}

/-- An unsettled position has not been paid: the ledger's payouts are those of settled positions. -/
theorem Solvent.unpaid (solvent : Solvent c) (sound : c.ledger.Sound)
    (found : c.exchange.positions.get? positionId = some position) (unsettled : position.settledAt = none) :
    ¬ ∃ t ∈ c.ledger.transactions.rows, t.idempotencyKey = ⟨"settlement-payout", [positionId]⟩ := by
  rintro ⟨t, member, key⟩
  have reference : Ledger.postKey t.referenceType t.referenceId = Ledger.postKey .position positionId :=
    (sound.transactionKeys t member).symm.trans key
  obtain ⟨kind, rfl⟩ := Ledger.postKey_injective reference
  obtain ⟨position', found', settled⟩ := solvent.payouts t member kind
  rw [found] at found'
  cases found'
  simp [unsettled] at settled

theorem paidOut_settled (rows : settlements.rows = c.exchange.positionSettlements.rows ++ [settlementRow positionId position
      rate.payoutPerShare (computeSettlementPayout position.quantity rate.payoutPerShare) transactionId]) (m : Nat) :
    sumWhere (fun settlement => decide (settlement.marketId = m)) PositionSettlement.payoutAmount settlements.rows =
      paidOut c.exchange m + if position.marketId = m then position.quantity * rate.payoutPerShare else 0 := by
  simp [rows, paidOut, share, settlementRow, computeSettlementPayout]

theorem settledBy_settled (solvent : Solvent c) (found : c.exchange.positions.get? positionId = some position)
    (rows : settlements.rows = c.exchange.positionSettlements.rows ++ [settlementRow positionId position
      rate.payoutPerShare (computeSettlementPayout position.quantity rate.payoutPerShare) transactionId])
    (rewritten : positions.rows = c.exchange.positions.rows.set positionId { position with settledAt := some now })
    {i : Nat} {other : Position} (found' : positions.get? i = some other) :
    other.settledAt.isSome = true ↔ ∃ settlement ∈ settlements.rows, settlement.positionId = i := by
  rw [settled_get? found rewritten] at found'
  by_cases this : i = positionId
  · subst this
    rw [if_pos rfl] at found'
    cases found'
    simp [rows, settlementRow]
  · rw [if_neg this] at found'
    rw [solvent.settledBy i other found']
    simp [rows, settlementRow, Ne.symm this]

/-- The market's account loses the payout, unless there is none. -/
theorem collateral_settled (solvent : Solvent c) (untaken : ¬ ∃ t ∈ c.ledger.transactions.rows,
      t.idempotencyKey = ⟨"settlement-payout", [positionId]⟩)
    (balances : PaidOut c.ledger l positionId position (computeSettlementPayout position.quantity rate.payoutPerShare)
      transactionId) {assetId : Nat} {asset : Asset}
    (named : c.ledger.assets.find? Asset.isSettlementCurrency = some (assetId, asset)) (m : Nat) :
    Ledger.balanceOf l (.market m) assetId = minted c.exchange m -
      (paidOut c.exchange m + if position.marketId = m then position.quantity * rate.payoutPerShare else 0) := by
  have before := solvent.collateral assetId asset named m
  cases balances with
  | nothing zero same =>
    rw [computeSettlementPayout] at zero
    rw [same]
    simp [before, zero]
  | replayed known => exact absurd known untaken
  | posted named' nonzero effect =>
    rw [named] at named'
    cases named'
    have change : Ledger.balanceOf l (.market m) assetId = _ := effect.held _
    rw [change]
    change Ledger.balanceOf c.ledger (.market m) assetId + Ledger.posted _ _ (payoutPostings _ _) = _
    rw [payoutPostings_market, before]
    by_cases mine : position.marketId = m
    · simp only [mine, and_self, if_true, computeSettlementPayout]
      ring
    · simp [mine]

/-- What is paid out grows as what the settled positions are worth does. -/
theorem paid_settled (solvent : Solvent c) (found : c.exchange.positions.get? positionId = some position)
    (unsettled : position.settledAt = none)
    (rewritten : positions.rows = c.exchange.positions.rows.set positionId { position with settledAt := some now })
    (perShare : rateOf c.exchange position.marketId position.outcomeId = rate.payoutPerShare) (m : Nat) :
    paidOut c.exchange m + (if position.marketId = m then position.quantity * rate.payoutPerShare else 0) =
      weighted (byOutcome (ofSettled c.exchange m)) positions := by
  refine Eq.trans ?_ (weighted_settled found unsettled rewritten (ofSettled c.exchange m)).symm
  rw [solvent.paid m]
  by_cases mine : position.marketId = m
  · subst mine
    have jump : ofSettled c.exchange position.marketId position.marketId position.outcomeId true -
        ofSettled c.exchange position.marketId position.marketId position.outcomeId false = rate.payoutPerShare := by
      simp [ofSettled, perShare]
    rw [jump, if_pos rfl, mul_comm]
  · simp [ofSettled, mine]

end Paying

theorem Solvent.settled (solvent : Solvent c) (sound : c.ledger.Sound) {positionId : Nat} {position : Position}
    {rate : Settlement} {now : Time} (done : Settled c c' positionId position rate now) : Solvent c' := by
  obtain ⟨l, settlements, positions, transactionId, rfl, rows, rewritten, moved, -, transactions, balances⟩ := done.result
  have found := done.found
  have at_ := settled_get? found rewritten
  have size : positions.size = c.exchange.positions.size := Table.size_of_set rewritten
  have perShare : rateOf c.exchange position.marketId position.outcomeId = rate.payoutPerShare := by
    rw [← done.rated.1, ← done.rated.2, rateOf_eq _ done.member]
  have final : ∃ market, c.exchange.markets.get? position.marketId = some market ∧ market.isDecided = true := by
    rw [← done.rated.1]
    exact solvent.rated rate done.member
  have member_cases : ∀ other ∈ positions.rows, other ∈ c.exchange.positions.rows ∨
      other = { position with settledAt := some now } := by
    intro other member
    rw [rewritten] at member
    exact List.mem_or_eq_of_mem_set member
  exact
    { outcomesIn := solvent.outcomesIn
      positionsIn := by
        intro other member
        rcases member_cases other member with old | rfl
        · exact solvent.positionsIn other old
        · exact solvent.positionsIn position (Table.get?_mem found)
      decided := solvent.decided
      rated := solvent.rated
      settledIn := by
        intro other member settled
        rcases member_cases other member with old | rfl
        · exact solvent.settledIn other old settled
        · exact final
      settledBy := fun i other found' => settledBy_settled solvent found rows rewritten found'
      settlements := by
        intro settlement member
        change settlement ∈ settlements.rows at member
        change settlement.positionId < positions.size ∧ _
        rw [size]
        rw [rows] at member
        rcases List.mem_append.mp member with old | new
        · exact solvent.settlements settlement old
        · rw [List.mem_singleton.mp new]
          exact ⟨Table.get?_lt found, rfl⟩
      payouts := by
        intro t member kind
        change ∃ other, positions.get? t.referenceId = some other ∧ _
        rw [at_]
        rcases transactions t member with old | ⟨-, mine⟩
        · obtain ⟨other, found', settled⟩ := solvent.payouts t old kind
          by_cases this : t.referenceId = positionId
          · simp [this]
          · exact ⟨other, by rw [if_neg this, found'], settled⟩
        · simp [mine]
      mintsIn := solvent.mintsIn
      mintings := by
        intro t member kind
        rcases transactions t member with old | ⟨other, -⟩
        · exact solvent.mintings t old kind
        · rw [other] at kind
          cases kind
      sets := by
        intro m a b binary
        have same : ∀ o, openInterest (positionsField.set positions (positionSettlementsField.set settlements
            (ledgerField.set l c))).exchange m o = openInterest c.exchange m o := by
          intro o
          rw [openInterest_eq, openInterest_eq]
          refine (weighted_settled found done.unsettled rewritten _).trans ?_
          simp [ofOutcome]
        rw [same, same]
        exact solvent.sets m a b binary
      collateral := by
        intro assetId asset named m
        change l.assets.find? _ = _ at named
        rw [moved.assets] at named
        refine (collateral_settled solvent (solvent.unpaid sound found done.unsettled) balances named m).trans ?_
        rw [← paidOut_settled rows]
        rfl
      paid := fun m => (paidOut_settled rows m).trans (paid_settled solvent found done.unsettled rewritten perShare m) }

end Settling

section Coverage

def outstanding (x : Exchange) (marketId outcomeId : Nat) : ℚ :=
  -- the shares of an outcome that are still to be settled
  sumWhere (fun position => decide (position.marketId = marketId) && decide (position.outcomeId = outcomeId) &&
    position.settledAt.isNone) Position.quantity x.positions.rows

theorem Position.quantity_nonneg {t : Table Position} {position : Position} (member : position ∈ t.rows) :
    0 ≤ position.quantity := by
  have valid := t.checked position member
  simp only [RowSpec.check, Position.check, Bool.and_eq_true, decide_eq_true_eq] at valid
  exact valid.1

def ofUnsettled (marketId outcomeId : Nat) (m o : Nat) (settled : Bool) : ℚ :=
  if m = marketId ∧ o = outcomeId ∧ settled = false then 1 else 0

theorem outstanding_eq (x : Exchange) (marketId outcomeId : Nat) :
    outstanding x marketId outcomeId = weighted (byOutcome (ofUnsettled marketId outcomeId)) x.positions := by
  refine sumWhere_congr _ _ _ ?_
  intro position _
  simp only [share, if_true, byOutcome_tag, ofUnsettled, Bool.and_eq_true, decide_eq_true_eq,
    Option.isNone_iff_eq_none, Option.isSome_eq_false_iff, and_assoc]
  split <;> simp

theorem weighted_add (f g : Nat × Nat × Nat × Option Time → ℚ) (t : Table Position) :
    weighted (fun tags => f tags + g tags) t = weighted f t + weighted g t := by
  unfold weighted
  rw [← sumWhere_add]
  simp only [add_mul]

theorem Solvent.left (solvent : Solvent c) {m a b : Nat} {market : Market}
    (binary : outcomesOf c.exchange.outcomes m = [a, b]) (found : c.exchange.markets.get? m = some market)
    (decided : market.isDecided = true) :
    ∃ winner, (∀ o, rateOf c.exchange m o = if o = winner then 1 else 0) ∧
      minted c.exchange m - paidOut c.exchange m = outstanding c.exchange m winner := by
  -- what a decided binary market has left is what its winners are still to be paid
  obtain ⟨winner, member, rates⟩ := solvent.decided m market found decided
  refine ⟨winner, rates, ?_⟩
  have whole : openInterest c.exchange m winner = minted c.exchange m := by
    rw [binary] at member
    obtain ⟨first, second⟩ := solvent.sets m a b binary
    simp only [List.mem_cons, List.not_mem_nil, or_false] at member
    rcases member with rfl | rfl
    · exact first
    · exact second
  have split : openInterest c.exchange m winner = outstanding c.exchange m winner + paidOut c.exchange m := by
    have weights : byOutcome (ofOutcome m winner) =
        fun tags => byOutcome (ofUnsettled m winner) tags + byOutcome (ofSettled c.exchange m) tags := by
      funext tags
      simp only [byOutcome, ofOutcome, ofUnsettled, ofSettled, rates]
      by_cases here : tags.2.1 = m <;> by_cases this : tags.2.2.1 = winner <;>
        cases tags.2.2.2.isSome <;> simp [here, this]
    rw [openInterest_eq, outstanding_eq, solvent.paid m, weights, weighted_add]
  linarith

theorem Solvent.covers (solvent : Solvent c) {positionId a b : Nat} {position : Position} {rate : Settlement}
    (found : c.exchange.positions.get? positionId = some position) (unsettled : position.settledAt = none)
    (member : rate ∈ c.exchange.settlements.rows)
    (rated : rate.marketId = position.marketId ∧ rate.outcomeId = position.outcomeId)
    (binary : outcomesOf c.exchange.outcomes position.marketId = [a, b]) :
    position.quantity * rate.payoutPerShare ≤
      minted c.exchange position.marketId - paidOut c.exchange position.marketId := by
  -- a binary market's account covers the payout of every position that is not settled yet
  obtain ⟨market, listed, decided⟩ := solvent.rated rate member
  rw [rated.1] at listed
  obtain ⟨winner, rates, left⟩ := solvent.left binary listed decided
  have perShare : rate.payoutPerShare = if position.outcomeId = winner then 1 else 0 := by
    rw [← rates, ← rated.1, ← rated.2, rateOf_eq _ member]
  have nonneg : ∀ other ∈ c.exchange.positions.rows, 0 ≤ share (fun position =>
      decide (position.marketId = rate.marketId) && decide (position.outcomeId = winner) &&
        position.settledAt.isNone) Position.quantity other := by
    intro other inside
    have := Position.quantity_nonneg inside
    unfold share
    split <;> simp [this]
  rw [left, perShare]
  by_cases wins : position.outcomeId = winner
  · have counted := share_le_sumWhere _ _ _ nonneg position (Table.get?_mem found)
    rw [rated.1] at counted
    rw [if_pos wins, mul_one, outstanding]
    simpa [share, wins, unsettled] using counted
  · rw [rated.1] at nonneg
    rw [if_neg wins, mul_zero]
    exact sumWhere_nonneg _ _ _ nonneg

theorem postPayout_error (solvent : Solvent c) (sound : c.ledger.Sound) {positionId : Nat} {position : Position}
    {payout : ℚ} (nonneg : 0 ≤ payout)
    (enough : payout ≤ minted c.exchange position.marketId - paidOut c.exchange position.marketId) {e : Fault}
    (failed : (postPayout positionId position payout).run c = .error e) : e = .db .recordNotFound := by
  unfold postPayout at failed
  rw [run_ite] at failed
  split at failed
  · cases failed
  · simp only [run_bind_error, run_pure, reduceCtorEq, and_false, exists_false, or_false, postInSettlementCurrency,
      settlementAsset, run_findOrThrow_error, run_findOrThrow_ok, run_zoom_error] at failed
    rcases failed with ⟨-, missing⟩ | ⟨⟨assetId, asset⟩, _, ⟨named, rfl⟩, refused⟩
    · exact missing.symm
    · have balance := solvent.collateral assetId asset named position.marketId
      have reserved : Ledger.reservedOf c.ledger (.market position.marketId) assetId = 0 :=
        sound.reservedOf_eq_zero (by simp) assetId
      have owned : Ledger.reservedOf c.ledger (.user position.userId) assetId ≤
        Ledger.balanceOf c.ledger (.user position.userId) assetId := Ledger.reservedOf_le_balanceOf rfl assetId
      obtain ⟨result, l, posted⟩ := Ledger.postTransaction_succeeds
        (payoutInput positionId position payout asset.symbol) (named_settlement named)
        (by simp [payoutInput, payoutPostings]) (by simp [payoutInput, payoutPostings])
        (by simp [payoutInput, payoutPostings])
        (by
          intro posting member
          simp only [payoutInput, payoutPostings, List.mem_cons, List.not_mem_nil, or_false] at member
          rcases member with rfl | rfl
          · exact .inr (by linarith)
          · exact .inr (by rw [reserved, balance]; linarith))
      have absurd := posted.symm.trans refused
      cases absurd

theorem settleOnePosition_error (solvent : Solvent c) (sound : c.ledger.Sound) {positionId a b : Nat}
    {position : Position} (found : c.exchange.positions.get? positionId = some position)
    (binary : outcomesOf c.exchange.outcomes position.marketId = [a, b]) {now : Time} {e : Fault}
    (failed : (settleOnePosition now positionId).run c = .error e) :
    ∀ accountId current requested, e ≠ .insufficientBalance accountId current requested := by
  intro accountId current requested
  rintro rfl
  have looked : (getOrThrow positionsField positionId : Tx Core Fault Position).run c = .ok (position, c) :=
    run_getOrThrow_ok.mpr ⟨found, rfl⟩
  rw [settleOnePosition, run_bind_of_ok looked, run_ite] at failed
  split at failed
  · cases failed
  next unsettled =>
    simp only [run_bind_error, run_throwIf_error, run_throwIf_ok, run_findOrThrow_error, run_findOrThrow_ok,
      reduceCtorEq, and_false, false_or] at failed
    obtain ⟨_, _, ⟨-, rfl⟩, ⟨k, rate⟩, _, ⟨rated, rfl⟩, refused | ⟨_, _, -, duplicate | ⟨⟨i, existed⟩, _, -, rest⟩⟩⟩ :=
      failed
    · obtain ⟨member, holds⟩ := Table.find?_some rated
      simp only [Bool.and_eq_true, decide_eq_true_eq] at holds
      have covered := solvent.covers found (by simpa using unsettled) (Table.get?_mem member) holds binary
      have rateCheck := Table.check_of_get? member
      have nonneg : 0 ≤ computeSettlementPayout position.quantity rate.payoutPerShare :=
        mul_nonneg (Position.quantity_nonneg (Table.get?_mem found)) (of_decide_eq_true rateCheck)
      cases postPayout_error solvent sound nonneg covered refused
    · rcases run_createOnce_error duplicate with stale | ⟨d, db⟩
      · cases stale
      · cases db
    · cases existed with
      | true => cases rest
      | false =>
        simp only [Bool.false_eq_true, if_false, run_bind_error, run_getOrThrow_error, run_getOrThrow_ok,
          run_throwIf_error, run_throwIf_ok, run_update_error, run_pure, reduceCtorEq, and_false, or_false,
          exists_false] at rest

theorem Solvent.nothing_left (solvent : Solvent c) {m a b : Nat} {market : Market}
    (binary : outcomesOf c.exchange.outcomes m = [a, b]) (found : c.exchange.markets.get? m = some market)
    (decided : market.isDecided = true)
    (settled : ∀ i position, c.exchange.positions.get? i = some position → position.marketId = m →
      ∃ settlement ∈ c.exchange.positionSettlements.rows, settlement.positionId = i) :
    minted c.exchange m - paidOut c.exchange m = 0 := by
  -- once every position of a decided binary market is settled, nothing is left
  obtain ⟨winner, -, left⟩ := solvent.left binary found decided
  rw [left]
  refine sumWhere_eq_zero _ _ _ ?_
  intro position member
  obtain ⟨i, found'⟩ := Table.mem_iff_get?.mp member
  by_cases mine : position.marketId = m
  · have done := (solvent.settledBy i position found').mpr (settled i position found' mine)
    have not : position.settledAt.isNone = false := by simpa using done
    simp [share, not]
  · simp [share, mine]

end Coverage

end VerdictVaut
