import VerdictVaut.Markets.Lifecycle
import VerdictVaut.Trading.Placing

set_option autoImplicit false

namespace VerdictVaut

open Relational Relational.Tx VerdictVaut.Core ExecutionCoordinator

variable {c c' : Core} {marketId : Nat} {now : Time}

namespace MarketsService

structure Restated (c c' : Core) (marketId : Nat) (market : Market) (status : MarketStatus) : Prop where
  -- a market's status is rewritten, and nothing else
  found : c.exchange.markets.get? marketId = some market
  result : ∃ markets : Table Market, c' = marketsField.set markets c ∧
    markets.rows = c.exchange.markets.rows.set marketId { market with status := status }

theorem transitionStatus_ok {allowedFrom : List MarketStatus} {status : MarketStatus} {u : Unit}
    (done : (transitionStatus marketId allowedFrom status).run c = .ok (u, c')) :
    ∃ market, market.status ∈ allowedFrom ∧ Restated c c' marketId market status := by
  simp only [transitionStatus, run_bind_ok, run_read, run_orThrow_ok, run_throwIf_ok, run_update_ok,
    Except.ok.injEq, Prod.mk.injEq, not_not] at done
  obtain ⟨_, _, ⟨rfl, rfl⟩, market, _, ⟨found, rfl⟩, _, _, ⟨allowed, rfl⟩, markets, updated, rfl⟩ := done
  obtain ⟨-, -, -, rows⟩ := Table.update_ok updated
  exact ⟨market, allowed, found, markets, rfl, rows⟩

theorem close_ok {count : Nat} (done : (close marketId).run c = .ok (count, c')) :
    ∃ market c₁, market.status ∈ [MarketStatus.opened, .paused] ∧ Restated c c₁ marketId market .closed ∧
      OrdersService.EndedAll c₁ c' ∧ ∀ o order, c'.exchange.orders.get? o = some order →
        order.marketId = marketId → order.isExecutable = false := by
  simp only [close, run_bind_ok] at done
  obtain ⟨_, c₁, closed, expired⟩ := done
  obtain ⟨market, allowed, restated⟩ := transitionStatus_ok closed
  exact ⟨market, c₁, allowed, restated, OrdersService.expireRestingOrdersForMarket_ok expired⟩

theorem createOutcomes_ok (keys : List String) {u : Unit}
    (done : (createOutcomes marketId keys).run c = .ok (u, c')) :
    ∃ (outcomes : Table MarketOutcome) (new : List MarketOutcome), c' = outcomesField.set outcomes c ∧
      outcomes.rows = c.exchange.outcomes.rows ++ new ∧ ∀ outcome ∈ new, outcome.marketId = marketId := by
  induction keys generalizing c with
  | nil =>
    cases done
    exact ⟨c'.exchange.outcomes, [], rfl, by simp, by simp⟩
  | cons key rest ih =>
    simp only [createOutcomes, run_bind_ok, run_create_ok] at done
    obtain ⟨_, _, ⟨t, inserted, -, rfl⟩, others⟩ := done
    obtain ⟨-, -, rows⟩ := Table.insert_ok inserted
    obtain ⟨outcomes, new, rfl, rows', mine⟩ := ih others
    refine ⟨outcomes, { marketId := marketId, key := key } :: new, rfl, ?_, ?_⟩
    · rw [rows']
      change t.rows ++ new = _
      rw [rows]
      simp [outcomesField]
    · intro outcome member
      rcases List.mem_cons.mp member with rfl | inside
      · rfl
      · exact mine outcome inside

structure Created (c c' : Core) : Prop where
  -- a new market, in draft, with its outcomes
  result : ∃ (markets : Table Market) (outcomes : Table MarketOutcome) (market : Market)
    (new : List MarketOutcome), c' = outcomesField.set outcomes (marketsField.set markets c) ∧
    markets.rows = c.exchange.markets.rows ++ [market] ∧ market.status = .draft ∧
    outcomes.rows = c.exchange.outcomes.rows ++ new ∧
    ∀ outcome ∈ new, outcome.marketId = c.exchange.markets.size

theorem create_ok {dto : CreateMarketDto} (done : (create dto).run c = .ok (marketId, c')) : Created c c' := by
  simp only [create, run_bind_ok, run_throwIf_ok, run_read, run_orThrow_ok, run_create_ok, run_pure,
    Except.ok.injEq, Prod.mk.injEq] at done
  obtain ⟨_, _, ⟨-, rfl⟩, _, _, ⟨rfl, rfl⟩, category, _, ⟨-, rfl⟩, _, _, ⟨-, rfl⟩, _, _,
    ⟨markets, inserted, rfl, rfl⟩, _, _, listed, -, rfl⟩ := done
  obtain ⟨-, -, rows⟩ := Table.insert_ok inserted
  obtain ⟨outcomes, new, rfl, rows', mine⟩ := createOutcomes_ok _ listed
  exact ⟨markets, outcomes, _, new, rfl, rows, rfl, rows', mine⟩

end MarketsService

namespace ResolutionService

def outcomesOf (outcomes : Table MarketOutcome) (marketId : Nat) : List Nat :=
  (outcomes.findMany fun outcome => decide (outcome.marketId = marketId)).map Prod.fst

def rateRow (marketId winningOutcomeId outcomeId : Nat) : Settlement where
  marketId := marketId
  outcomeId := outcomeId
  payoutPerShare := if outcomeId = winningOutcomeId then 1 else 0

structure Resolved (c c' : Core) (marketId winningOutcomeId : Nat) : Prop where
  -- a closed market with no resting order gets its decision and its payout rates
  market : ∃ market, market.status = .closed ∧ c.exchange.markets.get? marketId = some market ∧
    ∃ (markets : Table Market) (resolutions : Table MarketResolution) (settlements : Table Settlement),
      c' = settlementsField.set settlements (resolutionsField.set resolutions (marketsField.set markets c)) ∧
      markets.rows = c.exchange.markets.rows.set marketId { market with status := .resolving } ∧
      settlements.rows = c.exchange.settlements.rows ++
        (outcomesOf c.exchange.outcomes marketId).map (rateRow marketId winningOutcomeId)
  winner : winningOutcomeId ∈ outcomesOf c.exchange.outcomes marketId

theorem createSettlements_ok {winningOutcomeId : Nat} (outcomeIds : List Nat) {u : Unit}
    (done : (createSettlements marketId winningOutcomeId outcomeIds).run c = .ok (u, c')) :
    ∃ settlements : Table Settlement, c' = settlementsField.set settlements c ∧
      settlements.rows = c.exchange.settlements.rows ++ outcomeIds.map (rateRow marketId winningOutcomeId) := by
  induction outcomeIds generalizing c with
  | nil =>
    cases done
    exact ⟨c'.exchange.settlements, rfl, by simp⟩
  | cons outcomeId rest ih =>
    simp only [createSettlements, run_bind_ok, run_create_ok] at done
    obtain ⟨_, _, ⟨t, inserted, -, rfl⟩, others⟩ := done
    obtain ⟨-, -, rows⟩ := Table.insert_ok inserted
    obtain ⟨settlements, rfl, rows'⟩ := ih others
    refine ⟨settlements, rfl, ?_⟩
    rw [rows']
    change t.rows ++ _ = _
    rw [rows]
    simp [settlementsField, rateRow]

theorem assertAuthorized_ok {userId : Nat} {u : Unit} (done : (assertAuthorized userId).run c = .ok (u, c')) :
    c' = c := by
  simp only [assertAuthorized, run_bind_ok, run_read, run_orThrow_ok, run_throwIf_ok, Except.ok.injEq,
    Prod.mk.injEq] at done
  obtain ⟨_, _, ⟨-, rfl⟩, _, _, ⟨-, rfl⟩, -, rfl⟩ := done
  rfl

theorem resolve_ok {resolverId winningOutcomeId : Nat} {u : Unit}
    (done : (resolve now marketId resolverId winningOutcomeId).run c = .ok (u, c')) :
    Resolved c c' marketId winningOutcomeId := by
  simp only [resolve, run_bind_ok, run_read, run_orThrow_ok, run_throwIf_ok, run_update_ok, run_create_ok,
    Except.ok.injEq, Prod.mk.injEq, not_not] at done
  obtain ⟨_, _, ⟨rfl, rfl⟩, market, _, ⟨found, rfl⟩, _, _, ⟨rfl, rfl⟩, _, _, ⟨winner, rfl⟩, _, _, ⟨rfl, rfl⟩, _, _,
    ⟨-, rfl⟩, _, _, ⟨closed, rfl⟩, _, _, ⟨markets, updated, rfl⟩, _, _, ⟨resolutions, -, -, rfl⟩, rated⟩ := done
  obtain ⟨-, -, -, rows⟩ := Table.update_ok updated
  obtain ⟨settlements, rfl, rows'⟩ := createSettlements_ok _ rated
  exact ⟨⟨market, closed, found, markets, resolutions, settlements, rfl, rows, rows'⟩, winner⟩

end ResolutionService

namespace SettlementService

inductive PaidOut (l l' : Ledger) (positionId : Nat) (position : Position) (payout : ℚ) : Option Nat → Prop
  -- a payout of nothing posts nothing; any other is posted once
  | nothing (zero : payout = 0) (same : l' = l) : PaidOut l l' positionId position payout none
  | replayed {transactionId : Option Nat}
      (known : ∃ t ∈ l.transactions.rows, t.idempotencyKey = ⟨"settlement-payout", [positionId]⟩) :
      PaidOut l l' positionId position payout transactionId
  | posted {assetId : Nat} {asset : Asset}
      (named : l.assets.find? Asset.isSettlementCurrency = some (assetId, asset)) (nonzero : payout ≠ 0)
      (effect : Ledger.Posted l l' (payoutInput positionId position payout asset.symbol) assetId) :
      PaidOut l l' positionId position payout (some l.transactions.size)

structure Settled (c c' : Core) (positionId : Nat) (position : Position) (rate : Settlement) (now : Time) : Prop where
  -- one position is paid out at its outcome's rate
  found : c.exchange.positions.get? positionId = some position
  unsettled : position.settledAt = none
  member : rate ∈ c.exchange.settlements.rows
  rated : rate.marketId = position.marketId ∧ rate.outcomeId = position.outcomeId
  result : ∃ (l : Ledger) (settlements : Table PositionSettlement) (positions : Table Position)
    (ledgerTransactionId : Option Nat),
    c' = positionsField.set positions (positionSettlementsField.set settlements (ledgerField.set l c)) ∧
    settlements.rows = c.exchange.positionSettlements.rows ++ [settlementRow positionId position
      rate.payoutPerShare (computeSettlementPayout position.quantity rate.payoutPerShare) ledgerTransactionId] ∧
    positions.rows = c.exchange.positions.rows.set positionId { position with settledAt := some now } ∧
    Ledger.Moved tradingKinds c.ledger l ∧ l.funds.reservations = c.ledger.funds.reservations ∧
    (∀ t ∈ l.transactions.rows, t ∈ c.ledger.transactions.rows ∨
      (t.referenceType = .position ∧ t.referenceId = positionId)) ∧
    PaidOut c.ledger l positionId position (computeSettlementPayout position.quantity rate.payoutPerShare)
      ledgerTransactionId

theorem payoutPostings_market (position : Position) (payout : ℚ) (m assetId other : Nat) :
    Ledger.posted (Ledger.only (.market m) other) assetId (payoutPostings position payout) =
      -(if position.marketId = m ∧ assetId = other then payout else 0) := by
  by_cases mine : position.marketId = m ∧ assetId = other
  · simp [Ledger.posted, payoutPostings, share, Ledger.only, mine]
  · simp [Ledger.posted, payoutPostings, share, Ledger.only, mine]

theorem postPayout_ok {positionId : Nat} {position : Position} {payout : ℚ} {transactionId : Option Nat}
    (done : (postPayout positionId position payout).run c = .ok (transactionId, c')) :
    ∃ l, c' = ledgerField.set l c ∧ Ledger.Moved tradingKinds c.ledger l ∧
      l.funds.reservations = c.ledger.funds.reservations ∧
      (∀ t ∈ l.transactions.rows, t ∈ c.ledger.transactions.rows ∨
        (t.referenceType = .position ∧ t.referenceId = positionId)) ∧
      PaidOut c.ledger l positionId position payout transactionId := by
  unfold postPayout at done
  by_cases zero : payout = 0
  · rw [if_pos zero] at done
    cases done
    exact ⟨c.ledger, rfl, .refl _ _, rfl, fun t member => .inl member, .nothing zero rfl⟩
  · simp only [zero, if_false, run_bind_ok, run_pure] at done
    obtain ⟨result, _, posted, same⟩ := done
    cases same
    obtain ⟨assetId, asset, l, named, entered, rfl⟩ := postInSettlementCurrency_ok posted
    refine ⟨l, rfl, .postTransaction entered rfl rfl, reservations_posted entered, transactions_posted entered, ?_⟩
    rcases Ledger.postTransaction_ok entered with ⟨-, rfl, t, position, key⟩ | ⟨-, id, assetId', effect⟩
    · exact .replayed ⟨t, Table.get?_mem position, key⟩
    · obtain ⟨row, byName⟩ := effect.asset
      have same := byName.symm.trans (named_settlement named)
      cases same
      rw [id]
      exact .posted named zero effect

theorem settleOnePosition_ok {positionId : Nat} {settled : Bool}
    (done : (settleOnePosition now positionId).run c = .ok (settled, c')) :
    (c' = c ∧ ∃ position, c.exchange.positions.get? positionId = some position ∧ position.settledAt.isSome = true) ∨
      (∃ position, c.exchange.positions.get? positionId = some position ∧ position.settledAt = none ∧
        ∃ existing ∈ c.exchange.positionSettlements.rows, existing.idempotencyKey = ⟨"settlement", [positionId]⟩) ∨
      ∃ position rate, Settled c c' positionId position rate now := by
  simp only [settleOnePosition, run_bind_ok, run_getOrThrow_ok] at done
  obtain ⟨position, _, ⟨found, rfl⟩, rest⟩ := done
  rw [run_ite] at rest
  split at rest
  next settled =>
    cases rest
    exact .inl ⟨rfl, position, found, settled⟩
  next unsettled =>
    simp only [run_bind_ok, run_throwIf_ok, run_findOrThrow_ok] at rest
    obtain ⟨_, _, ⟨-, rfl⟩, ⟨k, rate⟩, _, ⟨rated, rfl⟩, transactionId, _, paid, ⟨i, existed⟩, _, created, rest⟩ := rest
    obtain ⟨position', holds⟩ := Table.find?_some rated
    obtain ⟨l, rfl, moved, reservations, transactions, balances⟩ := postPayout_ok paid
    rcases run_createOnce_ok created with ⟨rfl, -, settlements, inserted, rfl⟩ | ⟨rfl, rfl, existing, known, key⟩
    · obtain ⟨-, -, rows⟩ := Table.insert_ok inserted
      simp only [Bool.false_eq_true, if_false, run_bind_ok, run_getOrThrow_ok, run_throwIf_ok, run_update_ok,
        run_pure] at rest
      obtain ⟨current, _, ⟨again, rfl⟩, _, _, ⟨-, rfl⟩, _, _, ⟨positions, updated, rfl⟩, same⟩ := rest
      cases same
      have same : current = position := by
        have now' := again.symm.trans found
        exact Option.some.inj now'
      subst same
      obtain ⟨-, -, -, rewritten⟩ := Table.update_ok updated
      simp only [Bool.and_eq_true, decide_eq_true_eq] at holds
      exact .inr (.inr ⟨current, rate, found, by simpa using unsettled, Table.get?_mem position', holds, l,
        settlements, positions, transactionId, rfl, rows, rewritten, moved, reservations, transactions, balances⟩)
    · exact .inr (.inl ⟨position, found, by simpa using unsettled, existing, Table.get?_mem known,
        of_decide_eq_true key⟩)

theorem markResolved_ok {u : Unit} (done : (markResolved marketId).run c = .ok (u, c')) :
    (c' = c ∧ ∀ market, c.exchange.markets.get? marketId = some market → market.status ≠ .resolving) ∨
      ∃ market, market.status = .resolving ∧ MarketsService.Restated c c' marketId market .resolved := by
  unfold markResolved at done
  rw [run_bind_of_ok (run_read _ _)] at done
  split at done
  next market found =>
    rw [run_ite] at done
    split at done
    next resolving =>
      rw [run_update_ok] at done
      obtain ⟨markets, updated, rfl⟩ := done
      obtain ⟨-, -, -, rows⟩ := Table.update_ok updated
      exact .inr ⟨market, resolving, found, markets, rfl, rows⟩
    next other =>
      cases done
      refine .inl ⟨rfl, fun market' found' => ?_⟩
      rw [found] at found'
      cases found'
      exact other
  next absent =>
    cases done
    refine .inl ⟨rfl, fun market' found' => ?_⟩
    rw [absent] at found'
    cases found'

theorem markSettled_ok {u : Unit} (done : (markSettled now marketId).run c = .ok (u, c')) :
    ∃ resolutions : Table MarketResolution, c' = resolutionsField.set resolutions c := by
  unfold markSettled at done
  rw [run_bind_of_ok run_find?] at done
  split at done
  next =>
    rw [run_update_ok] at done
    obtain ⟨resolutions, -, rfl⟩ := done
    exact ⟨resolutions, rfl⟩
  next =>
    cases done
    exact ⟨c.exchange.resolutions, rfl⟩

theorem finalizeResolved_ok {resolved : Bool}
    (done : (finalizeResolved now marketId).run c = .ok (resolved, c')) :
    ∃ (c₁ : Core) (resolutions : Table MarketResolution), c' = resolutionsField.set resolutions c₁ ∧
      ((c₁ = c ∧ ∀ market, c.exchange.markets.get? marketId = some market → market.status ≠ .resolving) ∨
        ∃ market, market.status = .resolving ∧ MarketsService.Restated c c₁ marketId market .resolved) := by
  -- the market of a finished settlement run is marked resolved, and its decision dated
  simp only [finalizeResolved, run_bind_ok, run_getOrThrow_ok, run_pure] at done
  obtain ⟨_, c₁, marked, _, c₂, dated, _, _, ⟨-, rfl⟩, same⟩ := done
  cases same
  obtain ⟨resolutions, rfl⟩ := markSettled_ok dated
  exact ⟨c₁, resolutions, rfl, markResolved_ok marked⟩

end SettlementService

end VerdictVaut
