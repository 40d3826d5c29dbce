import VerdictVaut.System.Lifecycle

set_option autoImplicit false

namespace VerdictVaut

open Relational Relational.Tx VerdictVaut.Core ExecutionCoordinator ResolutionService SettlementService

structure PaidFor (c : Core) (settlement : PositionSettlement) (position : Position) : Prop where
  -- what a settlement says of its position, and the one posting behind it
  columns : settlement.userId = position.userId ∧ settlement.marketId = position.marketId ∧
    settlement.outcomeId = position.outcomeId ∧ settlement.quantity = position.quantity
  rate : settlement.payoutPerShare = rateOf c.exchange position.marketId position.outcomeId
  posting : (settlement.payoutAmount = 0 ∧ c.ledger.transactionsFor .position settlement.positionId = []) ∨
    ∃ k t, settlement.ledgerTransactionId = some k ∧
      c.ledger.transactionsFor .position settlement.positionId = [t] ∧ t.type = .settlement ∧
      c.ledger.PostedAs k t (payoutPostings position settlement.payoutAmount)

structure Payouts (c : Core) : Prop where
  settled : ∀ settlement ∈ c.exchange.positionSettlements.rows, ∃ position,
    c.exchange.positions.get? settlement.positionId = some position ∧ position.settledAt.isSome = true ∧
      PaidFor c settlement position
  unsettled : ∀ p, (∀ position, c.exchange.positions.get? p = some position → position.settledAt = none) →
    c.ledger.transactionsFor .position p = []

variable {c c' : Core}

section Steps

theorem payoutPostings_tag {a b : Position} (same : tag a = tag b) (amount : ℚ) :
    payoutPostings a amount = payoutPostings b amount := by
  simp only [tag, Prod.mk.injEq] at same
  simp [payoutPostings, same.1, same.2.1]

theorem PaidFor.carried {kinds : ReferenceType → Bool} {settlement : PositionSettlement} {position position' : Position}
    (paid : PaidFor c settlement position) (same : tag position' = tag position)
    (quantity : position'.quantity = position.quantity)
    (rates : rateOf c'.exchange position.marketId position.outcomeId =
      rateOf c.exchange position.marketId position.outcomeId)
    (moved : Ledger.Moved kinds c.ledger c'.ledger)
    (transactions : c'.ledger.transactionsFor .position settlement.positionId =
      c.ledger.transactionsFor .position settlement.positionId) : PaidFor c' settlement position' := by
  have postings := payoutPostings_tag same settlement.payoutAmount
  simp only [tag, Prod.mk.injEq] at same
  obtain ⟨user, market, outcome, held⟩ := paid.columns
  refine ⟨⟨user.trans same.1.symm, market.trans same.2.1.symm, outcome.trans same.2.2.1.symm, held.trans quantity.symm⟩,
    ?_, ?_⟩
  · rw [same.2.1, same.2.2.1, rates]
    exact paid.rate
  · rw [transactions, postings]
    rcases paid.posting with nothing | ⟨k, t, linked, one, type, posted⟩
    · exact .inl nothing
    · exact .inr ⟨k, t, linked, one, type, posted.moved moved⟩

theorem Payouts.kept {kinds : ReferenceType → Bool} (payouts : Payouts c) (solvent : Solvent c)
    (settlements : c'.exchange.positionSettlements = c.exchange.positionSettlements)
    (rates : ∀ m o, Decided c m → rateOf c'.exchange m o = rateOf c.exchange m o)
    (positions : ∀ i position, c.exchange.positions.get? i = some position → Decided c position.marketId →
      ∃ position', c'.exchange.positions.get? i = some position' ∧ tag position' = tag position ∧
        position'.quantity = position.quantity)
    (moved : Ledger.Moved kinds c.ledger c'.ledger)
    (transactions : ∀ id, c'.ledger.transactionsFor .position id = c.ledger.transactionsFor .position id) :
    Payouts c' := by
  -- steps that settle nothing, and leave the positions of decided markets as they are
  constructor
  · intro settlement member
    rw [settlements] at member
    obtain ⟨position, found, settled, paid⟩ := payouts.settled settlement member
    have decided := solvent.settledIn position (Table.get?_mem found) settled
    obtain ⟨position', found', same, quantity⟩ := positions _ position found decided
    refine ⟨position', found', ?_, paid.carried same quantity (rates _ _ decided) moved (transactions _)⟩
    simp only [tag, Prod.mk.injEq] at same
    rw [same.2.2.2]
    exact settled
  · intro p unsettled
    rw [transactions]
    refine payouts.unsettled p ?_
    intro position found
    by_contra settled
    have decided := solvent.settledIn position (Table.get?_mem found) (Option.isSome_iff_ne_none.mpr settled)
    obtain ⟨position', found', same, -⟩ := positions p position found decided
    simp only [tag, Prod.mk.injEq] at same
    exact settled (same.2.2.2.symm.trans (unsettled position' found'))

theorem rateOf_same {x x' : Exchange} (same : x'.settlements = x.settlements) (m o : Nat) :
    rateOf x' m o = rateOf x m o := by
  rw [rateOf, same, rateOf]

theorem Payouts.traded {opened : Nat × Nat × Nat × Option Time → Prop}
    {change : (Nat × Nat × Nat × Option Time → ℚ) → ℚ} (payouts : Payouts c) (solvent : Solvent c) (static : Static c c')
    (moved : Rebalanced c.exchange.shares c'.exchange.shares opened change)
    (none : ∀ position : Position, Decided c position.marketId →
      change (fun t => if t = tag position then 1 else 0) = 0)
    (ledger : Ledger.Moved tradingKinds c.ledger c'.ledger)
    (transactions : ∀ t ∈ c'.ledger.transactions.rows, t ∈ c.ledger.transactions.rows ∨ t.referenceType ≠ .position) :
    Payouts c' :=
  payouts.kept solvent static.positionSettlements (fun m o _ => rateOf_same static.settlements m o)
    (fun _ position found decided => moved.quantity found (none position decided)) ledger
    fun id => ledger.transactionsFor_of id transactions

theorem Payouts.markets (payouts : Payouts c) (solvent : Solvent c) (ledger : c'.ledger = c.ledger)
    (settlements : c'.exchange.positionSettlements = c.exchange.positionSettlements)
    (shares : c'.exchange.shares = c.exchange.shares)
    (rates : ∀ m o, Decided c m → rateOf c'.exchange m o = rateOf c.exchange m o) : Payouts c' := by
  refine @Payouts.kept _ _ tradingKinds payouts solvent settlements rates ?_ ?_ ?_
  · intro i position found _
    rw [Exchange.positions, shares]
    exact ⟨position, found, rfl, rfl⟩
  · rw [ledger]
    exact .refl _ _
  · intro id
    rw [ledger]

theorem Payouts.settles (payouts : Payouts c) (ordered : Ordered c) {positionId : Nat} {position : Position}
    {rate : Settlement} {now : Time} (done : Settled c c' positionId position rate now) : Payouts c' := by
  obtain ⟨l, settlements, positions, transactionId, rfl, rows, rewritten, moved, -, transactions, paid⟩ := done.result
  have at_ := settled_get? done.found rewritten
  have unpaid := payouts.unsettled positionId (by
    intro other found
    rw [done.found] at found
    cases found
    exact done.unsettled)
  have elsewhere : ∀ id, id ≠ positionId → l.transactionsFor .position id = c.ledger.transactionsFor .position id := by
    intro id other
    cases paid with
    | nothing zero same => rw [same]
    | replayed known =>
      obtain ⟨t, member, key⟩ := known
      have inside := @Ledger.mem_transactionsFor _ ordered.sound _ member .position positionId key
      simp [unpaid] at inside
    | posted named nonzero effect =>
      rw [Ledger.transactionsFor_posted effect, if_neg fun mine => other mine.2.symm, List.append_nil]
  constructor
  · intro settlement member
    change settlement ∈ settlements.rows at member
    change ∃ other, positions.get? _ = some other ∧ _
    rw [rows] at member
    rcases List.mem_append.mp member with old | new
    · obtain ⟨other, found, settled, before⟩ := payouts.settled settlement old
      have apart : settlement.positionId ≠ positionId := by
        intro same
        rw [same, done.found] at found
        cases found
        simp [done.unsettled] at settled
      refine ⟨other, by rw [at_, if_neg apart, found], settled, ?_⟩
      exact before.carried rfl rfl rfl moved (elsewhere _ apart)
    · obtain rfl := List.mem_singleton.mp new
      refine ⟨{ position with settledAt := some now }, by rw [at_]; exact if_pos rfl, rfl, ⟨rfl, rfl, rfl, rfl⟩, ?_, ?_⟩
      · change rate.payoutPerShare = rateOf c.exchange position.marketId position.outcomeId
        rw [← done.rated.1, ← done.rated.2, rateOf_eq _ done.member]
      · cases paid with
        | nothing zero same =>
          subst same
          exact .inl ⟨zero, unpaid⟩
        | replayed known =>
          obtain ⟨t, member, key⟩ := known
          have inside := @Ledger.mem_transactionsFor _ ordered.sound _ member .position positionId key
          simp [unpaid] at inside
        | posted named nonzero effect =>
          refine .inr ⟨_, _, rfl, ?_, rfl, effect.postedAs ordered.sound.books⟩
          refine (Ledger.transactionsFor_posted effect _ _).trans ?_
          change c.ledger.transactionsFor .position positionId ++ _ = _
          rw [unpaid]
          exact if_pos ⟨rfl, rfl⟩
  · intro p unsettled
    have apart : p ≠ positionId := by
      rintro rfl
      have stamped := unsettled { position with settledAt := some now } (by
        change positions.get? p = _
        rw [at_]
        exact if_pos rfl)
      cases stamped
    change l.transactionsFor .position p = []
    rw [elsewhere p apart]
    refine payouts.unsettled p fun other found => unsettled other ?_
    change positions.get? p = _
    rw [at_, if_neg apart, found]

theorem Payouts.step (payouts : Payouts c) (ordered : Ordered c) (effect : TradingEffect c c') : Payouts c' := by
  -- whatever the step, each settlement has its one posting, and no other position has any
  have solvent := ordered.solvent
  cases effect with
  | unchanged same =>
    rw [same]
    exact payouts
  | filled marketFound buyFound sellFound fits fresh done =>
    obtain ⟨settledB, settledS, -, -, moved⟩ := done.positions
    refine payouts.traded solvent done.static moved ?_ done.ledger fun t member => (done.transactions t member).imp id ?_
    · intro position decided
      have apart := decided.apart marketFound fresh.market
      simp [tag, apart]
    · rintro ⟨type, -⟩
      simp [type]
  | minted marketFound foundA foundB fits binary fresh done =>
    obtain ⟨settledA, settledB, -, -, moved⟩ := done.positions
    refine payouts.traded solvent done.static moved ?_ done.ledger fun t member => (done.transactions t member).imp id ?_
    · intro position decided
      have apart := decided.apart marketFound fresh.market
      simp [tag, apart]
    · rintro ⟨type, -⟩
      simp [type]
  | placed fits listed done =>
    refine payouts.traded solvent done.static done.positions (fun _ _ => rfl) done.ledger ?_
    rw [done.transactions]
    exact fun t member => .inl member
  | ended done =>
    refine payouts.traded solvent done.static done.positions (fun _ _ => rfl) done.ledger ?_
    rw [done.transactions]
    exact fun t member => .inl member
  | restated plain done =>
    obtain ⟨markets, rfl, -⟩ := done.result
    exact payouts.markets solvent rfl rfl rfl fun _ _ _ => rfl
  | closed running restated ended quiet =>
    have closed := (TradingEffect.closed running restated ended quiet).advances ordered
    obtain ⟨static, -, -, transactions, positions⟩ := ended.frame
    obtain ⟨markets, rfl, -⟩ := restated.result
    refine payouts.kept solvent static.positionSettlements (fun m o _ => rateOf_same static.settlements m o)
      (fun i position found _ => positions.quantity found rfl) closed.moved fun id => ?_
    exact Ledger.transactionsFor_same transactions _ _
  | created done =>
    obtain ⟨markets, outcomes, market, new, rfl, -⟩ := done.result
    exact payouts.markets solvent rfl rfl rfl fun _ _ _ => rfl
  | @resolved marketId winner done =>
    obtain ⟨⟨market, closed, found, markets, resolutions, settlements, rfl, -, rows⟩, -⟩ := done
    refine payouts.markets solvent rfl rfl rfl fun m o decided => rateOf_append _ _ o rows ?_
    rintro rfl
    obtain ⟨market', found', final⟩ := decided
    rw [found] at found'
    cases found'
    simp [Market.isDecided, closed] at final
  | settled done => exact payouts.settles ordered done
  | finalized finished marked same =>
    subst same
    rcases marked with ⟨rfl, -⟩ | ⟨market, -, restated⟩
    · exact payouts.markets solvent rfl rfl rfl fun _ _ _ => rfl
    · obtain ⟨markets, rfl, -⟩ := restated.result
      exact payouts.markets solvent rfl rfl rfl fun _ _ _ => rfl

end Steps

end VerdictVaut
