import VerdictVaut.System.Accounting

set_option autoImplicit false

namespace VerdictVaut

open Relational Relational.Tx VerdictVaut.Core ExecutionCoordinator ResolutionService SettlementService

variable {config : WalletConfig} {s : Platform}

section Over

structure AtRest (c : Core) (m : Nat) : Prop where
  -- nothing of the market is resting, and nothing is held back for it
  orders : ∀ o order, c.exchange.orders.get? o = some order → order.marketId = m →
    order.status ≠ .opened ∧ order.status ≠ .partiallyFilled
  funds : ∀ o order, c.exchange.orders.get? o = some order → order.marketId = m →
    ∀ r ∈ c.ledger.funds.forRef .order o, r.status ≠ .active
  shares : ∀ o order, c.exchange.orders.get? o = some order → order.marketId = m →
    ∀ r ∈ c.exchange.shares.forRef .order o, r.status ≠ .active
  positions : ∀ p position, c.exchange.positions.get? p = some position → position.marketId = m →
    position.reservedQuantity = 0

theorem Settleable.atRest {c : Core} (settleable : Settleable c) {m : Nat} {market : Market}
    (listed : c.exchange.markets.get? m = some market) (isOver : market.isOver) : AtRest c m := by
  have lifecycle := settleable.lifecycle
  have backing := settleable.ordered.backing
  constructor
  · intro o order found mine
    have idle := lifecycle.at_rest listed isOver found mine
    simpa [Order.isExecutable] using idle
  · intro o order found mine r member
    have inactive := (backing.released found (lifecycle.at_rest listed isOver found mine)).1 r member
    simpa [Reservation.isActive] using inactive
  · intro o order found mine r member
    have inactive := (backing.released found (lifecycle.at_rest listed isOver found mine)).2 r member
    simpa [Reservation.isActive] using inactive
  · exact fun p position found mine => backing.unreserved lifecycle listed isOver found mine

theorem Platform.step_exchange (integrity : Platform.Integrity s) (action : Action) :
    TradingEffect s.db.core (s.step config action).db.core ∨
      (s.step config action).db.core.exchange = s.db.core.exchange := by
  cases action with
  | trading action => exact .inl (tradingStep_effect integrity.settleable.ordered integrity.fits action)
  | wallet action =>
    obtain ⟨l, same⟩ := (@Platform.walletStep_effect config s integrity action).frame.core
    right
    change (s.walletStep config action).db.core.exchange = _
    rw [same]

theorem Platform.Reached.quiet (reached : Platform.Reached config s) {m : Nat} {market : Market}
    (listed : s.db.core.exchange.markets.get? m = some market) (isOver : market.isOver) (actions : List Action) :
    Traded s.db.core (actions.foldl (Platform.step config) s).db.core m := by
  suffices later : ∀ (s₁ : Platform) (market₁ : Market), Platform.Reached config s₁ → Traded s.db.core s₁.db.core m →
      s₁.db.core.exchange.markets.get? m = some market₁ → market₁.isOver →
      Traded s.db.core (actions.foldl (Platform.step config) s₁).db.core m from
    later s market reached (.refl _ _) listed isOver
  induction actions with
  | nil => exact fun _ _ _ traded _ _ => traded
  | cons action rest ih =>
    intro s₁ market₁ reached₁ traded listed₁ isOver₁
    rcases @Platform.step_exchange config s₁ reached₁.integrity action with effect | same
    · obtain ⟨market₂, listed₂, isOver₂⟩ := effect.stays_over listed₁ isOver₁
      exact ih _ market₂ (reached₁.tail action) (traded.kept effect listed₁ isOver₁) listed₂ isOver₂
    · refine ih _ market₁ (reached₁.tail action) ⟨?_, ?_, ?_⟩ (by rw [same]; exact listed₁) isOver₁
      · rw [same]
        exact traded.orders
      · rw [same]
        exact traded.fills
      · rw [same]
        exact traded.mints

theorem Platform.Reached.lifecycle (reached : Platform.Reached config s) :
    (∀ m market, s.db.core.exchange.markets.get? m = some market → market.isOver → AtRest s.db.core m ∧
      ∀ actions : List Action, Traded s.db.core (actions.foldl (Platform.step config) s).db.core m) ∧
    (∀ m, (s.db.core.exchange.resolutions.rows.filter fun r => decide (r.marketId = m)).length ≤ 1) ∧
    ∀ m market, s.db.core.exchange.markets.get? m = some market → market.status = .resolved →
      ∀ p position, s.db.core.exchange.positions.get? p = some position → position.marketId = m →
        (s.db.core.exchange.positionSettlements.rows.filter fun settlement =>
          decide (settlement.positionId = p)).length = 1 := by
  have settleable := reached.integrity.settleable
  refine ⟨?_, ?_, ?_⟩
  · exact fun m market listed isOver => ⟨settleable.atRest listed isOver, reached.quiet listed isOver⟩
  · intro m
    refine Table.filter_length_of_unique _ fun a b first second => ?_
    simp [RowSpec.clash, of_decide_eq_true first, of_decide_eq_true second]
  · intro m market listed resolved p position found mine
    have settled := settleable.lifecycle.finished m market listed resolved position (Table.get?_mem found) mine
    obtain ⟨settlement, member, ofPosition⟩ := (settleable.ordered.solvent.settledBy p position found).mp settled
    rw [Table.filter_of_unique member (decide_eq_true ofPosition)]
    · rfl
    · intro a b first second
      simp [RowSpec.clash, of_decide_eq_true first, of_decide_eq_true second]

def decidedMarket : List Action :=
  -- the minted market, closed and decided for its first outcome
  mintedMarket ++ [.trading (.closeMarket 0), .trading (.resolve 5 0 0 0)]

end Over

section Settlement

structure PaidOnce (c : Core) (p : Nat) (position : Position) : Prop where
  -- a position is paid at most once, and exactly what it is worth
  settlements : (c.exchange.positionSettlements.rows.filter fun settlement =>
    decide (settlement.positionId = p)).length ≤ 1
  postings : (c.ledger.transactionsFor .position p).length ≤ 1
  amount : ∀ settlement ∈ c.exchange.positionSettlements.rows, settlement.positionId = p →
    settlement.payoutAmount = position.quantity * rateOf c.exchange position.marketId position.outcomeId ∧
    ((settlement.payoutAmount = 0 ∧ c.ledger.transactionsFor .position p = []) ∨
      ∃ k t, c.ledger.transactionsFor .position p = [t] ∧ t.type = .settlement ∧
        c.ledger.PostedAs k t (payoutPostings position settlement.payoutAmount))

theorem Settleable.paidOnce {c : Core} (settleable : Settleable c) {p : Nat} {position : Position}
    (found : c.exchange.positions.get? p = some position) : PaidOnce c p position := by
  have known : ∀ settlement ∈ c.exchange.positionSettlements.rows, settlement.positionId = p →
      PaidFor c settlement position := by
    intro settlement member ofPosition
    obtain ⟨position', found', -, paid⟩ := settleable.payouts.settled settlement member
    rw [ofPosition, found] at found'
    cases found'
    exact paid
  refine ⟨?_, ?_, ?_⟩
  · refine Table.filter_length_of_unique _ fun a b first second => ?_
    simp [RowSpec.clash, of_decide_eq_true first, of_decide_eq_true second]
  · by_cases open_ : position.settledAt = none
    · have none := settleable.payouts.unsettled p (by
        intro other found'
        rw [found] at found'
        cases found'
        exact open_)
      simp [none]
    · obtain ⟨settlement, member, ofPosition⟩ := (settleable.ordered.solvent.settledBy p position found).mp
        (Option.isSome_iff_ne_none.mpr open_)
      have posting := (known settlement member ofPosition).posting
      rw [ofPosition] at posting
      rcases posting with ⟨-, none⟩ | ⟨k, t, -, one, -⟩
      · simp [none]
      · simp [one]
  · intro settlement member ofPosition
    have paid := known settlement member ofPosition
    have valid := c.exchange.positionSettlements.checked settlement member
    simp only [RowSpec.check, Bool.and_eq_true, decide_eq_true_eq] at valid
    have posting := paid.posting
    rw [ofPosition] at posting
    refine ⟨by rw [valid.1.2, paid.columns.2.2.2, paid.rate], posting.imp_right ?_⟩
    rintro ⟨k, t, -, one, type, posted⟩
    exact ⟨k, t, one, type, posted⟩

def SameSettlements (c c' : Core) (m : Nat) : Prop :=
  -- the settlements of a market, up to the numbers of their ledger transactions
  ∀ terms, (∃ a ∈ c.exchange.positionSettlements.rows, a.marketId = m ∧ settlementTerms a = terms) ↔
    ∃ b ∈ c'.exchange.positionSettlements.rows, b.marketId = m ∧ settlementTerms b = terms

theorem Pays.settlementsWithin {m : Nat} {c₀ c₁ c₂ : Core} (first : Pays m c₀ c₁) (second : Pays m c₀ c₂)
    (settleable : Settleable c₀) (finished : Finished c₂ m) {a : PositionSettlement}
    (member : a ∈ c₁.exchange.positionSettlements.rows) (mine : a.marketId = m) :
    ∃ b ∈ c₂.exchange.positionSettlements.rows, b.marketId = m ∧ settlementTerms b = settlementTerms a := by
  have settleable₂ := settleable.pays second
  obtain ⟨position₁, found₁, -, paid⟩ := (settleable.pays first).payouts.settled a member
  have inside : a.positionId < c₀.exchange.positions.size := by
    rw [← first.positions_size]
    exact Table.get?_lt found₁
  have found : c₀.exchange.positions.get? a.positionId = some c₀.exchange.positions.rows[a.positionId] :=
    List.getElem?_eq_getElem inside
  obtain ⟨position₁', again, stake₁⟩ := first.stakes.1 _ _ found
  obtain ⟨position₂, found₂, stake₂⟩ := second.stakes.1 _ _ found
  rw [found₁] at again
  cases again
  simp only [stake, Prod.mk.injEq] at stake₁ stake₂
  have ofMarket : position₂.marketId = m := by
    rw [stake₂.2.1, ← stake₁.2.1, ← paid.columns.2.1, mine]
  obtain ⟨b, memberB, ofPosition⟩ := (settleable₂.ordered.solvent.settledBy _ _ found₂).mp
    (finished position₂ (Table.get?_mem found₂) ofMarket)
  have same := first.sameTerms second settleable found member memberB ofPosition
  have columns := same
  simp only [settlementTerms, Prod.mk.injEq] at columns
  exact ⟨b, memberB, columns.2.1.symm.trans mine, same.symm⟩

/-- What a run of settlement calls that leaves no position unsettled ends in, next to one uninterrupted pass. -/
structure EndsLike (s : Core × Desk) (pass : Core) (m : Nat) : Prop where
  balances : ∀ ref asset, Ledger.balanceOf s.1.ledger ref asset = Ledger.balanceOf pass.ledger ref asset
  settlements : SameSettlements s.1 pass m
  status : ∃ market, s.1.exchange.markets.get? m = some market ∧ (market.status = .resolving ∨ market.status = .resolved)
  finalized : ∀ now resolved c, (finalizeResolved now m).run s.1 = .ok (resolved, c) →
    ∃ market, c.exchange.markets.get? m = some market ∧ market.status = .resolved

theorem SettlementRun.endsLike {m : Nat} {c₀ pass : Core} {desk : Desk} {s' : Core × Desk} (settleable : Settleable c₀)
    (fits : DeskFits c₀ desk) (decided : Decided c₀ m) (run : SettlementRun m (c₀, desk) s') (finished : Finished s'.1 m)
    {clock : Nat → Time} {result : SettleMarketResult} (passed : (settleMarket clock m).run c₀ = .ok (result, pass)) :
    EndsLike s' pass m := by
  obtain ⟨pays, -⟩ := run.pays settleable fits
  obtain ⟨pays', finished', -⟩ := settleMarket_pays settleable clock passed
  have decided' := pays.decided settleable decided
  refine ⟨pays.balances pays' settleable finished finished', ?_, ?_, ?_⟩
  · intro terms
    constructor
    · rintro ⟨a, member, mine, rfl⟩
      exact pays.settlementsWithin pays' settleable finished' member mine
    · rintro ⟨b, member, mine, rfl⟩
      exact pays'.settlementsWithin pays settleable finished member mine
  · obtain ⟨market, found, isDecided⟩ := decided'
    simp only [Market.isDecided, Bool.or_eq_true, decide_eq_true_eq] at isDecided
    exact ⟨market, found, isDecided⟩
  · exact fun now resolved c done => (finalizeResolved_pays ⟨decided', finished⟩ done).2

/-- Settlement pays once, in any order and with any failures. -/
theorem reached_settlement (reached : Platform.Reached config s) {m : Nat} (decided : Decided s.db.core m) :
    (∀ p position, s.db.core.exchange.positions.get? p = some position → position.marketId = m →
      PaidOnce s.db.core p position) ∧
    (∀ s', SettlementRun m (s.db.core, s.desk) s' → Finished s'.1 m → ∀ clock result pass,
      (settleMarket clock m).run s.db.core = .ok (result, pass) → EndsLike s' pass m) ∧
    ∀ action market market', s.db.core.exchange.markets.get? m = some market → market.status = .resolving →
      (s.step config action).db.core.exchange.markets.get? m = some market' → market'.status ≠ .resolving →
      market'.status = .resolved ∧ Finished s.db.core m := by
  obtain ⟨settleable, fits, -⟩ := reached.integrity
  refine ⟨?_, ?_, ?_⟩
  · exact fun p position found _ => settleable.paidOnce found
  · exact fun s' run finished clock result pass passed => run.endsLike settleable fits decided finished passed
  · intro action market market' listed resolving listed' left
    rcases @Platform.step_exchange config s reached.integrity action with effect | same
    · obtain ⟨market'', listed'', move⟩ := effect.marketMove listed
      rw [listed'] at listed''
      cases listed''
      rw [resolving] at move
      generalize market'.status = status at move left
      cases move with
      | stays => exact absurd rfl left
      | plain allowed => simp at allowed
      | closes running => simp at running
      | resolves finished => exact ⟨rfl, finished⟩
    · rw [same, listed] at listed'
      cases listed'
      exact absurd resolving left

def unfinishedCalls : Core × Desk :=
  -- two calls have begun; each settles one of the two positions and fails on the other
  [TradingAction.beginSettlement 0, .beginSettlement 0, .settleOnePosition 6 0, .settleOnePosition 6 1].foldl tradingStep
    ((Platform.after decidedMarket).db.core, (Platform.after decidedMarket).desk)

theorem unfinishedCalls_run :
    SettlementRun 0 ((Platform.after decidedMarket).db.core, (Platform.after decidedMarket).desk) unfinishedCalls := by
  have mine : ∀ (s : Core × Desk) (p : Nat), (s.1.exchange.positions.get? p).map Position.marketId = some 0 →
      ∃ position, s.1.exchange.positions.get? p = some position ∧ position.marketId = 0 :=
    fun s p known => Option.map_eq_some_iff.mp known
  refine .head .begins (.head .begins (.head (.settles 6 (mine _ 0 ?_)) (.head .fails
    (.head (.settles 6 (mine _ 1 ?_)) (.head .fails .refl)))))
  · decide +kernel
  · decide +kernel

theorem decidedMarket_passes : ∃ result pass,
    (settleMarket (fun _ => 6) 0).run (Platform.after decidedMarket).db.core = .ok (result, pass) := by
  have ran : ((settleMarket (fun _ => 6) 0).run (Platform.after decidedMarket).db.core).toBool = true := by decide +kernel
  cases passed : (settleMarket (fun _ => 6) 0).run (Platform.after decidedMarket).db.core with
  | ok result => exact ⟨result.1, result.2, rfl⟩
  | error e =>
    rw [passed] at ran
    cases ran

theorem unfinishedCalls_finished : Finished unfinishedCalls.1 0 := by
  unfold Finished
  decide +kernel

theorem decidedMarket_decided : Decided (Platform.after decidedMarket).db.core 0 := by
  have known : ((Platform.after decidedMarket).db.core.exchange.markets.get? 0).map Market.isDecided = some true := by
    decide +kernel
  exact Option.map_eq_some_iff.mp known

theorem decidedMarket_settlement : EndsLike unfinishedCalls
    (commit (settleMarket (fun _ => 6) 0) (Platform.after decidedMarket).db.core) 0 := by
  obtain ⟨result, pass, passed⟩ := decidedMarket_passes
  have same : commit (settleMarket (fun _ => 6) 0) (Platform.after decidedMarket).db.core = pass := by
    rw [commit, passed]
  rw [same]
  exact (reached_settlement (Platform.reached_after decidedMarket) decidedMarket_decided).2.1 unfinishedCalls
    unfinishedCalls_run unfinishedCalls_finished _ _ _ passed

/-- Every position may be settled with the market still RESOLVING: no call got as far as finishing the pass. -/
theorem settled_market_still_resolving : ¬ ∀ s' clock result pass,
    SettlementRun 0 ((Platform.after decidedMarket).db.core, (Platform.after decidedMarket).desk) s' → Finished s'.1 0 →
    (settleMarket clock 0).run (Platform.after decidedMarket).db.core = .ok (result, pass) →
    (s'.1.exchange.markets.get? 0).map Market.status = (pass.exchange.markets.get? 0).map Market.status := by
  intro claimed
  obtain ⟨result, pass, passed⟩ := decidedMarket_passes
  have same := claimed unfinishedCalls _ result pass unfinishedCalls_run unfinishedCalls_finished passed
  have settleable := (Platform.reached_after decidedMarket).integrity.settleable
  obtain ⟨-, -, market, found, resolved⟩ := settleMarket_pays settleable _ passed
  have open_ : (unfinishedCalls.1.exchange.markets.get? 0).map Market.status = some .resolving := by decide +kernel
  rw [open_, found, Option.map_some, resolved] at same
  cases same

end Settlement

end VerdictVaut
