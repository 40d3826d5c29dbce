import VerdictVaut.System.Settlement

set_option autoImplicit false

namespace VerdictVaut

open Relational Relational.Tx VerdictVaut.Core ExecutionCoordinator ResolutionService SettlementService

/-- What a call of `settleMarket` can do to the database in one transaction. -/
inductive Paying (m : Nat) (c c' : Core) : Prop
  | settled {positionId : Nat} {position : Position} {rate : Settlement} {now : Time} (mine : position.marketId = m)
      (done : Settled c c' positionId position rate now)
  | finalized {c₁ : Core} {resolutions : Table MarketResolution} (finished : Decided c m ∧ Finished c m)
      (marked : (c₁ = c ∧ ∀ market, c.exchange.markets.get? m = some market → market.status ≠ .resolving) ∨
        ∃ market, market.status = .resolving ∧ MarketsService.Restated c c₁ m market .resolved)
      (same : c' = resolutionsField.set resolutions c₁)

abbrev Pays (m : Nat) : Core → Core → Prop := Relation.ReflTransGen (Paying m)

variable {c c' c₀ c₁ c₂ : Core} {m : Nat}

theorem Paying.effect (paying : Paying m c c') : TradingEffect c c' := by
  cases paying with
  | settled mine done => exact .settled done
  | finalized finished marked same => exact .finalized finished marked same

structure Settleable (c : Core) : Prop where
  ordered : Ordered c
  lifecycle : Lifecycle c
  payouts : Payouts c

theorem Settleable.step (settleable : Settleable c) (effect : TradingEffect c c') : Settleable c' :=
  ⟨(effect.advances settleable.ordered).ordered, settleable.lifecycle.kept settleable.ordered effect,
    settleable.payouts.step settleable.ordered effect⟩

theorem Settleable.pays (settleable : Settleable c) (pays : Pays m c c') : Settleable c' := by
  induction pays with
  | refl => exact settleable
  | tail _ last ih => exact ih.step last.effect

section Balances

def due (c : Core) (ref : AccountRef) (asset : Nat) (position : Position) : ℚ :=
  -- what settling a position at its outcome's rate moves on an account
  match c.ledger.assets.find? Asset.isSettlementCurrency with
  | some (assetId, _) => Ledger.posted (Ledger.only ref asset) assetId (payoutPostings position
      (computeSettlementPayout position.quantity (rateOf c.exchange position.marketId position.outcomeId)))
  | none => 0

def pending (c : Core) (m : Nat) (ref : AccountRef) (asset : Nat) : ℚ :=
  sumWhere (fun position => decide (position.marketId = m) && position.settledAt.isNone) (due c ref asset)
    c.exchange.positions.rows

theorem due_congr (assets : c'.ledger.assets = c.ledger.assets)
    (settlements : c'.exchange.settlements = c.exchange.settlements) (ref : AccountRef) (asset : Nat) :
    due c' ref asset = due c ref asset := by
  funext position
  simp only [due, assets, rateOf_same settlements]

theorem Finished.pending (finished : Finished c m) (ref : AccountRef) (asset : Nat) : pending c m ref asset = 0 := by
  refine sumWhere_eq_zero _ _ _ ?_
  intro position member
  by_cases mine : position.marketId = m
  · have settled := finished position member mine
    simp [share, Option.isSome_iff_ne_none.mp settled]
  · simp [share, mine]

theorem payoutPostings_zero (ref : AccountRef) (asset assetId : Nat) (position : Position) :
    Ledger.posted (Ledger.only ref asset) assetId (payoutPostings position 0) = 0 := by
  simp [Ledger.posted, payoutPostings, share]

theorem Paying.conserves (paying : Paying m c c') (settleable : Settleable c) (ref : AccountRef) (asset : Nat) :
    Ledger.balanceOf c'.ledger ref asset + pending c' m ref asset =
      Ledger.balanceOf c.ledger ref asset + pending c m ref asset := by
  cases paying with
  | finalized finished marked same =>
    subst same
    rcases marked with ⟨rfl, -⟩ | ⟨market, -, restated⟩
    · rfl
    · obtain ⟨markets, rfl, -⟩ := restated.result
      rfl
  | @settled positionId position rate now mine done =>
    obtain ⟨l, settlements, positions, transactionId, rfl, -, rewritten, moved, -, -, paid⟩ := done.result
    have perShare : rateOf c.exchange position.marketId position.outcomeId = rate.payoutPerShare := by
      rw [← done.rated.1, ← done.rated.2, rateOf_eq _ done.member]
    have same : due (positionsField.set positions (positionSettlementsField.set settlements (ledgerField.set l c))) ref asset =
        due c ref asset := by
      refine due_congr ?_ ?_ ref asset
      · exact moved.assets
      · rfl
    have left : pending (positionsField.set positions (positionSettlementsField.set settlements (ledgerField.set l c)))
        m ref asset = pending c m ref asset - due c ref asset position := by
      unfold pending
      rw [same]
      change sumWhere _ _ positions.rows = _
      rw [rewritten, sumWhere_set _ _ _ _ _ _ done.found]
      simp [share, mine, done.unsettled]
    rw [left]
    change Ledger.balanceOf l ref asset + _ = _
    have unpaid := settleable.payouts.unsettled positionId (by
      intro other found
      rw [done.found] at found
      cases found
      exact done.unsettled)
    cases paid with
    | nothing zero same =>
      have none : due c ref asset position = 0 := by
        rw [due, perShare, zero]
        split
        next => exact payoutPostings_zero _ _ _ _
        next => rfl
      rw [same, none]
      ring
    | replayed known =>
      obtain ⟨t, member, key⟩ := known
      have inside := @Ledger.mem_transactionsFor _ settleable.ordered.sound _ member .position positionId key
      simp [unpaid] at inside
    | @posted assetId _ named nonzero effect =>
      have change : Ledger.balanceOf l ref asset = Ledger.balanceOf c.ledger ref asset + _ := effect.held _
      have amount : due c ref asset position = Ledger.posted (Ledger.only ref asset) assetId (payoutPostings position
          (computeSettlementPayout position.quantity rate.payoutPerShare)) := by
        rw [due, perShare, named]
      rw [change, amount]
      simp only [payoutInput]
      ring

theorem Pays.conserves (pays : Pays m c c') (settleable : Settleable c) (ref : AccountRef) (asset : Nat) :
    Ledger.balanceOf c'.ledger ref asset + pending c' m ref asset =
      Ledger.balanceOf c.ledger ref asset + pending c m ref asset := by
  induction pays with
  | refl => rfl
  | tail earlier last ih => rw [last.conserves (settleable.pays earlier), ih]

theorem Pays.balances (first : Pays m c₀ c₁) (second : Pays m c₀ c₂) (settleable : Settleable c₀)
    (finished₁ : Finished c₁ m) (finished₂ : Finished c₂ m) (ref : AccountRef) (asset : Nat) :
    Ledger.balanceOf c₁.ledger ref asset = Ledger.balanceOf c₂.ledger ref asset := by
  have one := first.conserves settleable ref asset
  have two := second.conserves settleable ref asset
  rw [finished₁.pending, add_zero] at one
  rw [finished₂.pending, add_zero] at two
  rw [one, two]

end Balances

section Rows

def stake (position : Position) : Nat × Nat × Nat × ℚ :=
  -- the columns of a position that settling leaves alone
  (position.userId, position.marketId, position.outcomeId, position.quantity)

def settlementTerms (settlement : PositionSettlement) : Nat × Nat × Nat × Nat × ℚ × ℚ × ℚ × IdempotencyKey :=
  -- a settlement without the number of its ledger transaction
  (settlement.positionId, settlement.marketId, settlement.outcomeId, settlement.userId, settlement.quantity,
    settlement.payoutPerShare, settlement.payoutAmount, settlement.idempotencyKey)

theorem Paying.stakes (paying : Paying m c c') :
    Table.Carries stake c.exchange.positions c'.exchange.positions ∧ c'.exchange.settlements = c.exchange.settlements := by
  cases paying with
  | settled mine done =>
    obtain ⟨l, settlements, positions, transactionId, rfl, -, rewritten, -⟩ := done.result
    exact ⟨.of_set done.found rewritten rfl, rfl⟩
  | finalized finished marked same =>
    subst same
    rcases marked with ⟨rfl, -⟩ | ⟨market, -, restated⟩
    · exact ⟨.refl _ _, rfl⟩
    · obtain ⟨markets, rfl, -⟩ := restated.result
      exact ⟨.refl _ _, rfl⟩

theorem Pays.stakes (pays : Pays m c c') :
    Table.Carries stake c.exchange.positions c'.exchange.positions ∧ c'.exchange.settlements = c.exchange.settlements := by
  induction pays with
  | refl => exact ⟨.refl _ _, rfl⟩
  | tail _ last ih => exact ⟨ih.1.trans last.stakes.1, last.stakes.2.trans ih.2⟩

theorem Pays.positions_size (pays : Pays m c c') : c'.exchange.positions.size = c.exchange.positions.size := by
  induction pays with
  | refl => rfl
  | tail _ last ih =>
    rw [← ih]
    cases last with
    | settled mine done =>
      obtain ⟨l, settlements, positions, transactionId, rfl, -, rewritten, -⟩ := done.result
      exact Table.size_of_set rewritten
    | finalized finished marked same =>
      subst same
      rcases marked with ⟨rfl, -⟩ | ⟨market, -, restated⟩
      · rfl
      · obtain ⟨markets, rfl, -⟩ := restated.result
        rfl

theorem Pays.decided (pays : Pays m c c') (settleable : Settleable c) {m' : Nat} (before : Decided c m') :
    Decided c' m' := by
  induction pays with
  | refl => exact before
  | tail earlier last ih => exact (last.effect.advances (settleable.pays earlier).ordered).persists.decided m' ih

theorem Payouts.terms (payouts : Payouts c) (solvent : Solvent c) {settlement : PositionSettlement}
    (member : settlement ∈ c.exchange.positionSettlements.rows) {position : Position}
    (found : c.exchange.positions.get? settlement.positionId = some position) :
    settlementTerms settlement = (settlement.positionId, position.marketId, position.outcomeId, position.userId,
      position.quantity, rateOf c.exchange position.marketId position.outcomeId,
      position.quantity * rateOf c.exchange position.marketId position.outcomeId,
      ⟨"settlement", [settlement.positionId]⟩) := by
  obtain ⟨position', found', -, paid⟩ := payouts.settled settlement member
  rw [found] at found'
  cases found'
  obtain ⟨user, market, outcome, quantity⟩ := paid.columns
  have valid := c.exchange.positionSettlements.checked settlement member
  simp only [RowSpec.check, Bool.and_eq_true, decide_eq_true_eq] at valid
  simp only [settlementTerms, Prod.mk.injEq, true_and]
  exact ⟨market, outcome, user, quantity, paid.rate, by rw [valid.1.2, quantity, paid.rate],
    (solvent.settlements settlement member).2⟩

theorem Pays.sameTerms (first : Pays m c₀ c₁) (second : Pays m c₀ c₂) (settleable : Settleable c₀)
    {a b : PositionSettlement} {position : Position} (found : c₀.exchange.positions.get? a.positionId = some position)
    (memberA : a ∈ c₁.exchange.positionSettlements.rows) (memberB : b ∈ c₂.exchange.positionSettlements.rows)
    (same : b.positionId = a.positionId) : settlementTerms a = settlementTerms b := by
  have settleable₁ := settleable.pays first
  have settleable₂ := settleable.pays second
  obtain ⟨position₁, found₁, stake₁⟩ := first.stakes.1 _ _ found
  obtain ⟨position₂, found₂, stake₂⟩ := second.stakes.1 _ _ found
  simp only [stake, Prod.mk.injEq] at stake₁ stake₂
  rw [settleable₁.payouts.terms settleable₁.ordered.solvent memberA found₁,
    settleable₂.payouts.terms settleable₂.ordered.solvent memberB (by rw [same]; exact found₂),
    rateOf_same first.stakes.2, rateOf_same second.stakes.2]
  simp [stake₁, stake₂, same]

end Rows

section Passes

theorem settleOnePosition_pays (settleable : Settleable c) {now : Time} {positionId : Nat} {settled : Bool}
    (mine : ∃ position, c.exchange.positions.get? positionId = some position ∧ position.marketId = m)
    (done : (settleOnePosition now positionId).run c = .ok (settled, c')) :
    Pays m c c' ∧ ∃ position, c'.exchange.positions.get? positionId = some position ∧ position.settledAt.isSome = true := by
  rcases settleOnePosition_ok done with ⟨rfl, already⟩ | ⟨position, found, unsettled, existing, member, key⟩ |
    ⟨position, rate, settled⟩
  · exact ⟨.refl, already⟩
  · obtain ⟨-, own⟩ := settleable.ordered.solvent.settlements existing member
    have same : existing.positionId = positionId := by simpa [own] using key
    have settled := (settleable.ordered.solvent.settledBy positionId position found).mpr ⟨existing, member, same⟩
    simp [unsettled] at settled
  · obtain ⟨position', found, ofMarket⟩ := mine
    rw [settled.found] at found
    cases found
    refine ⟨.single (.settled ofMarket settled), ?_⟩
    obtain ⟨l, settlements, positions, transactionId, rfl, -, rewritten, -⟩ := settled.result
    exact ⟨_, (settled_get? settled.found rewritten positionId).trans (if_pos rfl), rfl⟩

theorem Pays.settled (pays : Pays m c c') {p : Nat}
    (before : ∃ position, c.exchange.positions.get? p = some position ∧ position.settledAt.isSome = true) :
    ∃ position, c'.exchange.positions.get? p = some position ∧ position.settledAt.isSome = true := by
  induction pays with
  | refl => exact before
  | tail _ last ih =>
    obtain ⟨position, found, settled⟩ := ih
    cases last with
    | @settled positionId other rate now mine done =>
      obtain ⟨l, settlements, positions, transactionId, rfl, -, rewritten, -⟩ := done.result
      have at_ := settled_get? done.found rewritten p
      by_cases this : p = positionId
      · exact ⟨_, at_.trans (if_pos this), rfl⟩
      · exact ⟨position, (at_.trans (if_neg this)).trans found, settled⟩
    | finalized finished marked same =>
      subst same
      rcases marked with ⟨rfl, -⟩ | ⟨market, -, restated⟩
      · exact ⟨position, found, settled⟩
      · obtain ⟨markets, rfl, -⟩ := restated.result
        exact ⟨position, found, settled⟩

theorem settleEach_pays (clock : Nat → Time) (ids : List Nat) (k : Nat) {count : Nat} (settleable : Settleable c)
    (mine : ∀ id ∈ ids, ∃ position, c.exchange.positions.get? id = some position ∧ position.marketId = m)
    (done : (settleEach clock k ids).run c = .ok (count, c')) :
    Pays m c c' ∧ ∀ id ∈ ids, ∃ position,
      c'.exchange.positions.get? id = some position ∧ position.settledAt.isSome = true := by
  induction ids generalizing c k count with
  | nil =>
    cases done
    exact ⟨.refl, by simp⟩
  | cons id rest ih =>
    simp only [settleEach, run_bind_ok, run_pure, Except.ok.injEq, Prod.mk.injEq] at done
    obtain ⟨didSettle, c₁, first, others, _, later, -, rfl⟩ := done
    obtain ⟨pays, settled⟩ := settleOnePosition_pays settleable (mine id (by simp)) (runTransaction_ok first)
    have mine' : ∀ other ∈ rest, ∃ position, c₁.exchange.positions.get? other = some position ∧ position.marketId = m := by
      intro other member
      obtain ⟨position, found, ofMarket⟩ := mine other (List.mem_cons_of_mem id member)
      obtain ⟨position', found', same⟩ := pays.stakes.1 _ _ found
      simp only [stake, Prod.mk.injEq] at same
      exact ⟨position', found', same.2.1.trans ofMarket⟩
    obtain ⟨pays', settled'⟩ := ih (k + 1) (settleable.pays pays) mine' later
    exact ⟨pays.trans pays', List.forall_mem_cons.mpr ⟨pays'.settled settled, settled'⟩⟩

theorem mem_unsettled {positions : Table Position} {id : Nat} : id ∈ unsettled positions m ↔
    ∃ position, positions.get? id = some position ∧ position.marketId = m ∧ position.settledAt = none := by
  unfold unsettled
  constructor
  · intro member
    obtain ⟨⟨i, position⟩, found, rfl⟩ := List.mem_map.mp member
    obtain ⟨place, picked⟩ := Table.mem_findMany.mp found
    simp only [Bool.and_eq_true, decide_eq_true_eq, Option.isNone_iff_eq_none] at picked
    exact ⟨position, place, picked.1, picked.2⟩
  · rintro ⟨position, place, mine, open_⟩
    exact List.mem_map.mpr ⟨(id, position), Table.mem_findMany.mpr ⟨place, by simp [mine, open_]⟩, rfl⟩

theorem Finished.of_settled (pays : Pays m c c')
    (settled : ∀ id ∈ unsettled c.exchange.positions m, ∃ position,
      c'.exchange.positions.get? id = some position ∧ position.settledAt.isSome = true) : Finished c' m := by
  intro position member ofMarket
  obtain ⟨i, found⟩ := Table.mem_iff_get?.mp member
  have inside : i < c.exchange.positions.size := by
    rw [← pays.positions_size]
    exact Table.get?_lt found
  have before : c.exchange.positions.get? i = some c.exchange.positions.rows[i] := List.getElem?_eq_getElem inside
  have known : ∃ position', c'.exchange.positions.get? i = some position' ∧ position'.settledAt.isSome = true := by
    cases stamped : (c.exchange.positions.rows[i]).settledAt with
    | some time => exact pays.settled ⟨_, before, by rw [stamped]; rfl⟩
    | none =>
      obtain ⟨position', found', same⟩ := pays.stakes.1 _ _ before
      rw [found] at found'
      cases found'
      simp only [stake, Prod.mk.injEq] at same
      exact settled i (mem_unsettled.mpr ⟨_, before, same.2.1.symm.trans ofMarket, stamped⟩)
  obtain ⟨position', found', final⟩ := known
  rw [found] at found'
  cases found'
  exact final

theorem finalizeResolved_pays {now : Time} {resolved : Bool} (final : Decided c m ∧ Finished c m)
    (done : (finalizeResolved now m).run c = .ok (resolved, c')) :
    Paying m c c' ∧ ∃ market, c'.exchange.markets.get? m = some market ∧ market.status = .resolved := by
  obtain ⟨c₁, resolutions, rfl, marked⟩ := finalizeResolved_ok done
  refine ⟨.finalized final marked rfl, ?_⟩
  obtain ⟨market, found, decided⟩ := final.1
  rcases marked with ⟨rfl, other⟩ | ⟨market', -, restated⟩
  · refine ⟨market, found, ?_⟩
    simp only [Market.isDecided, Bool.or_eq_true, decide_eq_true_eq] at decided
    exact decided.resolve_left (other market found)
  · have known := restated.found
    obtain ⟨markets, rfl, rows⟩ := restated.result
    exact ⟨_, (Table.get?_of_set rows (Table.get?_lt known) m).trans (if_pos rfl), rfl⟩

theorem settleMarket_pays (settleable : Settleable c) (clock : Nat → Time) {result : SettleMarketResult}
    (done : (settleMarket clock m).run c = .ok (result, c')) :
    Pays m c c' ∧ Finished c' m ∧ ∃ market, c'.exchange.markets.get? m = some market ∧ market.status = .resolved := by
  -- one uninterrupted pass: every position of the market is settled, and the market is resolved
  simp only [settleMarket, awaitingSettlement, run_bind_ok, run_getOrThrow_ok] at done
  obtain ⟨awaiting, _, ⟨market, _, ⟨found, rfl⟩, looked⟩, rest⟩ := done
  rw [run_ite] at looked
  split at looked
  next resolved =>
    cases looked
    simp only [Bool.false_eq_true, if_false, run_pure, Except.ok.injEq, Prod.mk.injEq] at rest
    obtain ⟨-, rfl⟩ := rest
    exact ⟨.refl, settleable.lifecycle.finished m market found resolved, market, found, resolved⟩
  next =>
    simp only [run_bind_ok, run_throwIf_ok, not_not, run_pure, Except.ok.injEq, Prod.mk.injEq] at looked
    obtain ⟨_, _, ⟨resolving, rfl⟩, rfl, rfl⟩ := looked
    simp only [if_true, run_bind_ok, run_read, Except.ok.injEq, Prod.mk.injEq, run_pure] at rest
    obtain ⟨_, _, ⟨rfl, rfl⟩, count, c₁, each, _, _, ⟨rfl, rfl⟩, resolved, _, finish, -, rfl⟩ := rest
    obtain ⟨pays, settled⟩ := settleEach_pays clock _ 0 settleable (by
      intro id member
      obtain ⟨position, place, mine, -⟩ := mem_unsettled.mp member
      exact ⟨position, place, mine⟩) each
    have finished := Finished.of_settled pays settled
    have final : Decided c₁ m ∧ Finished c₁ m :=
      ⟨pays.decided settleable ⟨market, found, by simp [Market.isDecided, resolving]⟩, finished⟩
    rw [finishPass, unsettled_nil.mpr finished, List.length_nil, if_pos rfl] at finish
    obtain ⟨last, resolved⟩ := finalizeResolved_pays final (runTransaction_ok finish)
    have all := pays.tail last
    refine ⟨all, ?_, resolved⟩
    exact (last.effect.advances (settleable.pays pays).ordered).persists.finished m final.1 final.2

end Passes

section Interleavings

/-- One step of any of the calls that settle the market; a transaction that fails leaves no trace. -/
inductive SettlementStep (m : Nat) (s : Core × Desk) : Core × Desk → Prop
  | begins : SettlementStep m s (tradingStep s (.beginSettlement m))
  | settles (now : Time) {positionId : Nat} (mine : ∃ position,
      s.1.exchange.positions.get? positionId = some position ∧ position.marketId = m) :
      SettlementStep m s (tradingStep s (.settleOnePosition now positionId))
  | fails : SettlementStep m s s
  | counts (k : Nat) : SettlementStep m s (tradingStep s (.countRemaining k))
  | finalizes {k : Nat} (now : Time) (mine : s.2.finalizing[k]? = some m) :
      SettlementStep m s (tradingStep s (.finalizeResolved k now))

abbrev SettlementRun (m : Nat) : Core × Desk → Core × Desk → Prop := Relation.ReflTransGen (SettlementStep m)

theorem SettlementStep.pays {s s' : Core × Desk} (step : SettlementStep m s s') (settleable : Settleable s.1)
    (fits : DeskFits s.1 s.2) : Pays m s.1 s'.1 := by
  obtain ⟨c, desk⟩ := s
  cases step with
  | begins =>
    simp only [tradingStep]
    split <;> exact .refl
  | @settles now positionId mine =>
    simp only [tradingStep]
    rcases transact_cases (settleOnePosition now positionId) c with same | ⟨settled, done⟩
    · rw [same]
    · exact (settleOnePosition_pays settleable mine done).1
  | fails => exact .refl
  | counts k =>
    simp only [tradingStep]
    split
    · split <;> exact .refl
    · exact .refl
  | finalizes now mine =>
    simp only [tradingStep, mine]
    rcases transact_cases (finalizeResolved now m) c with same | ⟨resolved, done⟩
    · rw [same]
    · exact .single (finalizeResolved_pays (fits.finalizing m (List.mem_of_getElem? mine)) done).1

theorem SettlementStep.fits {s s' : Core × Desk} (step : SettlementStep m s s') (settleable : Settleable s.1)
    (fits : DeskFits s.1 s.2) : DeskFits s'.1 s'.2 := by
  obtain ⟨c, desk⟩ := s
  cases step with
  | fails => exact fits
  | _ => exact tradingStep_fits settleable.ordered fits _

theorem SettlementRun.pays {s s' : Core × Desk} (run : SettlementRun m s s') (settleable : Settleable s.1)
    (fits : DeskFits s.1 s.2) : Pays m s.1 s'.1 ∧ DeskFits s'.1 s'.2 := by
  induction run with
  | refl => exact ⟨.refl, fits⟩
  | tail _ last ih =>
    have between := settleable.pays ih.1
    exact ⟨ih.1.trans (last.pays between ih.2), last.fits between ih.2⟩

end Interleavings

end VerdictVaut
