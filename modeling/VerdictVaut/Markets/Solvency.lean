import VerdictVaut.Markets.Effects

set_option autoImplicit false

namespace VerdictVaut

open Relational Relational.Tx VerdictVaut.Core ExecutionCoordinator ResolutionService

section Quantities

def minted (x : Exchange) (marketId : Nat) : ℚ :=
  sumWhere (fun mint => decide (mint.marketId = marketId)) CompleteSetMint.quantity x.mints.rows

def paidOut (x : Exchange) (marketId : Nat) : ℚ :=
  sumWhere (fun settlement => decide (settlement.marketId = marketId)) PositionSettlement.payoutAmount
    x.positionSettlements.rows

def openInterest (x : Exchange) (marketId outcomeId : Nat) : ℚ :=
  sumWhere (fun position => decide (position.marketId = marketId) && decide (position.outcomeId = outcomeId))
    Position.quantity x.positions.rows

def rateOf (x : Exchange) (marketId outcomeId : Nat) : ℚ :=
  -- an outcome's payout rate, zero while the market has no decision
  sumWhere (fun settlement => decide (settlement.marketId = marketId) && decide (settlement.outcomeId = outcomeId))
    Settlement.payoutPerShare x.settlements.rows

def Market.isDecided (market : Market) : Bool :=
  decide (market.status = .resolving) || decide (market.status = .resolved)

def byOutcome (f : Nat → Nat → Bool → ℚ) (t : Nat × Nat × Nat × Option Time) : ℚ :=
  -- a weight of positions that does not see whose they are
  f t.2.1 t.2.2.1 t.2.2.2.isSome

theorem byOutcome_tag (f : Nat → Nat → Bool → ℚ) (position : Position) :
    byOutcome f (tag position) = f position.marketId position.outcomeId position.settledAt.isSome := rfl

def ofOutcome (marketId outcomeId : Nat) (m o : Nat) (_ : Bool) : ℚ :=
  if m = marketId ∧ o = outcomeId then 1 else 0

def ofSettled (x : Exchange) (marketId : Nat) (m o : Nat) (settled : Bool) : ℚ :=
  if m = marketId ∧ settled = true then rateOf x marketId o else 0

theorem openInterest_eq (x : Exchange) (marketId outcomeId : Nat) :
    openInterest x marketId outcomeId = weighted (byOutcome (ofOutcome marketId outcomeId)) x.positions := by
  refine sumWhere_congr _ _ _ ?_
  intro position _
  by_cases mine : position.marketId = marketId ∧ position.outcomeId = outcomeId
  · simp [share, byOutcome, ofOutcome, tag, mine]
  · have apart : ¬ (position.marketId = marketId) ∨ ¬ (position.outcomeId = outcomeId) := not_and_or.mp mine
    rcases apart with other | other <;> simp [share, byOutcome, ofOutcome, tag, other]

theorem ofSettled_congr {x x' : Exchange} (same : x'.settlements = x.settlements) (marketId : Nat) :
    ofSettled x' marketId = ofSettled x marketId := by
  funext m o settled
  rw [ofSettled, rateOf, same, ofSettled, rateOf]

end Quantities

structure Settling (c : Core) : Prop where
  -- which positions are settled, and at which rates
  outcomesIn : ∀ outcome ∈ c.exchange.outcomes.rows, outcome.marketId < c.exchange.markets.size
  positionsIn : ∀ position ∈ c.exchange.positions.rows, position.marketId < c.exchange.markets.size
  decided : ∀ m market, c.exchange.markets.get? m = some market → market.isDecided = true →
    ∃ winner ∈ outcomesOf c.exchange.outcomes m, ∀ o, rateOf c.exchange m o = if o = winner then 1 else 0
  rated : ∀ settlement ∈ c.exchange.settlements.rows, ∃ market,
    c.exchange.markets.get? settlement.marketId = some market ∧ market.isDecided = true
  settledIn : ∀ position ∈ c.exchange.positions.rows, position.settledAt.isSome = true → ∃ market,
    c.exchange.markets.get? position.marketId = some market ∧ market.isDecided = true
  settledBy : ∀ i position, c.exchange.positions.get? i = some position →
    (position.settledAt.isSome = true ↔ ∃ settlement ∈ c.exchange.positionSettlements.rows, settlement.positionId = i)
  settlements : ∀ settlement ∈ c.exchange.positionSettlements.rows,
    settlement.positionId < c.exchange.positions.size ∧
      settlement.idempotencyKey = ⟨"settlement", [settlement.positionId]⟩
  payouts : ∀ t ∈ c.ledger.transactions.rows, t.referenceType = .position →
    ∃ position, c.exchange.positions.get? t.referenceId = some position ∧ position.settledAt.isSome = true

/-- Each binary market's shares are backed: both outcomes have as many shares as were minted, and the
market's account holds what was minted and not yet paid out. -/
structure Solvent (c : Core) : Prop extends Settling c where
  mintsIn : ∀ mint ∈ c.exchange.mints.rows, mint.marketId < c.exchange.markets.size
  mintings : ∀ t ∈ c.ledger.transactions.rows, t.referenceType = .completeSetMint →
    t.referenceId < c.exchange.mints.size
  sets : ∀ m a b, outcomesOf c.exchange.outcomes m = [a, b] →
    openInterest c.exchange m a = minted c.exchange m ∧ openInterest c.exchange m b = minted c.exchange m
  collateral : ∀ assetId asset, c.ledger.assets.find? Asset.isSettlementCurrency = some (assetId, asset) →
    ∀ m, Ledger.balanceOf c.ledger (.market m) assetId = minted c.exchange m - paidOut c.exchange m
  paid : ∀ m, paidOut c.exchange m = weighted (byOutcome (ofSettled c.exchange m)) c.exchange.positions

section Trading

variable {c c' : Core}

structure Unsettling (c c' : Core) (opened : Nat × Nat × Nat × Option Time → Prop)
    (change : (Nat × Nat × Nat × Option Time → ℚ) → ℚ) : Prop where
  -- what trading leaves alone of the markets
  markets : c'.exchange.markets = c.exchange.markets
  outcomes : c'.exchange.outcomes = c.exchange.outcomes
  rates : c'.exchange.settlements = c.exchange.settlements
  settlements : c'.exchange.positionSettlements = c.exchange.positionSettlements
  positions : Rebalanced c.exchange.shares c'.exchange.shares opened change
  new : ∀ t, opened t → t.2.2.2 = none ∧ t.2.1 < c.exchange.markets.size
  assets : c'.ledger.assets = c.ledger.assets
  payouts : ∀ t ∈ c'.ledger.transactions.rows, t ∈ c.ledger.transactions.rows ∨ t.referenceType ≠ .position

variable {opened : Nat × Nat × Nat × Option Time → Prop} {change : (Nat × Nat × Nat × Option Time → ℚ) → ℚ}

theorem Unsettling.origin (kept : Unsettling c c' opened change) {i : Nat} {position : Position}
    (found : c'.exchange.positions.get? i = some position) :
    (∃ before, c.exchange.positions.get? i = some before ∧ before.marketId = position.marketId ∧
        before.settledAt = position.settledAt) ∨
      (c.exchange.positions.size ≤ i ∧ position.settledAt = none ∧
        position.marketId < c.exchange.markets.size) := by
  rcases kept.positions.origin_at found with ⟨before, earlier, same⟩ | ⟨later, fresh⟩
  · simp only [tag, Prod.mk.injEq] at same
    exact .inl ⟨before, earlier, same.2.1, same.2.2.2⟩
  · exact .inr ⟨later, kept.new _ fresh⟩

theorem Settling.unsettling (settling : Settling c) (kept : Unsettling c c' opened change) : Settling c' := by
  have same := kept.settlements
  constructor
  · rw [kept.outcomes, kept.markets]
    exact settling.outcomesIn
  · intro position member
    rw [kept.markets]
    obtain ⟨i, found⟩ := Table.mem_iff_get?.mp member
    rcases kept.origin found with ⟨before, earlier, market, -⟩ | ⟨-, -, inside⟩
    · rw [← market]
      exact settling.positionsIn before (Table.get?_mem earlier)
    · exact inside
  · rw [kept.markets, kept.outcomes]
    simpa only [rateOf, kept.rates] using settling.decided
  · rw [kept.rates, kept.markets]
    exact settling.rated
  · intro position member done
    rw [kept.markets]
    obtain ⟨i, found⟩ := Table.mem_iff_get?.mp member
    rcases kept.origin found with ⟨before, earlier, market, settled⟩ | ⟨-, open_, -⟩
    · rw [← market]
      exact settling.settledIn before (Table.get?_mem earlier) (settled ▸ done)
    · simp [open_] at done
  · intro i position found
    rw [same]
    rcases kept.origin found with ⟨before, earlier, -, settled⟩ | ⟨later, open_, -⟩
    · rw [← settled]
      exact settling.settledBy i before earlier
    · simp only [open_, Option.isSome_none, Bool.false_eq_true, false_iff, not_exists, not_and]
      rintro settlement member rfl
      exact absurd (settling.settlements settlement member).1 (not_lt.mpr later)
  · intro settlement member
    rw [same] at member
    obtain ⟨inside, key⟩ := settling.settlements settlement member
    exact ⟨inside.trans_le kept.positions.tags.size, key⟩
  · intro t member paid
    obtain ⟨before, earlier, settled⟩ := settling.payouts t ((kept.payouts t member).resolve_right (not_not.mpr paid)) paid
    obtain ⟨position, found, tags⟩ := kept.positions.tags _ _ earlier
    simp only [tag, Prod.mk.injEq] at tags
    exact ⟨position, found, tags.2.2.2 ▸ settled⟩

/-- Placing, ending and filling an order, and every step of the wallet, make no shares and move no market's
account. -/
theorem Solvent.neutral (solvent : Solvent c) (kept : Unsettling c c' opened change)
    (none : ∀ f, change (byOutcome f) = 0) (mints : c'.exchange.mints = c.exchange.mints)
    (mintings : ∀ t ∈ c'.ledger.transactions.rows, t ∈ c.ledger.transactions.rows ∨
      t.referenceType ≠ .completeSetMint)
    (collateral : ∀ m asset, Ledger.balanceOf c'.ledger (.market m) asset =
      Ledger.balanceOf c.ledger (.market m) asset) : Solvent c' := by
  have total : ∀ f, weighted (byOutcome f) c'.exchange.positions = weighted (byOutcome f) c.exchange.positions := by
    intro f
    rw [Exchange.positions, kept.positions.total, none, add_zero]
  have sameMinted : ∀ m, minted c'.exchange m = minted c.exchange m := fun m => by rw [minted, mints, minted]
  have samePaid : ∀ m, paidOut c'.exchange m = paidOut c.exchange m := fun m => by
    rw [paidOut, kept.settlements, paidOut]
  refine ⟨solvent.toSettling.unsettling kept, ?_, ?_, ?_, ?_, ?_⟩
  · rw [mints, kept.markets]
    exact solvent.mintsIn
  · intro t member ofMint
    rw [mints]
    exact solvent.mintings t ((mintings t member).resolve_right (not_not.mpr ofMint)) ofMint
  · intro m a b binary
    rw [kept.outcomes] at binary
    simp only [openInterest_eq, total, sameMinted]
    simpa only [openInterest_eq] using solvent.sets m a b binary
  · intro assetId asset found m
    rw [kept.assets] at found
    rw [collateral, sameMinted, samePaid]
    exact solvent.collateral assetId asset found m
  · intro m
    rw [samePaid, total, solvent.paid m, ofSettled_congr kept.rates]

theorem Solvent.unsettled (solvent : Solvent c) {market : Market} {now : Time} {userId marketId outcomeId : Nat}
    {settledAt : Option Time} (found : c.exchange.markets.get? marketId = some market)
    (executable : market.isExecutable now = true)
    (known : settledAt = none ∨ ∃ before ∈ c.exchange.positions.rows,
      tag before = (userId, marketId, outcomeId, settledAt)) : settledAt = none := by
  -- a fill moves shares between two positions of one outcome, in a market without a decision
  rcases known with rfl | ⟨before, member, same⟩
  · rfl
  · simp only [tag, Prod.mk.injEq] at same
    obtain ⟨-, ofMarket, -, settled⟩ := same
    by_contra some
    obtain ⟨market', found', decided⟩ := solvent.settledIn before member (by
      rw [settled]
      exact Option.isSome_iff_ne_none.mpr some)
    rw [ofMarket, found] at found'
    cases found'
    simp only [Market.isExecutable, Bool.and_eq_true, decide_eq_true_eq] at executable
    simp [Market.isDecided, executable.1] at decided

theorem Solvent.filled (solvent : Solvent c) {i : ExecutionInstruction} {buy sell : Order} {q : ℚ} {market : Market}
    {now : Time} (found : c.exchange.markets.get? i.marketId = some market)
    (executable : market.isExecutable now = true) (done : Executed c c' i buy sell q) : Solvent c' := by
  obtain ⟨settledB, settledS, knownB, knownS, moved⟩ := done.positions
  obtain rfl := solvent.unsettled found executable knownB
  obtain rfl := solvent.unsettled found executable knownS
  have inside := Table.get?_lt found
  have kept : Unsettling c c' _ _ :=
    { markets := done.static.markets
      outcomes := done.static.outcomes
      rates := done.static.settlements
      settlements := done.static.positionSettlements
      positions := moved
      new := by
        rintro t (rfl | rfl)
        · exact ⟨rfl, inside⟩
        · exact ⟨rfl, inside⟩
      assets := done.ledger.assets
      payouts := by
        intro t member
        exact (done.transactions t member).imp_right fun fill => by simp [fill.1] }
  refine solvent.neutral kept (fun f => by simp [byOutcome]) done.mints ?_ done.collateral
  intro t member
  exact (done.transactions t member).imp_right fun fill => by simp [fill.1]

theorem Solvent.placed (solvent : Solvent c) {placement : OrdersService.Placement} {now : Time} {sequence : Nat}
    (done : OrdersService.Placed c c' placement now sequence) : Solvent c' := by
  obtain ⟨market, found, -⟩ := done.market
  have inside := Table.get?_lt found
  have kept : Unsettling c c' _ _ :=
    { markets := done.static.markets
      outcomes := done.static.outcomes
      rates := done.static.settlements
      settlements := done.static.positionSettlements
      positions := done.positions
      new := by
        rintro t rfl
        exact ⟨rfl, inside⟩
      assets := done.ledger.assets
      payouts := by
        rw [done.transactions]
        exact fun t member => .inl member }
  refine solvent.neutral kept (fun f => rfl) done.mints ?_ fun m asset => done.collateral _ _
  rw [done.transactions]
  exact fun t member => .inl member

theorem Solvent.ended (solvent : Solvent c) {orderId : Nat} {order : Order} {status : OrderStatus}
    (done : OrdersService.Ended c c' orderId order status) : Solvent c' := by
  have kept : Unsettling c c' _ _ :=
    { markets := done.static.markets
      outcomes := done.static.outcomes
      rates := done.static.settlements
      settlements := done.static.positionSettlements
      positions := done.positions
      new := fun _ => False.elim
      assets := done.ledger.assets
      payouts := by
        rw [done.transactions]
        exact fun t member => .inl member }
  refine solvent.neutral kept (fun f => rfl) done.mints ?_ fun m asset => done.collateral _ _
  rw [done.transactions]
  exact fun t member => .inl member

theorem Solvent.minting (solvent : Solvent c) (sound : c.ledger.Sound) {i : MintInstruction} {a b : Order} {q : ℚ}
    {market : Market} {now : Time} (found : c.exchange.markets.get? i.marketId = some market)
    (executable : market.isExecutable now = true) (fits : MintTerms i a b)
    (binary : outcomesOf c.exchange.outcomes i.marketId = [i.outcomeAId, i.outcomeBId] ∨
      outcomesOf c.exchange.outcomes i.marketId = [i.outcomeBId, i.outcomeAId])
    (done : Minted c c' i a b q) : Solvent c' := by
  obtain ⟨settledA, settledB, knownA, knownB, moved⟩ := done.positions
  obtain rfl := solvent.unsettled found executable knownA
  obtain rfl := solvent.unsettled found executable knownB
  have inside := Table.get?_lt found
  have kept : Unsettling c c' _ _ :=
    { markets := done.static.markets
      outcomes := done.static.outcomes
      rates := done.static.settlements
      settlements := done.static.positionSettlements
      positions := moved
      new := by
        rintro t (rfl | rfl)
        · exact ⟨rfl, inside⟩
        · exact ⟨rfl, inside⟩
      assets := done.ledger.assets
      payouts := by
        intro t member
        exact (done.transactions t member).imp_right fun mint => by simp [mint.1] }
  have total : ∀ f, weighted (byOutcome f) c'.exchange.positions = weighted (byOutcome f) c.exchange.positions +
      (f i.marketId i.outcomeAId false * q + f i.marketId i.outcomeBId false * q) :=
    fun f => moved.total (byOutcome f)
  have madeMinted : ∀ m, minted c'.exchange m = minted c.exchange m + if i.marketId = m then q else 0 := by
    intro m
    simp [minted, done.mints, share, mintRow]
  have samePaid : ∀ m, paidOut c'.exchange m = paidOut c.exchange m := fun m => by
    rw [paidOut, kept.settlements, paidOut]
  refine ⟨solvent.toSettling.unsettling kept, ?_, ?_, ?_, ?_, ?_⟩
  · intro mint member
    rw [kept.markets]
    rw [done.mints] at member
    rcases List.mem_append.mp member with old | new
    · exact solvent.mintsIn mint old
    · rw [List.mem_singleton.mp new]
      exact inside
  · intro t member ofMint
    rw [Table.size_of_append done.mints]
    rcases done.transactions t member with old | ⟨-, last⟩
    · exact Nat.lt_succ_of_lt (solvent.mintings t old ofMint)
    · omega
  · intro m x y pair
    rw [kept.outcomes] at pair
    have before := solvent.sets m x y pair
    simp only [openInterest_eq, total, madeMinted] at before ⊢
    rw [before.1, before.2]
    by_cases mine : i.marketId = m
    · subst mine
      have apart := fits.outcomes
      rcases binary with shape | shape <;>
      · rw [shape] at pair
        simp only [List.cons.injEq, and_true] at pair
        obtain ⟨rfl, rfl⟩ := pair
        simp [ofOutcome, apart, apart.symm]
    · simp [ofOutcome, mine]
  · intro assetId asset found' m
    rw [kept.assets] at found'
    obtain ⟨assetId', asset', named, taken | change⟩ := done.posted
    · -- the key of a mint that is only now numbered is not taken
      obtain ⟨t, member, key⟩ := taken
      have reference : Ledger.postKey t.referenceType t.referenceId =
        Ledger.postKey .completeSetMint c.exchange.mints.size := (sound.transactionKeys t member).symm.trans key
      obtain ⟨kind, number⟩ := Ledger.postKey_injective reference
      have := solvent.mintings t member kind
      omega
    · rw [found'] at named
      cases named
      rw [change, solvent.collateral assetId asset found' m, madeMinted, samePaid]
      by_cases mine : i.marketId = m
      · have cost : q * i.priceA + q * i.priceB = q := by rw [← mul_add, fits.prices, mul_one]
        simp only [mine, and_self, if_true, cost]
        ring
      · simp [mine]
  · intro m
    rw [samePaid, total, ofSettled_congr kept.rates, ← solvent.paid m]
    simp [ofSettled]

end Trading

section Markets

variable {c c' : Core}

theorem Solvent.listed (solvent : Solvent c) {markets : Table Market} {outcomes : Table MarketOutcome}
    (grows : c.exchange.markets.size ≤ markets.size)
    (decided : ∀ m, (∃ market, markets.get? m = some market ∧ market.isDecided = true) ↔
      ∃ market, c.exchange.markets.get? m = some market ∧ market.isDecided = true)
    (known : ∀ m < c.exchange.markets.size, outcomesOf outcomes m = outcomesOf c.exchange.outcomes m)
    (listed : ∀ outcome ∈ outcomes.rows, outcome.marketId < markets.size) :
    Solvent (outcomesField.set outcomes (marketsField.set markets c)) where
  outcomesIn := listed
  positionsIn position member := (solvent.positionsIn position member).trans_le grows
  decided m market found final := by
    -- the markets and their outcomes change, but not which markets have a decision
    obtain ⟨market', found', final'⟩ := (decided m).mp ⟨market, found, final⟩
    have same := known m (Table.get?_lt found')
    obtain ⟨winner, inside, rates⟩ := solvent.decided m market' found' final'
    exact ⟨winner, same.symm ▸ inside, rates⟩
  rated settlement member := (decided _).mpr (solvent.rated settlement member)
  settledIn position member settled := (decided _).mpr (solvent.settledIn position member settled)
  settledBy := solvent.settledBy
  settlements := solvent.settlements
  payouts := solvent.payouts
  mintsIn mint member := (solvent.mintsIn mint member).trans_le grows
  mintings := solvent.mintings
  sets m a b binary := by
    by_cases old : m < c.exchange.markets.size
    · exact solvent.sets m a b ((known m old).symm.trans binary)
    · -- a market that is only now listed has neither positions nor mints
      have none : ∀ o, openInterest c.exchange m o = 0 := by
        intro o
        refine sumWhere_eq_zero _ _ _ ?_
        intro position member
        have elsewhere : position.marketId ≠ m := by
          rintro rfl
          exact old (solvent.positionsIn position member)
        simp [share, elsewhere]
      have unminted : minted c.exchange m = 0 := by
        refine sumWhere_eq_zero _ _ _ ?_
        intro mint member
        have elsewhere : mint.marketId ≠ m := by
          rintro rfl
          exact old (solvent.mintsIn mint member)
        simp [share, elsewhere]
      exact ⟨(none a).trans unminted.symm, (none b).trans unminted.symm⟩
  collateral := solvent.collateral
  paid := solvent.paid

theorem Solvent.rewritten (solvent : Solvent c) {marketId : Nat} {market new : Market} {markets : Table Market}
    (found : c.exchange.markets.get? marketId = some market)
    (rows : markets.rows = c.exchange.markets.rows.set marketId new) (same : new.isDecided = market.isDecided) :
    Solvent (marketsField.set markets c) := by
  have inside := Table.get?_lt found
  refine solvent.listed (le_of_eq (Table.size_of_set rows).symm) ?_ (fun _ _ => rfl) ?_
  · intro m
    rw [Table.get?_of_set rows inside]
    by_cases this : m = marketId
    · subst this
      simp [found, same]
    · simp [this]
  · rw [Table.size_of_set rows]
    exact solvent.outcomesIn

theorem outcomesOf_append {outcomes outcomes' : Table MarketOutcome} {new : List MarketOutcome} {marketId m : Nat}
    (rows : outcomes'.rows = outcomes.rows ++ new) (mine : ∀ outcome ∈ new, outcome.marketId = marketId)
    (other : m ≠ marketId) : outcomesOf outcomes' m = outcomesOf outcomes m := by
  have none : ((new.zipIdx outcomes.rows.length).filter fun pair => decide (pair.1.marketId = m)) = [] := by
    refine List.filter_eq_nil_iff.mpr ?_
    intro pair member picked
    have inside : pair.1 ∈ new := by
      have := List.fst_mem_of_mem_zipIdx member
      exact this
    exact other ((of_decide_eq_true picked).symm.trans (mine pair.1 inside))
  simp [outcomesOf, Table.findMany, rows, List.zipIdx_append, none]

theorem Solvent.created (solvent : Solvent c) (done : MarketsService.Created c c') : Solvent c' := by
  obtain ⟨markets, outcomes, market, new, rfl, rows, draft, rows', mine⟩ := done.result
  have size := Table.size_of_append rows
  refine solvent.listed (by omega) ?_ ?_ ?_
  · intro m
    rw [Table.get?_of_append rows]
    by_cases this : m = c.exchange.markets.size
    · subst this
      have absent : c.exchange.markets.get? c.exchange.markets.size = none := List.getElem?_eq_none le_rfl
      simp [absent, Market.isDecided, draft]
    · simp [this]
  · intro m old
    exact outcomesOf_append rows' mine (Nat.ne_of_lt old)
  · intro outcome member
    rw [rows'] at member
    rcases List.mem_append.mp member with old | inside
    · have := solvent.outcomesIn outcome old
      omega
    · have := mine outcome inside
      omega

end Markets

end VerdictVaut
