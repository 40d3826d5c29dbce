import VerdictVaut.System.Integrity
import VerdictVaut.System.Matching

set_option autoImplicit false

namespace VerdictVaut

open Relational Relational.Tx VerdictVaut.Core ExecutionCoordinator

section Steps

def tradingStepUnder (fees : FeeCalculator) (s : Core × Desk) : TradingAction → Core × Desk
  -- the steps of trading where orders are placed and executed under any fee calculator
  | .createOrder k now sequence =>
    match s.2.placements[k]? with
    | some placement => (transact (OrdersService.create fees now placement sequence) s.1, s.2)
    | none => s
  | .applyExecution k now =>
    match s.2.instructions[k]? with
    | some instruction => (transact (ExecutionCoordinator.applyExecution fees now instruction) s.1, s.2)
    | none => s
  | action => tradingStep s action

def Platform.stepUnder (fees : FeeCalculator) (config : WalletConfig) (s : Platform) : Action → Platform
  | .trading action =>
    let (core, desk) := tradingStepUnder fees (s.db.core, s.desk) action
    { s with db := { s.db with core := core }, desk := desk }
  | .wallet action => s.walletStep config action

def Platform.ReachedUnder (fees : FeeCalculator) (config : WalletConfig) : Platform → Prop :=
  Reachable (fun s => ∃ seed, s = initial seed) (stepUnder fees config)

def FeeCalculator.Reserves (fees : FeeCalculator) : Prop :=
  -- what is reserved for fees is never negative
  ∀ context : FeeContext, 0 < context.quantity → 0 ≤ fees.estimateBuyReserveFee context

/-- No negative fee, and a reserve that covers the buyer's fees over any split of the order into fills. -/
structure Funded (fees : FeeCalculator) : Prop where
  nonneg : ∀ context : FillFeeContext, 0 < context.quantity →
    0 ≤ (fees.calculateFillFee context).buyerFee ∧ 0 ≤ (fees.calculateFillFee context).sellerFee
  covers : ∀ (order : FeeContext) (fills : List FillFeeContext),
    (∀ fill ∈ fills, fill.marketId = order.marketId ∧ fill.outcomeId = order.outcomeId ∧ 0 < fill.quantity ∧
      0 < fill.price ∧ fill.price ≤ order.price) →
    (fills.map fun fill => fill.quantity).sum ≤ order.quantity →
    (fills.map fun fill => (fees.calculateFillFee fill).buyerFee).sum ≤ fees.estimateBuyReserveFee order

variable {fees : FeeCalculator} {config : WalletConfig} {c c' : Core} {desk : Desk} {s : Platform}

theorem Funded.reserves (funded : Funded fees) : fees.Reserves := by
  intro context positive
  simpa using funded.covers context [] (by simp) (by simpa using positive.le)

theorem tradingStepUnder_zero (s : Core × Desk) (action : TradingAction) :
    tradingStepUnder zeroFeeCalculator s action = tradingStep s action := by
  cases action <;> rfl

theorem Platform.stepUnder_zero (s : Platform) (action : Action) :
    s.stepUnder zeroFeeCalculator config action = s.step config action := by
  cases action with
  | trading action => simp only [Platform.stepUnder, Platform.step, tradingStepUnder_zero]
  | wallet action => rfl

theorem zeroFee_reserves : zeroFeeCalculator.Reserves := fun _ _ => le_rfl

theorem tradingStepUnder_effect (reserve : fees.Reserves) (ordered : Ordered c) (fits : DeskFits c desk)
    (action : TradingAction) : TradingEffect c (tradingStepUnder fees (c, desk) action).1 := by
  cases action with
  | createOrder k now sequence =>
    simp only [tradingStepUnder]
    split
    next placement listed =>
      obtain ⟨held, inMarket⟩ := fits.placements placement (List.mem_of_getElem? listed)
      refine transact_effect fun _ _ done => ?_
      rcases OrdersService.create_ok reserve done with ⟨same, -⟩ | ⟨-, placed⟩
      · exact .unchanged same
      · exact .placed held inMarket placed
    next => exact .unchanged rfl
  | applyExecution k now =>
    simp only [tradingStepUnder]
    split
    next i listed =>
      exact transact_effect fun _ _ done =>
        applyExecution_effect (fits.instructions i (List.mem_of_getElem? listed)) fees now done
    next => exact .unchanged rfl
  | _ => exact tradingStep_effect ordered fits _

theorem tradingStepUnder_fits (reserve : fees.Reserves) (ordered : Ordered c) (fits : DeskFits c desk)
    (action : TradingAction) :
    DeskFits (tradingStepUnder fees (c, desk) action).1 (tradingStepUnder fees (c, desk) action).2 := by
  have persists := fits.persist ((tradingStepUnder_effect reserve ordered fits action).advances ordered).persists
  cases action with
  | createOrder | applyExecution =>
    simp only [tradingStepUnder] at persists ⊢
    split at persists <;> exact persists
  | _ => exact tradingStep_fits ordered fits _

end Steps

section Named

variable {c c' : Core}

def FillsNamed (c : Core) : Prop :=
  -- every ledger transaction of a trade names a fill that is there
  ∀ t ∈ c.ledger.transactions.rows, t.referenceType = .fill → t.referenceId < c.exchange.fills.size

theorem FillsNamed.kept (named : FillsNamed c) (fills : c.exchange.fills.size ≤ c'.exchange.fills.size)
    (transactions : ∀ t ∈ c'.ledger.transactions.rows, t ∈ c.ledger.transactions.rows ∨ t.referenceType ≠ .fill ∨
      t.referenceId < c'.exchange.fills.size) : FillsNamed c' := by
  intro t member ofFill
  rcases transactions t member with old | other | inside
  · exact (named t old ofFill).trans_le fills
  · exact absurd ofFill other
  · exact inside

theorem FillsNamed.traded (named : FillsNamed c) (effect : TradingEffect c c') : FillsNamed c' := by
  cases effect with
  | unchanged same =>
    rw [same]
    exact named
  | filled marketFound buyFound sellFound fits fresh done =>
    obtain ⟨fee, fills⟩ := done.fills
    have size : c'.exchange.fills.size = c.exchange.fills.size + 1 := by simp [Table.size, fills]
    refine named.kept (by omega) fun t member => ?_
    rcases done.transactions t member with old | ⟨-, last⟩
    · exact .inl old
    · exact .inr (.inr (by omega))
  | minted marketFound foundA foundB fits binary fresh done =>
    refine named.kept (by rw [done.fills]) fun t member => ?_
    rcases done.transactions t member with old | ⟨mint, -⟩
    · exact .inl old
    · exact .inr (.inl (by simp [mint]))
  | placed fits listed done => exact named.kept (by rw [done.fills]) fun t member => .inl (done.transactions ▸ member)
  | ended done => exact named.kept (by rw [done.fills]) fun t member => .inl (done.transactions ▸ member)
  | restated plain done =>
    obtain ⟨markets, rfl, -⟩ := done.result
    exact named
  | closed running restated ended quiet =>
    obtain ⟨-, fills, -, transactions, -⟩ := ended.frame
    obtain ⟨markets, rfl, -⟩ := restated.result
    exact named.kept (by rw [fills]; exact le_rfl) fun t member => .inl (transactions ▸ member)
  | created done =>
    obtain ⟨markets, outcomes, market, new, rfl, -⟩ := done.result
    exact named
  | resolved done =>
    obtain ⟨market, -, -, markets, resolutions, settlements, rfl, -⟩ := done.market
    exact named
  | settled done =>
    obtain ⟨l, settlements, positions, entry, rfl, -, -, -, -, transactions, -⟩ := done.result
    refine named.kept le_rfl fun t member => ?_
    rcases transactions t member with old | ⟨payout, -⟩
    · exact .inl old
    · exact .inr (.inl (by simp [payout]))
  | finalized finished marked same =>
    rw [same]
    rcases marked with ⟨rfl, -⟩ | ⟨market, resolving, restated⟩
    · exact named
    · obtain ⟨markets, rfl, -⟩ := restated.result
      exact named

theorem FillsNamed.wallet {db db' : Db} (named : FillsNamed db.core) (frame : WalletFrame db db') : FillsNamed db'.core := by
  have moved := frame.moved
  obtain ⟨l, same⟩ := frame.core
  rw [same] at moved ⊢
  refine named.kept le_rfl fun t member => ?_
  rcases moved with moved | moved
  · exact (walletMoved_elsewhere moved t member).imp id fun kind => .inl (by simp [kind])
  · exact (walletMoved_elsewhere moved t member).imp id fun kind => .inl (by simp [kind])

end Named

section Reached

variable {fees : FeeCalculator} {config : WalletConfig} {s : Platform}

theorem Platform.Integrity.stepUnder (reserve : fees.Reserves) (integrity : s.Integrity) (action : Action) :
    (s.stepUnder fees config action).Integrity := by
  have ordered := integrity.settleable.ordered
  cases action with
  | trading action =>
    exact integrity.traded (tradingStepUnder_effect reserve ordered integrity.fits action)
      (tradingStepUnder_fits reserve ordered integrity.fits action)
  | wallet action => exact integrity.walletStep action

theorem Platform.ReachedUnder.integrity (reserve : fees.Reserves) (reached : Platform.ReachedUnder fees config s) :
    s.Integrity := by
  refine Reachable.invariant Platform.Integrity ?_ ?_ reached
  · rintro _ ⟨seed, rfl⟩
    exact .initial seed
  · exact fun s action _ integrity => integrity.stepUnder reserve action

theorem Platform.ReachedUnder.fillsNamed (reserve : fees.Reserves) (reached : Platform.ReachedUnder fees config s) :
    FillsNamed s.db.core := by
  refine Reachable.invariant (fun s => FillsNamed s.db.core) ?_ ?_ reached
  · rintro _ ⟨seed, rfl⟩
    simp [FillsNamed, Platform.initial, Seed.core, Ledger.initial]
  · intro s action earlier named
    have integrity := Platform.ReachedUnder.integrity reserve earlier
    cases action with
    | trading action =>
      exact named.traded (tradingStepUnder_effect reserve integrity.settleable.ordered integrity.fits action)
    | wallet action => exact named.wallet (Platform.walletStep_effect integrity action).frame

/-- An instruction of the engine that passes the fresh-state checks commits exactly when it was applied before, or
both traders can pay what it charges beyond its cost from what they have not reserved. -/
theorem applyExecution_commits_iff (funded : Funded fees) (reached : Platform.ReachedUnder fees config s)
    {i : ExecutionInstruction} (matched : i ∈ s.desk.instructions) (now : Time) {buy sell : Order} {market : Market}
    (buyFound : s.db.core.exchange.orders.get? i.buyOrderId = some buy)
    (sellFound : s.db.core.exchange.orders.get? i.sellOrderId = some sell)
    (marketFound : s.db.core.exchange.markets.get? i.marketId = some market)
    (fresh : Executable now market i.quantity buy sell) :
    (∃ result c, (runTransaction ledgerField (applyExecution fees now i)).run s.db.core = .ok (result, c)) ↔
      (∃ fill ∈ s.db.core.exchange.fills.rows, fill.idempotencyKey = i.idempotencyKey) ∨
        Affordable s.db.core i (minRemaining i.quantity buy sell)
          (fees.calculateFillFee (fillFeeContext i (minRemaining i.quantity buy sell))) := by
  have integrity := reached.integrity funded.reserves
  have named := reached.fillsNamed funded.reserves
  have ordered := integrity.settleable.ordered
  have fits := integrity.fits.instructions i matched
  obtain ⟨buy', sell', buyFound', sellFound', terms⟩ := fits
  cases buyFound.symm.trans buyFound'
  cases sellFound.symm.trans sellFound'
  obtain ⟨stale, -⟩ | ⟨-, ran⟩ := run_applyExecution buyFound sellFound marketFound fees now
  · exact absurd fresh stale
  constructor
  · rintro ⟨result, c, done⟩
    have done := runTransaction_ok done
    rw [ran] at done
    by_cases taken : ∃ fill ∈ s.db.core.exchange.fills.rows, fill.idempotencyKey = i.idempotencyKey
    · exact .inl taken
    · refine .inr (executeFill_affordable ordered.backing buyFound terms (fun fill member same => taken ⟨fill, member, same⟩)
        ?_ done)
      -- the ledger has no transaction yet under the number of the fill to come
      intro t member key
      have reference : Ledger.postKey t.referenceType t.referenceId = Ledger.postKey .fill s.db.core.exchange.fills.size :=
        (ordered.sound.transactionKeys t member).symm.trans key
      obtain ⟨kind, last⟩ := Ledger.postKey_injective reference
      exact absurd (named t member kind) (by omega)
  · intro condition
    have settles := executeFill_charged funded.nonneg ordered.backing ordered.sound.agrees buyFound sellFound terms fresh
      fun untaken => condition.resolve_left fun taken => by
        obtain ⟨fill, member, same⟩ := taken
        exact untaken fill member same
    obtain ⟨result, c', done⟩ := settles
    refine ⟨result, c', ?_⟩
    rcases executeFill_ok done buyFound sellFound terms with ⟨rfl, -⟩ | executed
    · exact ordered.commits (ran.trans done)
    · exact (ordered.filled marketFound buyFound sellFound terms fresh executed).ordered.commits (ran.trans done)

end Reached

section Sample

def percentFees : FeeCalculator where
  -- one percent of the quantity, from the buyer
  estimateBuyReserveFee context := context.quantity / 100
  calculateFillFee context := { buyerFee := context.quantity / 100, sellerFee := 0 }

def Platform.afterUnder (fees : FeeCalculator) (actions : List Action) : Platform :=
  actions.foldl (Platform.stepUnder fees .sample) (Platform.initial .sample)

/-- A sale of 10 minted shares to a buyer who has deposited this much and has paid 4 for the other outcome's shares. -/
def chargedSale (deposited : ℚ) : List Action :=
  [.deposit 1 "0x1" 100, .deposit 2 "0x2" deposited,
    .trading (.createMarket ⟨"final", "sports", none, ["YES", "NO"]⟩), .trading (.openMarket 0),
    .trading (.prepareOrder 0 1 ⟨0, 0, .buy, .limit, some (3 / 5), 10, none⟩ "a"), .trading (.createOrder 0 0 0),
    .trading (.prepareOrder 0 2 ⟨0, 1, .buy, .limit, some (2 / 5), 10, none⟩ "b"), .trading (.createOrder 1 0 1),
    .trading (.readIncoming 0 1), .trading (.readMintIncoming 0), .trading (.readMintInstructions 0),
    .trading (.applyMintExecution 0 0),
    .trading (.prepareOrder 0 1 ⟨0, 0, .sell, .limit, some (1 / 2), 10, none⟩ "c"), .trading (.createOrder 2 0 2),
    .trading (.prepareOrder 0 2 ⟨0, 0, .buy, .limit, some (1 / 2), 10, none⟩ "d"), .trading (.createOrder 3 0 3),
    .trading (.readIncoming 0 3), .trading (.readInstructions 1)]

def soldShares : ExecutionInstruction where
  idempotencyKey := ⟨"fill", [2, 3]⟩
  marketId := 0
  outcomeId := 0
  buyOrderId := 3
  sellOrderId := 2
  makerOrderId := 2
  takerOrderId := 3
  buyerUserId := 2
  sellerUserId := 1
  price := 1 / 2
  quantity := 10

def restingOrder (side : OrderSide) (userId : Nat) (clientOrderId : String) (sequence : Nat) : Order where
  userId := userId
  marketId := 0
  outcomeId := 0
  side := side
  type := .limit
  price := some (1 / 2)
  quantity := 10
  filledQuantity := 0
  remainingQuantity := 10
  status := .opened
  clientOrderId := clientOrderId
  sequence := sequence

theorem percentFees_funded : Funded percentFees where
  nonneg context positive := ⟨div_nonneg positive.le (by norm_num), le_rfl⟩
  covers order fills _ within := by
    have total : (fills.map fun fill => (percentFees.calculateFillFee fill).buyerFee).sum =
        (fills.map fun fill => fill.quantity).sum / 100 := by
      simp only [percentFees, div_eq_mul_inv, List.sum_map_mul_right]
    rw [total]
    exact div_le_div_of_nonneg_right within (by norm_num)

theorem chargedSale_reached (deposited : ℚ) :
    Platform.ReachedUnder percentFees .sample (Platform.afterUnder percentFees (chargedSale deposited)) :=
  Reachable.foldl (.refl ⟨.sample, rfl⟩) _

/-- The buyer has 91 left over: the fill goes through. -/
theorem fundedSale_commits : ∃ result c, (runTransaction ledgerField (applyExecution percentFees 0 soldShares)).run
    (Platform.afterUnder percentFees (chargedSale 100)).db.core = .ok (result, c) := by
  have matched : soldShares ∈ (Platform.afterUnder percentFees (chargedSale 100)).desk.instructions := by decide +kernel
  have buyFound : (Platform.afterUnder percentFees (chargedSale 100)).db.core.exchange.orders.get? soldShares.buyOrderId =
      some (restingOrder .buy 2 "d" 3) := by decide +kernel
  have sellFound : (Platform.afterUnder percentFees (chargedSale 100)).db.core.exchange.orders.get? soldShares.sellOrderId =
      some (restingOrder .sell 1 "c" 2) := by decide +kernel
  have marketFound : (Platform.afterUnder percentFees (chargedSale 100)).db.core.exchange.markets.get? soldShares.marketId =
      some ⟨"final", 0, .opened, none, none⟩ := by decide +kernel
  refine (applyExecution_commits_iff percentFees_funded (chargedSale_reached 100) matched 0 buyFound sellFound marketFound
    ⟨rfl, rfl, rfl, by decide +kernel⟩).mpr (.inr ?_)
  intro assetId asset found
  have settlement : (Platform.afterUnder percentFees (chargedSale 100)).db.core.ledger.assets.find?
      Asset.isSettlementCurrency = some (0, ⟨"USDC", 6, true⟩) := by decide +kernel
  cases settlement.symm.trans found
  decide +kernel

/-- The buyer's 5.1 are all reserved for this order, 5 for the shares and 0.1 for the fee: the debit of 5.1 leaves the
0.1 that stays reserved uncovered, and the fill fails at every attempt. -/
theorem tightSale_fails : Funded percentFees ∧
    soldShares ∈ (Platform.afterUnder percentFees (chargedSale (91 / 10))).desk.instructions ∧
    Executable 0 ⟨"final", 0, .opened, none, none⟩ soldShares.quantity (restingOrder .buy 2 "d" 3)
      (restingOrder .sell 1 "c" 2) ∧
    (Platform.afterUnder percentFees (chargedSale (91 / 10))).db.core.exchange.orders.get? soldShares.buyOrderId =
      some (restingOrder .buy 2 "d" 3) ∧
    (Platform.afterUnder percentFees (chargedSale (91 / 10))).db.core.exchange.orders.get? soldShares.sellOrderId =
      some (restingOrder .sell 1 "c" 2) ∧
    (Platform.afterUnder percentFees (chargedSale (91 / 10))).db.core.exchange.markets.get? soldShares.marketId =
      some ⟨"final", 0, .opened, none, none⟩ ∧
    ∀ result c, (runTransaction ledgerField (applyExecution percentFees 0 soldShares)).run
      (Platform.afterUnder percentFees (chargedSale (91 / 10))).db.core ≠ .ok (result, c) := by
  refine ⟨percentFees_funded, by decide +kernel, ⟨rfl, rfl, rfl, by decide +kernel⟩, by decide +kernel, by decide +kernel,
    by decide +kernel, ?_⟩
  have failed : ((runTransaction ledgerField (applyExecution percentFees 0 soldShares)).run
      (Platform.afterUnder percentFees (chargedSale (91 / 10))).db.core).toBool = false := by decide +kernel
  intro result c returned
  rw [returned] at failed
  cases failed

end Sample

end VerdictVaut
