import VerdictVaut.System.Charged
import VerdictVaut.Trading.Entered

set_option autoImplicit false

namespace VerdictVaut

open Relational Relational.Tx VerdictVaut.Core ExecutionCoordinator ResolutionService WithdrawalsService DepositsService

section Effects

variable {fees : FeeCalculator} {c c' : Core} {desk : Desk}

inductive LedgerEffect (fees : FeeCalculator) (c c' : Core) : Prop
  -- what a step of trading enters in the ledger
  | quiet (fills : c'.exchange.fills = c.exchange.fills) (mints : c'.exchange.mints = c.exchange.mints)
      (transactions : c'.ledger.transactions = c.ledger.transactions)
  | traded {i : ExecutionInstruction} {q : ℚ} {feeResult : FillFeeResult}
      (charged : feeResult = fees.calculateFillFee (fillFeeContext i q))
      (fills : c'.exchange.fills.rows =
        c.exchange.fills.rows ++ [fillRow i q (feeResult.buyerFee + feeResult.sellerFee)])
      (mints : c'.exchange.mints = c.exchange.mints)
      (entered : EnteredFor c.ledger c'.ledger (tradeInput c.exchange.fills.size i q feeResult))
  | minted {i : MintInstruction} {q : ℚ} (fills : c'.exchange.fills = c.exchange.fills)
      (mints : c'.exchange.mints.rows = c.exchange.mints.rows ++ [mintRow i q])
      (entered : EnteredFor c.ledger c'.ledger (mintInput c.exchange.mints.size i q))
  | paid {positionId : Nat} {position : Position} {payout : ℚ} (fills : c'.exchange.fills = c.exchange.fills)
      (mints : c'.exchange.mints = c.exchange.mints)
      (listed : ∃ settlement ∈ c'.exchange.positionSettlements.rows,
        settlement.positionId = positionId ∧ settlement.payoutAmount ≠ 0)
      (entered : EnteredFor c.ledger c'.ledger (SettlementService.payoutInput positionId position payout))

theorem settled_ledger (ordered : Ordered c) (payouts : Payouts c) {positionId : Nat} {position : Position}
    {rate : Settlement} {now : Time} (done : SettlementService.Settled c c' positionId position rate now) :
    LedgerEffect fees c c' := by
  obtain ⟨l, settlements, positions, transactionId, rfl, rows, -, moved, -, -, paid⟩ := done.result
  cases paid with
  | nothing zero same => exact .quiet rfl rfl (by rw [← same]; rfl)
  | replayed known =>
    -- a payout of this position would be that of a settled one
    obtain ⟨t, member, key⟩ := known
    have unpaid := payouts.unsettled positionId fun other found => by
      cases done.found.symm.trans found
      exact done.unsettled
    have inside := @Ledger.mem_transactionsFor _ ordered.sound _ member .position positionId key
    simp [unpaid] at inside
  | posted named nonzero effect =>
    have listed : SettlementService.settlementRow positionId position rate.payoutPerShare
        (SettlementService.computeSettlementPayout position.quantity rate.payoutPerShare) (some c.ledger.transactions.size) ∈
        settlements.rows := by
      rw [rows]
      exact List.mem_append_right _ List.mem_cons_self
    exact .paid rfl rfl ⟨_, listed, rfl, nonzero⟩ ⟨_, _, named, effect.entered ordered.sound (.refl tradingKinds _) rfl (moved.sound ordered.sound)
      (.refl _ _) rfl⟩

theorem QuietEffect.ledger (ordered : Ordered c) (payouts : Payouts c) (effect : QuietEffect c c') : LedgerEffect fees c c' := by
  cases effect with
  | unchanged same =>
    rw [same]
    exact .quiet rfl rfl rfl
  | placed fits listed done => exact .quiet done.fills done.mints done.transactions
  | ended done => exact .quiet done.fills done.mints done.transactions
  | restated plain done =>
    obtain ⟨markets, rfl, -⟩ := done.result
    exact .quiet rfl rfl rfl
  | closed running restated ended quiet =>
    obtain ⟨-, fills, mints, transactions, -⟩ := ended.frame
    obtain ⟨markets, rfl, -⟩ := restated.result
    exact .quiet fills mints transactions
  | created done =>
    obtain ⟨markets, outcomes, market, new, rfl, -⟩ := done.result
    exact .quiet rfl rfl rfl
  | resolved done =>
    obtain ⟨market, -, -, markets, resolutions, settlements, rfl, -⟩ := done.market
    exact .quiet rfl rfl rfl
  | settled done => exact settled_ledger ordered payouts done
  | finalized finished marked same =>
    rw [same]
    rcases marked with ⟨rfl, -⟩ | ⟨market, resolving, restated⟩
    · exact .quiet rfl rfl rfl
    · obtain ⟨markets, rfl, -⟩ := restated.result
      exact .quiet rfl rfl rfl

theorem FillsNamed.fresh (named : FillsNamed c) (sound : c.ledger.Sound) :
    ∀ t ∈ c.ledger.transactions.rows, t.idempotencyKey ≠ ⟨"trade", [c.exchange.fills.size]⟩ := by
  intro t member key
  have reference : Ledger.postKey t.referenceType t.referenceId = Ledger.postKey .fill c.exchange.fills.size :=
    (sound.transactionKeys t member).symm.trans key
  obtain ⟨kind, last⟩ := Ledger.postKey_injective reference
  exact absurd (named t member kind) (by omega)

theorem Solvent.freshMint (solvent : Solvent c) (sound : c.ledger.Sound) :
    ∀ t ∈ c.ledger.transactions.rows, t.idempotencyKey ≠ ⟨"mint", [c.exchange.mints.size]⟩ := by
  intro t member key
  have reference : Ledger.postKey t.referenceType t.referenceId = Ledger.postKey .completeSetMint c.exchange.mints.size :=
    (sound.transactionKeys t member).symm.trans key
  obtain ⟨kind, last⟩ := Ledger.postKey_injective reference
  exact absurd (solvent.mintings t member kind) (by omega)

theorem applyExecution_ledger (ordered : Ordered c) (named : FillsNamed c) {i : ExecutionInstruction} (fits : FillFits c i)
    (now : Time) {result : Option Nat} (done : (applyExecution fees now i).run c = .ok (result, c')) :
    LedgerEffect fees c c' := by
  obtain ⟨buy, sell, buyFound, sellFound, terms⟩ := fits
  obtain ⟨market, marketFound⟩ := ordered.market buyFound
  rw [← terms.buyMarket] at marketFound
  rcases run_applyExecution buyFound sellFound marketFound fees now with ⟨-, stale⟩ | ⟨fresh, ran⟩
  · rw [stale] at done
    cases done
    exact .quiet rfl rfl rfl
  · rw [ran] at done
    have sound := ordered.sound
    rcases executeFill_entered sound (named.fresh sound) done buyFound sellFound terms with rfl |
      ⟨feeResult, charged, fills, mints, entered⟩
    · exact .quiet rfl rfl rfl
    · exact .traded charged fills mints entered

theorem applyMintExecution_ledger (ordered : Ordered c) {i : MintInstruction} (fits : MintFits c i) (now : Time)
    {result : Option Nat} (done : (applyMintExecution now i).run c = .ok (result, c')) : LedgerEffect fees c c' := by
  obtain ⟨a, b, foundA, foundB, terms, -⟩ := fits
  obtain ⟨market, marketFound⟩ := ordered.market foundA
  rw [← terms.marketA] at marketFound
  rcases run_applyMintExecution foundA foundB marketFound now with ⟨-, stale⟩ | ⟨fresh, ran⟩
  · rw [stale] at done
    cases done
    exact .quiet rfl rfl rfl
  · rw [ran] at done
    have sound := ordered.sound
    rcases executeMint_entered sound (ordered.solvent.freshMint sound) done foundA foundB terms with rfl | ⟨fills, mints, entered⟩
    · exact .quiet rfl rfl rfl
    · exact .minted fills mints entered

theorem transact_ledger {α : Type} {body : Tx Core Fault α}
    (effect : ∀ a c', body.run c = .ok (a, c') → LedgerEffect fees c c') : LedgerEffect fees c (transact body c) := by
  rcases transact_cases body c with same | ⟨a, done⟩
  · rw [same]
    exact .quiet rfl rfl rfl
  · exact effect a _ done

theorem tradingStepUnder_ledger (reserve : fees.Reserves) (ordered : Ordered c) (payouts : Payouts c)
    (named : FillsNamed c) (fits : DeskFits c desk) (action : TradingAction) :
    LedgerEffect fees c (tradingStepUnder fees (c, desk) action).1 := by
  cases action with
  | createOrder k now sequence =>
    simp only [tradingStepUnder]
    split
    next placement listed =>
      refine transact_ledger fun _ _ done => ?_
      rcases OrdersService.create_ok reserve done with ⟨same, -⟩ | ⟨-, placed⟩
      · rw [same]
        exact .quiet rfl rfl rfl
      · exact .quiet placed.fills placed.mints placed.transactions
    next => exact .quiet rfl rfl rfl
  | applyExecution k now =>
    simp only [tradingStepUnder]
    split
    next i listed =>
      exact transact_ledger fun _ _ done =>
        applyExecution_ledger ordered named (fits.instructions i (List.mem_of_getElem? listed)) now done
    next => exact .quiet rfl rfl rfl
  | applyMintExecution k now =>
    simp only [tradingStepUnder, tradingStep]
    split
    next i listed =>
      exact transact_ledger fun _ _ done =>
        applyMintExecution_ledger ordered (fits.mintInstructions i (List.mem_of_getElem? listed)) now done
    next => exact .quiet rfl rfl rfl
  | _ => exact (tradingStep_quiet ordered fits rfl).ledger ordered payouts

end Effects

section Booked

def ofFeeRevenue (owner : AccountRef) (_assetId : Nat) : Bool := decide (owner = .house .feeRevenue)

def collectedFees (wallet : Wallet) : ℚ :=
  sumWhere (fun w => decide (w.status = .credited)) Withdrawal.fee wallet.withdrawals.rows

structure Booked (db : Db) : Prop where
  -- what the ledger says of the trades and of the fees
  fills : ∀ f, f < db.core.exchange.fills.size →
    ∃ t ∈ db.core.ledger.transactions.rows, t.referenceType = .fill ∧ t.referenceId = f
  orders : ∀ t ∈ db.core.ledger.transactions.rows, t.referenceType ≠ .order
  revenue : Ledger.held ofFeeRevenue db.core.ledger =
    sumWhere (fun _ => true) Fill.fee db.core.exchange.fills.rows + collectedFees db.wallet
  markets : ∀ m assetId, Ledger.balanceOf db.core.ledger (.market m) assetId ≠ 0 →
    ∃ asset, db.core.ledger.assets.find? Asset.isSettlementCurrency = some (assetId, asset)

variable {fees : FeeCalculator} {db db' : Db} {c c' : Core} {l l' : Ledger}

theorem posted_noFee {assetId : Nat} {postings : List Ledger.Posting}
    (none : ∀ posting ∈ postings, posting.account ≠ .house .feeRevenue) : Ledger.posted ofFeeRevenue assetId postings = 0 := by
  apply sumWhere_eq_zero
  intro posting member
  simp [share, ofFeeRevenue, none posting member]

theorem tradePostings_fee (i : ExecutionInstruction) (q price : ℚ) (feeResult : FillFeeResult) (assetId : Nat) :
    Ledger.posted ofFeeRevenue assetId (tradePostings i q price feeResult) = feeResult.buyerFee + feeResult.sellerFee := by
  by_cases free : feeResult.buyerFee + feeResult.sellerFee = 0
  · simp [Ledger.posted, tradePostings, share, ofFeeRevenue, free]
  · simp [Ledger.posted, tradePostings, share, ofFeeRevenue, free]

theorem capturePostings_fee (w : Withdrawal) (assetId : Nat) :
    Ledger.posted ofFeeRevenue assetId (capturePostings w) = w.fee := by
  by_cases free : w.fee = 0
  · simp [Ledger.posted, capturePostings, share, ofFeeRevenue, free]
  · simp [Ledger.posted, capturePostings, share, ofFeeRevenue, free]

theorem ExecutionCoordinator.EnteredFor.markets {input : String → Ledger.PostTransactionInput} (entered : EnteredFor l l' input)
    (assets : l'.assets = l.assets)
    (markets : ∀ m assetId, Ledger.balanceOf l (.market m) assetId ≠ 0 →
      ∃ asset, l.assets.find? Asset.isSettlementCurrency = some (assetId, asset)) (m assetId : Nat)
    (nonzero : Ledger.balanceOf l' (.market m) assetId ≠ 0) :
    ∃ asset, l'.assets.find? Asset.isSettlementCurrency = some (assetId, asset) := by
  obtain ⟨settlementId, asset, named, done⟩ := entered
  rw [assets]
  by_cases same : settlementId = assetId
  · rw [← same]
    exact ⟨asset, named⟩
  · apply markets m
    have elsewhere : Ledger.posted (Ledger.only (.market m) assetId) settlementId (input asset.symbol).postings = 0 := by
      apply sumWhere_eq_zero
      intro posting _
      simp [share, Ledger.only, same]
    rw [Ledger.balanceOf, done.held, elsewhere, add_zero] at nonzero
    exact nonzero

theorem ExecutionCoordinator.EnteredFor.old {input : String → Ledger.PostTransactionInput} (entered : EnteredFor l l' input)
    {t : LedgerTransaction} (member : t ∈ l.transactions.rows) : t ∈ l'.transactions.rows := by
  obtain ⟨assetId, asset, -, done⟩ := entered
  rw [done.transactions]
  exact List.mem_append_left _ member

theorem ExecutionCoordinator.EnteredFor.orders {input : String → Ledger.PostTransactionInput} (entered : EnteredFor l l' input)
    (other : ∀ symbol, (input symbol).referenceType ≠ .order)
    (orders : ∀ t ∈ l.transactions.rows, t.referenceType ≠ .order) : ∀ t ∈ l'.transactions.rows, t.referenceType ≠ .order := by
  intro t member
  obtain ⟨assetId, asset, -, done⟩ := entered
  rw [done.transactions] at member
  rcases List.mem_append.mp member with old | new
  · exact orders t old
  · rw [List.mem_singleton.mp new]
    exact other asset.symbol

theorem Booked.plain {input : String → Ledger.PostTransactionInput} (booked : Booked db)
    (entered : EnteredFor db.core.ledger c.ledger input) (assets : c.ledger.assets = db.core.ledger.assets)
    (fills : c.exchange.fills = db.core.exchange.fills) (other : ∀ symbol, (input symbol).referenceType ≠ .order)
    (none : ∀ symbol, ∀ posting ∈ (input symbol).postings, posting.account ≠ .house .feeRevenue) :
    Booked { db with core := c } := by
  refine ⟨?_, entered.orders other booked.orders, ?_, entered.markets assets booked.markets⟩
  · intro f inside
    change f < c.exchange.fills.size at inside
    rw [fills] at inside
    obtain ⟨t, member, about⟩ := booked.fills f inside
    exact ⟨t, entered.old member, about⟩
  · change Ledger.held _ c.ledger = sumWhere _ _ c.exchange.fills.rows + _
    obtain ⟨assetId, asset, -, done⟩ := entered
    rw [done.held, posted_noFee (none _), add_zero, booked.revenue, fills]

theorem Booked.traded (booked : Booked db) (sound : db.core.ledger.Sound)
    (moved : Ledger.Moved tradingKinds db.core.ledger c.ledger) (effect : LedgerEffect fees db.core c) :
    Booked { db with core := c } := by
  have assets := moved.assets
  cases effect with
  | quiet fills mints transactions =>
    have balances := moved.held_same transactions sound
    refine ⟨?_, ?_, ?_, ?_⟩
    · change ∀ f, f < c.exchange.fills.size → ∃ t ∈ c.ledger.transactions.rows, _
      rw [fills, transactions]
      exact booked.fills
    · change ∀ t ∈ c.ledger.transactions.rows, _
      rw [transactions]
      exact booked.orders
    · change Ledger.held _ c.ledger = sumWhere _ _ c.exchange.fills.rows + _
      rw [balances, fills]
      exact booked.revenue
    · intro m assetId nonzero
      change ∃ asset, c.ledger.assets.find? _ = _
      rw [assets]
      apply booked.markets m
      rw [Ledger.balanceOf, ← balances]
      exact nonzero
  | @traded i q feeResult charged fills mints entered =>
    have size := Table.size_of_append fills
    refine ⟨?_, entered.orders (fun _ => by simp [tradeInput]) booked.orders, ?_, entered.markets assets booked.markets⟩
    · intro f inside
      change f < c.exchange.fills.size at inside
      rw [size] at inside
      by_cases old : f < db.core.exchange.fills.size
      · obtain ⟨t, member, about⟩ := booked.fills f old
        exact ⟨t, entered.old member, about⟩
      · obtain rfl : f = db.core.exchange.fills.size := by omega
        obtain ⟨assetId, asset, -, done⟩ := entered
        refine ⟨(tradeInput db.core.exchange.fills.size i q feeResult asset.symbol).row assetId, ?_, rfl, rfl⟩
        change _ ∈ c.ledger.transactions.rows
        rw [done.transactions]
        exact List.mem_append_right _ List.mem_cons_self
    · change Ledger.held _ c.ledger = sumWhere _ _ c.exchange.fills.rows + _
      obtain ⟨assetId, asset, -, done⟩ := entered
      have fee : Ledger.posted ofFeeRevenue assetId (tradeInput db.core.exchange.fills.size i q feeResult asset.symbol).postings =
          feeResult.buyerFee + feeResult.sellerFee := tradePostings_fee _ _ _ _ _
      rw [done.held, fee, booked.revenue, fills, sumWhere_append, sumWhere_cons, sumWhere_nil]
      simp only [share, if_true, fillRow]
      ring
  | minted fills mints entered =>
    exact booked.plain entered assets fills (fun _ => by simp [mintInput]) (by simp [mintInput, mintPostings])
  | paid fills mints listed entered =>
    exact booked.plain entered assets fills (fun _ => by simp [SettlementService.payoutInput])
      (by simp [SettlementService.payoutInput, SettlementService.payoutPostings])

theorem Booked.framed (booked : Booked db) (frame : WalletFrame db db')
    (revenue : Ledger.held ofFeeRevenue db'.core.ledger =
      sumWhere (fun _ => true) Fill.fee db.core.exchange.fills.rows + collectedFees db'.wallet) : Booked db' := by
  -- the wallet trades nothing, and leaves the accounts of the markets alone
  obtain ⟨kind, walletKind, moved⟩ : ∃ kind, kind ≠ ReferenceType.order ∧ WalletMoved kind db.core.ledger db'.core.ledger := by
    rcases frame.moved with moved | moved
    · exact ⟨_, by decide, moved⟩
    · exact ⟨_, by decide, moved⟩
  obtain ⟨new, rows, -⟩ := moved.moved.transactions
  obtain ⟨l, same⟩ := frame.core
  have exchange : db'.core.exchange = db.core.exchange := by rw [same]
  refine ⟨?_, ?_, ?_, ?_⟩
  · rw [exchange]
    intro f inside
    obtain ⟨t, member, about⟩ := booked.fills f inside
    refine ⟨t, ?_, about⟩
    rw [rows]
    exact List.mem_append_left _ member
  · intro t member
    rcases walletMoved_elsewhere moved t member with old | mine
    · exact booked.orders t old
    · rw [mine]
      exact walletKind
  · rw [exchange]
    exact revenue
  · intro m assetId nonzero
    rw [moved.markets] at nonzero
    rw [moved.moved.assets]
    exact booked.markets m assetId nonzero

theorem collected_wrote {wallet wallet' : Wallet} {withdrawalId : Nat} {old new : Withdrawal}
    (found : wallet.withdrawals.get? withdrawalId = some old)
    (wrote : Table.Wrote wallet.withdrawals wallet'.withdrawals withdrawalId new) (uncredited : old.status ≠ .credited) :
    collectedFees wallet' = collectedFees wallet + if new.status = .credited then new.fee else 0 := by
  unfold collectedFees
  rw [wrote.rows_set found, sumWhere_set _ _ _ _ _ _ found]
  simp [share, uncredited]

theorem Booked.changed {operation : Operation} {withdrawalId : Nat} {old new : Withdrawal} {funds : Funds}
    (booked : Booked db) (custody : Custody db) (sound : db.core.ledger.Sound)
    (changed : Changed operation db db' withdrawalId old new funds) : Booked db' := by
  have effect : WalletEffect db db' := .changed changed
  apply booked.framed effect.frame
  have settled := custody.withdrawals withdrawalId old changed.found
  obtain ⟨r, -, status, -⟩ := settled.reservation
  obtain ⟨active, after⟩ := changed.moves.status status
  have uncredited : old.status ≠ .credited := by
    intro credited
    rw [active, credited] at status
    cases status
  have credits : new.status = .credited ↔ funds = .captured := by
    rw [← reservation_credited, after]
    cases funds <;> simp [Funds.status]
  obtain ⟨t, l, rfl, wrote, moved⟩ := changed.result
  have fees : collectedFees { db.wallet with withdrawals := t } =
      collectedFees db.wallet + if new.status = .credited then new.fee else 0 :=
    collected_wrote changed.found wrote uncredited
  change Ledger.held _ l = _ + collectedFees { db.wallet with withdrawals := t }
  rw [fees, ← add_assoc, ← booked.revenue]
  cases funds with
  | held =>
    obtain rfl : l = db.core.ledger := moved
    simp [credits]
  | released =>
    rw [moved.moved.moved.held_same moved.transactions sound]
    simp [credits]
  | captured =>
    obtain ⟨assetNetwork, asset, -, -, captured⟩ := moved
    rw [if_pos (credits.mpr rfl)]
    obtain ⟨l₁, before, transactions, ⟨-, stored, member, key⟩ | ⟨assetId, posted⟩⟩ := captured.posting
    · -- the withdrawal has no ledger transaction before it is credited
      have inside := @Ledger.mem_transactionsFor _ sound _ member .withdrawal withdrawalId key
      simp [settled.unpaid uncredited] at inside
    · have fee : Ledger.posted ofFeeRevenue assetId (captureInput withdrawalId new asset.symbol).postings = new.fee :=
        capturePostings_fee _ _
      rw [posted.held, fee, before.moved.held_same transactions sound]

theorem Booked.wallet (booked : Booked db) (custody : Custody db) (sound : db.core.ledger.Sound)
    (effect : WalletEffect db db') : Booked db' := by
  have frame := effect.frame
  cases effect with
  | unchanged same =>
    rw [same]
    exact booked
  | changed done => exact booked.changed custody sound done
  | requested fits done =>
    apply booked.framed frame
    obtain ⟨t, l, assetId, asset, rfl, wrote, moved, transactions, -⟩ := done.result
    have fees : collectedFees { db.wallet with withdrawals := t } = collectedFees db.wallet := by
      unfold collectedFees
      rw [wrote.rows_append]
      simp [share]
    change Ledger.held _ l = _ + collectedFees { db.wallet with withdrawals := t }
    rw [moved.moved.held_same transactions sound, booked.revenue, fees]
  | observed done =>
    apply booked.framed frame
    obtain ⟨t, l, rfl, -, ⟨-, -, posted, ran, -⟩ | ⟨-, rfl, -⟩⟩ := done.result
    · change Ledger.held _ l = _ + collectedFees db.wallet
      rcases Ledger.postTransaction_ok ran with ⟨-, rfl, -⟩ | ⟨-, -, assetId, effect⟩
      · exact booked.revenue
      · rw [effect.held, posted_noFee (by simp [creditInput]), add_zero]
        exact booked.revenue
    · exact booked.revenue
  | rejected found waiting same wrote =>
    apply booked.framed frame
    subst same
    exact booked.revenue

end Booked

section Mints

variable {c c' : Core}

def MintsBinary (c : Core) : Prop :=
  -- complete sets are minted in markets of two outcomes
  ∀ mint ∈ c.exchange.mints.rows, ∃ a b, outcomesOf c.exchange.outcomes mint.marketId = [a, b]

theorem TradingEffect.mints (effect : TradingEffect c c') : c'.exchange.mints.rows = c.exchange.mints.rows ∨
    ∃ i q a b, c'.exchange.mints.rows = c.exchange.mints.rows ++ [mintRow i q] ∧
      outcomesOf c.exchange.outcomes i.marketId = [a, b] := by
  cases effect with
  | unchanged same =>
    rw [same]
    exact .inl rfl
  | filled marketFound buyFound sellFound fits fresh done => exact .inl (by rw [done.mints])
  | minted marketFound foundA foundB fits binary fresh done =>
    rcases binary with first | second
    · exact .inr ⟨_, _, _, _, done.mints, first⟩
    · exact .inr ⟨_, _, _, _, done.mints, second⟩
  | placed fits listed done => exact .inl (by rw [done.mints])
  | ended done => exact .inl (by rw [done.mints])
  | restated plain done =>
    obtain ⟨markets, rfl, -⟩ := done.result
    exact .inl rfl
  | closed running restated ended quiet =>
    obtain ⟨-, -, mints, -⟩ := ended.frame
    obtain ⟨markets, rfl, -⟩ := restated.result
    exact .inl (by rw [mints]; rfl)
  | created done =>
    obtain ⟨markets, outcomes, market, new, rfl, -⟩ := done.result
    exact .inl rfl
  | resolved done =>
    obtain ⟨market, -, -, markets, resolutions, settlements, rfl, -⟩ := done.market
    exact .inl rfl
  | settled done =>
    obtain ⟨l, settlements, positions, entry, rfl, -⟩ := done.result
    exact .inl rfl
  | finalized finished marked same =>
    rw [same]
    rcases marked with ⟨rfl, -⟩ | ⟨market, resolving, restated⟩
    · exact .inl rfl
    · obtain ⟨markets, rfl, -⟩ := restated.result
      exact .inl rfl

theorem MintsBinary.traded (binary : MintsBinary c) (persists : Persists c c') (effect : TradingEffect c c') :
    MintsBinary c' := by
  have carried : ∀ m, (∃ a b, outcomesOf c.exchange.outcomes m = [a, b]) →
      ∃ a b, outcomesOf c'.exchange.outcomes m = [a, b] := by
    rintro m ⟨a, b, outcomes⟩
    exact ⟨a, b, (persists.outcomes m a (by simp [outcomes])).trans outcomes⟩
  intro mint member
  apply carried
  rcases effect.mints with same | ⟨i, q, a, b, rows, outcomes⟩
  · rw [same] at member
    exact binary mint member
  · rw [rows] at member
    rcases List.mem_append.mp member with old | new
    · exact binary mint old
    · rw [List.mem_singleton.mp new]
      exact ⟨a, b, outcomes⟩

end Mints

section Reached

variable {fees : FeeCalculator} {config : WalletConfig} {s : Platform}

theorem Booked.initial (seed : Seed) : Booked (Platform.initial seed).db := by
  refine ⟨?_, ?_, ?_, ?_⟩
  all_goals simp [Platform.initial, Seed.core, Seed.wallet, Ledger.initial, Table.size, Ledger.held, Ledger.balanceOf,
    collectedFees]

theorem Platform.ReachedUnder.booked (reserve : fees.Reserves) (reached : Platform.ReachedUnder fees config s) :
    Booked s.db := by
  refine Reachable.invariant (fun s => Booked s.db) ?_ ?_ reached
  · rintro _ ⟨seed, rfl⟩
    exact .initial seed
  · intro s action earlier booked
    have integrity := Platform.ReachedUnder.integrity reserve earlier
    obtain ⟨ordered, -, payouts⟩ := integrity.settleable
    cases action with
    | trading action =>
      have moved := ((tradingStepUnder_effect reserve ordered integrity.fits action).advances ordered).moved
      exact booked.traded ordered.sound moved (tradingStepUnder_ledger reserve ordered payouts
        (Platform.ReachedUnder.fillsNamed reserve earlier) integrity.fits action)
    | wallet action =>
      exact booked.wallet integrity.custody ordered.sound (Platform.walletStep_effect integrity action)

theorem Platform.ReachedUnder.mintsBinary (reserve : fees.Reserves) (reached : Platform.ReachedUnder fees config s) :
    MintsBinary s.db.core := by
  refine Reachable.invariant (fun s => MintsBinary s.db.core) ?_ ?_ reached
  · rintro _ ⟨seed, rfl⟩
    simp [MintsBinary, Platform.initial, Seed.core]
  · intro s action earlier binary
    have integrity := Platform.ReachedUnder.integrity reserve earlier
    cases action with
    | trading action =>
      have effect := tradingStepUnder_effect reserve integrity.settleable.ordered integrity.fits action
      exact binary.traded (effect.advances integrity.settleable.ordered).persists effect
    | wallet action =>
      obtain ⟨l, same⟩ := (Platform.walletStep_effect integrity action).frame.core
      change MintsBinary (s.walletStep config action).db.core
      rw [same]
      exact binary

end Reached

end VerdictVaut
