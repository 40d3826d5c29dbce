import VerdictVaut.System.Booked
import VerdictVaut.System.Replays
import VerdictVaut.Ledger.Journal

set_option autoImplicit false

namespace VerdictVaut

open Relational Relational.Tx VerdictVaut.Core ExecutionCoordinator ResolutionService WithdrawalsService DepositsService

section Rows

def Fill.instruction (fill : Fill) : ExecutionInstruction where
  -- the instruction that the row of a fill was written from
  idempotencyKey := fill.idempotencyKey
  marketId := fill.marketId
  outcomeId := fill.outcomeId
  buyOrderId := fill.buyOrderId
  sellOrderId := fill.sellOrderId
  makerOrderId := fill.makerOrderId
  takerOrderId := fill.takerOrderId
  buyerUserId := fill.buyerUserId
  sellerUserId := fill.sellerUserId
  price := fill.price
  quantity := fill.quantity

def CompleteSetMint.instruction (mint : CompleteSetMint) : MintInstruction where
  idempotencyKey := mint.idempotencyKey
  marketId := mint.marketId
  outcomeAId := mint.outcomeAId
  outcomeBId := mint.outcomeBId
  buyOrderBId := mint.buyOrderBId
  buyOrderAId := mint.buyOrderAId
  buyerAUserId := mint.buyerAUserId
  buyerBUserId := mint.buyerBUserId
  priceA := mint.priceA
  priceB := mint.priceB
  quantity := mint.quantity

-- what a row of each kind says was moved
def fillPostings (fees : FeeCalculator) (fill : Fill) : List Ledger.Posting :=
  tradePostings fill.instruction fill.quantity fill.price
    (fees.calculateFillFee (fillFeeContext fill.instruction fill.quantity))

def fillFee (fees : FeeCalculator) (fill : Fill) : ℚ :=
  let feeResult := fees.calculateFillFee (fillFeeContext fill.instruction fill.quantity)
  feeResult.buyerFee + feeResult.sellerFee

def setPostings (mint : CompleteSetMint) : List Ledger.Posting :=
  mintPostings mint.instruction mint.quantity

def settlementPostings (settlement : PositionSettlement) : List Ledger.Posting :=
  [{ account := .user settlement.userId, amount := settlement.payoutAmount },
    { account := .market settlement.marketId, amount := -settlement.payoutAmount }]

def creditPostings (deposit : Deposit) : List Ledger.Posting :=
  [{ account := .user deposit.userId, amount := deposit.amount },
    { account := .house .externalChain, amount := -deposit.amount }]

def isSettlementOf (positionId : Nat) (settlement : PositionSettlement) : Bool :=
  decide (settlement.positionId = positionId)

def postingsOf (fees : FeeCalculator) (db : Db) (t : LedgerTransaction) : List Ledger.Posting :=
  -- the postings of the row that a ledger transaction is about
  match t.referenceType with
  | .fill => ((db.core.exchange.fills.get? t.referenceId).map (fillPostings fees)).getD []
  | .completeSetMint => ((db.core.exchange.mints.get? t.referenceId).map setPostings).getD []
  | .position =>
    ((db.core.exchange.positionSettlements.find? (isSettlementOf t.referenceId)).map fun found =>
      settlementPostings found.2).getD []
  | .deposit => ((db.wallet.deposits.get? t.referenceId).map creditPostings).getD []
  | .withdrawal => ((db.wallet.withdrawals.get? t.referenceId).map capturePostings).getD []
  | .order => []

def MovesMoney (db : Db) : ReferenceType → Nat → Prop
  -- the row behind a reference has moved money
  | .fill, id => id < db.core.exchange.fills.size
  | .completeSetMint, id => id < db.core.exchange.mints.size
  | .position, id => ∃ settlement ∈ db.core.exchange.positionSettlements.rows,
      settlement.positionId = id ∧ settlement.payoutAmount ≠ 0
  | .deposit, id => ∃ deposit, db.wallet.deposits.get? id = some deposit ∧ deposit.status = .credited
  | .withdrawal, id => ∃ w, db.wallet.withdrawals.get? id = some w ∧ w.status = .credited
  | .order, _ => False

end Rows

section Invariant

variable {fees : FeeCalculator} {db db' : Db} {c c' : Core}

/-- What is behind a stored transaction: the row that paid it out, and the asset that it moves. -/
structure Stored (db : Db) (t : LedgerTransaction) : Prop where
  payout : t.referenceType = .position → ∃ settlement ∈ db.core.exchange.positionSettlements.rows,
    settlement.positionId = t.referenceId ∧ settlement.payoutAmount ≠ 0
  settlementAsset : tradingKinds t.referenceType = true →
    ∃ asset, db.core.ledger.assets.find? Asset.isSettlementCurrency = some (t.assetId, asset)
  networkAsset : t.referenceType = .withdrawal → ∃ w assetNetwork,
    db.wallet.withdrawals.get? t.referenceId = some w ∧
    db.wallet.assetNetworks.get? w.assetNetworkId = some assetNetwork ∧ t.assetId = assetNetwork.assetId

structure Journal (fees : FeeCalculator) (db : Db) : Prop where
  fills : Ledger.Posts db.core.ledger .fill db.core.exchange.fills (fillPostings fees)
  mints : Ledger.Posts db.core.ledger .completeSetMint db.core.exchange.mints setPostings
  charged : ∀ fill ∈ db.core.exchange.fills.rows, fill.fee = fillFee fees fill
  stored : ∀ t ∈ db.core.ledger.transactions.rows, Stored db t

theorem Stored.carried {t : LedgerTransaction} (stored : Stored db t)
    (kept : ∀ settlement ∈ db.core.exchange.positionSettlements.rows, settlement ∈ db'.core.exchange.positionSettlements.rows)
    (assets : db'.core.ledger.assets = db.core.ledger.assets)
    (withdrawals : Table.Carries WithdrawalsService.terms db.wallet.withdrawals db'.wallet.withdrawals)
    (networks : db'.wallet.assetNetworks = db.wallet.assetNetworks) : Stored db' t where
  payout kind := by
    obtain ⟨settlement, listed, about⟩ := stored.payout kind
    exact ⟨settlement, kept settlement listed, about⟩
  settlementAsset kind := by
    rw [assets]
    exact stored.settlementAsset kind
  networkAsset kind := by
    obtain ⟨w, assetNetwork, found, network, ofAsset⟩ := stored.networkAsset kind
    obtain ⟨w', found', columns⟩ := withdrawals _ _ found
    simp only [WithdrawalsService.terms, Prod.mk.injEq] at columns
    refine ⟨w', assetNetwork, found', ?_, ofAsset⟩
    rw [networks, columns.2.1]
    exact network

theorem fillPostings_row (i : ExecutionInstruction) (q fee : ℚ) :
    fillPostings fees (fillRow i q fee) = tradePostings i q i.price (fees.calculateFillFee (fillFeeContext i q)) := rfl

theorem setPostings_row (i : MintInstruction) (q : ℚ) : setPostings (mintRow i q) = mintPostings i q := rfl

theorem FillsNamed.unposted (named : FillsNamed c) : c.ledger.transactionsFor .fill c.exchange.fills.size = [] := by
  apply List.filter_eq_nil_iff.mpr
  intro t member picked
  simp only [Bool.and_eq_true, decide_eq_true_eq] at picked
  have inside := named t member picked.1
  omega

theorem Solvent.unposted (solvent : Solvent c) : c.ledger.transactionsFor .completeSetMint c.exchange.mints.size = [] := by
  apply List.filter_eq_nil_iff.mpr
  intro t member picked
  simp only [Bool.and_eq_true, decide_eq_true_eq] at picked
  have inside := solvent.mintings t member picked.1
  omega

theorem Journal.initial (seed : Seed) : Journal fees (Platform.initial seed).db := by
  refine ⟨?_, ?_, ?_, ?_⟩
  · intro id row found
    simp [Platform.initial, Seed.core, Table.get?, Table.empty] at found
  · intro id row found
    simp [Platform.initial, Seed.core, Table.get?, Table.empty] at found
  · simp [Platform.initial, Seed.core]
  · simp [Platform.initial, Seed.core, Ledger.initial]

theorem ExecutionCoordinator.EnteredFor.member {l l' : Ledger} {input : String → Ledger.PostTransactionInput}
    (entered : EnteredFor l l' input) {t : LedgerTransaction} (member : t ∈ l'.transactions.rows) :
    t ∈ l.transactions.rows ∨ ∃ symbol asset, t.referenceType = (input symbol).referenceType ∧
      t.referenceId = (input symbol).referenceId ∧ l.assets.find? Asset.isSettlementCurrency = some (t.assetId, asset) := by
  obtain ⟨assetId, asset, named, done⟩ := entered
  rw [done.transactions] at member
  rcases List.mem_append.mp member with old | new
  · exact .inl old
  · obtain rfl := List.mem_singleton.mp new
    exact .inr ⟨asset.symbol, asset, rfl, rfl, named⟩

theorem TradingEffect.settlements (effect : TradingEffect c c') {settlement : PositionSettlement}
    (member : settlement ∈ c.exchange.positionSettlements.rows) : settlement ∈ c'.exchange.positionSettlements.rows := by
  cases effect with
  | unchanged same => rwa [same]
  | filled marketFound buyFound sellFound fits fresh done => rwa [done.static.positionSettlements]
  | minted marketFound foundA foundB fits binary fresh done => rwa [done.static.positionSettlements]
  | placed fits listed done => rwa [done.static.positionSettlements]
  | ended done => rwa [done.static.positionSettlements]
  | restated plain done =>
    obtain ⟨markets, rfl, -⟩ := done.result
    exact member
  | closed running restated ended quiet =>
    obtain ⟨static, -⟩ := ended.frame
    obtain ⟨markets, rfl, -⟩ := restated.result
    rwa [static.positionSettlements]
  | created done =>
    obtain ⟨markets, outcomes, market, new, rfl, -⟩ := done.result
    exact member
  | resolved done =>
    obtain ⟨market, -, -, markets, resolutions, settlements, rfl, -⟩ := done.market
    exact member
  | settled done =>
    obtain ⟨l, settlements, positions, transactionId, rfl, rows, -⟩ := done.result
    change settlement ∈ settlements.rows
    rw [rows]
    exact List.mem_append_left _ member
  | finalized finished marked same =>
    rw [same]
    rcases marked with ⟨rfl, -⟩ | ⟨market, resolving, restated⟩
    · exact member
    · obtain ⟨markets, rfl, -⟩ := restated.result
      exact member

theorem Journal.entered (journal : Journal fees db) {input : String → Ledger.PostTransactionInput}
    (entered : EnteredFor db.core.ledger c.ledger input) (assets : c.ledger.assets = db.core.ledger.assets)
    (kept : ∀ settlement ∈ db.core.exchange.positionSettlements.rows, settlement ∈ c.exchange.positionSettlements.rows)
    (apart : ∀ symbol, (input symbol).referenceType ≠ .withdrawal)
    (payout : ∀ t ∈ c.ledger.transactions.rows, (∃ symbol, t.referenceType = (input symbol).referenceType ∧
      t.referenceId = (input symbol).referenceId) → t.referenceType = .position →
      ∃ settlement ∈ c.exchange.positionSettlements.rows,
        settlement.positionId = t.referenceId ∧ settlement.payoutAmount ≠ 0) :
    ∀ t ∈ c.ledger.transactions.rows, Stored { db with core := c } t := by
  intro t member
  rcases entered.member member with old | ⟨symbol, asset, kind, id, named⟩
  · exact (journal.stored t old).carried kept assets (.refl _ _) rfl
  · refine ⟨payout t member ⟨symbol, kind, id⟩, fun _ => ⟨asset, ?_⟩, fun ofWithdrawal => ?_⟩
    · change c.ledger.assets.find? _ = _
      rw [assets]
      exact named
    · exact absurd (kind.symm.trans ofWithdrawal) (apart symbol)

theorem Journal.traded (journal : Journal fees db) (named : FillsNamed db.core) (solvent : Solvent db.core)
    (moved : Ledger.Moved tradingKinds db.core.ledger c.ledger) (effect : LedgerEffect fees db.core c)
    (kept : ∀ settlement ∈ db.core.exchange.positionSettlements.rows, settlement ∈ c.exchange.positionSettlements.rows) :
    Journal fees { db with core := c } := by
  have assets := moved.assets
  cases effect with
  | quiet fills mints transactions =>
    have same := @Ledger.transactionsFor_same _ _ transactions
    refine ⟨?_, ?_, ?_, ?_⟩
    · change Ledger.Posts c.ledger _ c.exchange.fills _
      rw [fills]
      exact journal.fills.moved moved fun id _ => same .fill id
    · change Ledger.Posts c.ledger _ c.exchange.mints _
      rw [mints]
      exact journal.mints.moved moved fun id _ => same .completeSetMint id
    · change ∀ fill ∈ c.exchange.fills.rows, _
      rw [fills]
      exact journal.charged
    · change ∀ t ∈ c.ledger.transactions.rows, _
      rw [transactions]
      exact fun t member => (journal.stored t member).carried kept assets (.refl _ _) rfl
  | @traded i q feeResult charged fills mints entered =>
    have stored := journal.entered entered assets kept (fun _ => by simp [tradeInput]) (by
      rintro t - ⟨symbol, kind, -⟩ position
      rw [position] at kind
      cases kind)
    obtain ⟨assetId, asset, -, done⟩ := entered
    refine ⟨?_, ?_, ?_, stored⟩
    · refine journal.fills.entered moved done rfl rfl named.unposted fills ?_
      rw [fillPostings_row, ← charged]
      rfl
    · change Ledger.Posts c.ledger _ c.exchange.mints _
      rw [mints]
      refine journal.mints.moved moved fun id _ => ?_
      simp [done.transactionsFor, tradeInput]
    · intro fill member
      change fill ∈ c.exchange.fills.rows at member
      rw [fills] at member
      rcases List.mem_append.mp member with old | new
      · exact journal.charged fill old
      · rw [List.mem_singleton.mp new, charged]
        rfl
  | minted fills mints entered =>
    have stored := journal.entered entered assets kept (fun _ => by simp [mintInput]) (by
      rintro t - ⟨symbol, kind, -⟩ position
      rw [position] at kind
      cases kind)
    obtain ⟨assetId, asset, -, done⟩ := entered
    refine ⟨?_, ?_, ?_, stored⟩
    · change Ledger.Posts c.ledger _ c.exchange.fills _
      rw [fills]
      refine journal.fills.moved moved fun id _ => ?_
      simp [done.transactionsFor, mintInput]
    · exact journal.mints.entered moved done rfl rfl solvent.unposted mints (setPostings_row _ _)
    · change ∀ fill ∈ c.exchange.fills.rows, _
      rw [fills]
      exact journal.charged
  | paid fills mints listed entered =>
    have stored := journal.entered entered assets kept (fun _ => by simp [SettlementService.payoutInput]) (by
      rintro t - ⟨symbol, -, id⟩ -
      obtain ⟨settlement, member, ofPosition, nonzero⟩ := listed
      exact ⟨settlement, member, ofPosition.trans id.symm, nonzero⟩)
    obtain ⟨assetId, asset, -, done⟩ := entered
    refine ⟨?_, ?_, ?_, stored⟩
    · change Ledger.Posts c.ledger _ c.exchange.fills _
      rw [fills]
      refine journal.fills.moved moved fun id _ => ?_
      simp [done.transactionsFor, SettlementService.payoutInput]
    · change Ledger.Posts c.ledger _ c.exchange.mints _
      rw [mints]
      refine journal.mints.moved moved fun id _ => ?_
      simp [done.transactionsFor, SettlementService.payoutInput]
    · change ∀ fill ∈ c.exchange.fills.rows, _
      rw [fills]
      exact journal.charged

theorem WalletEffect.posted (effect : WalletEffect db db') {t : LedgerTransaction}
    (member : t ∈ db'.core.ledger.transactions.rows) :
    t ∈ db.core.ledger.transactions.rows ∨ t.referenceType = .deposit ∨ ∃ w assetNetwork, t.referenceType = .withdrawal ∧ db'.wallet.withdrawals.get? t.referenceId = some w ∧
      db'.wallet.assetNetworks.get? w.assetNetworkId = some assetNetwork ∧ t.assetId = assetNetwork.assetId := by
  cases effect with
  | unchanged same =>
    rw [same] at member
    exact .inl member
  | @changed operation withdrawalId old new funds done =>
    obtain ⟨withdrawals, l, rfl, wrote, moved⟩ := done.result
    change t ∈ l.transactions.rows at member
    cases funds with
    | held =>
      obtain rfl : l = db.core.ledger := moved
      exact .inl member
    | released =>
      rw [moved.transactions] at member
      exact .inl member
    | captured =>
      obtain ⟨assetNetwork, asset, network, ofAsset, captured⟩ := moved
      obtain ⟨l₁, before, transactions, ⟨rfl, -⟩ | ⟨assetId, posted⟩⟩ := captured.posting
      · rw [transactions] at member
        exact .inl member
      · rw [posted.transactions, transactions] at member
        rcases List.mem_append.mp member with earlier | last
        · exact .inl earlier
        · obtain rfl := List.mem_singleton.mp last
          refine .inr (.inr ⟨new, assetNetwork, rfl, wrote.get, network, ?_⟩)
          -- the symbol that the posting looks up is the asset's own
          obtain ⟨row, found⟩ := posted.asset
          rw [before.moved.assets] at found
          have unique := Table.find?_of_unique ofAsset (decide_eq_true rfl) WithdrawalsService.symbol_clash
          rw [captureInput] at found
          rw [found] at unique
          exact congrArg Prod.fst (Option.some.inj unique)
  | requested fits done =>
    obtain ⟨withdrawals, l, assetId, asset, rfl, -, -, transactions, -⟩ := done.result
    change t ∈ l.transactions.rows at member
    rw [transactions] at member
    exact .inl member
  | observed done =>
    exact (walletMoved_elsewhere done.ledger.1 t member).imp id .inl
  | rejected found waiting same wrote =>
    subst same
    exact .inl member

theorem Journal.wallet (journal : Journal fees db) (effect : WalletEffect db db') : Journal fees db' := by
  have frame := effect.frame
  have withdrawals := effect.kept.withdrawals
  obtain ⟨l, same⟩ := frame.core
  have exchange : db'.core.exchange = db.core.exchange := by rw [same]
  obtain ⟨kind, apart, moved⟩ : ∃ kind, tradingKinds kind = false ∧ WalletMoved kind db.core.ledger db'.core.ledger := by
    rcases frame.moved with moved | moved
    · exact ⟨_, rfl, moved⟩
    · exact ⟨_, rfl, moved⟩
  have outside : ∀ type, tradingKinds type = true → onlyKind kind type = false := by
    intro type mine
    apply decide_eq_false
    rintro rfl
    rw [mine] at apart
    cases apart
  refine ⟨?_, ?_, ?_, ?_⟩
  · rw [exchange]
    exact journal.fills.moved moved.moved fun id _ => moved.moved.transactionsFor id (outside _ rfl)
  · rw [exchange]
    exact journal.mints.moved moved.moved fun id _ => moved.moved.transactionsFor id (outside _ rfl)
  · rw [exchange]
    exact journal.charged
  · intro t member
    rcases effect.posted member with old | kind | ⟨w, assetNetwork, kind, found, network, ofAsset⟩
    · exact (journal.stored t old).carried (by rw [exchange]; exact fun _ listed => listed) moved.moved.assets withdrawals
        frame.assetNetworks
    · exact ⟨by simp [kind], by simp [kind, tradingKinds], by simp [kind]⟩
    · exact ⟨by simp [kind], by simp [kind, tradingKinds], fun _ => ⟨w, assetNetwork, found, network, ofAsset⟩⟩

end Invariant

section Journaled

variable {fees : FeeCalculator} {db : Db}

/-- The ledger is the journal of the other tables: each row that has moved money has one transaction, of which the
entries are the row's postings, no other transaction is stored, and the balances are what the rows add up to. -/
structure Journaled (fees : FeeCalculator) (db : Db) : Prop where
  once : ∀ type id, (db.core.ledger.transactionsFor type id).length ≤ 1
  complete : ∀ type id, db.core.ledger.transactionsFor type id ≠ [] ↔ MovesMoney db type id
  entries : ∀ k t, db.core.ledger.transactions.get? k = some t → db.core.ledger.PostedAs k t (postingsOf fees db t)
  charged : ∀ fill ∈ db.core.exchange.fills.rows, fill.fee = fillFee fees fill
  stored : ∀ t ∈ db.core.ledger.transactions.rows, Stored db t
  balances : ∀ selected, Ledger.held selected db.core.ledger =
    sumWhere (fun _ => true) (fun t => Ledger.posted selected t.assetId (postingsOf fees db t))
      db.core.ledger.transactions.rows

theorem Ledger.Sound.once {l : Ledger} (sound : l.Sound) (type : ReferenceType) (id : Nat) :
    (l.transactionsFor type id).length ≤ 1 := by
  have keyed (t : LedgerTransaction) (member : t ∈ l.transactionsFor type id) : t.idempotencyKey = Ledger.postKey type id := by
    obtain ⟨inside, about⟩ := List.mem_filter.mp member
    simp only [Bool.and_eq_true, decide_eq_true_eq] at about
    rw [sound.transactionKeys t inside, about.1, about.2]
  have apart : (l.transactionsFor type id).Pairwise fun a b => RowSpec.clash a b = none :=
    l.transactions.distinct.sublist List.filter_sublist
  cases found : l.transactionsFor type id with
  | nil => simp
  | cons a rest =>
    cases rest with
    | nil => simp
    | cons b rest =>
      -- two transactions about one reference would have one key
      rw [found] at apart keyed
      have clash := (List.pairwise_cons.mp apart).1 b List.mem_cons_self
      simp [RowSpec.clash, keyed a (by simp), keyed b (by simp)] at clash

theorem find?_settlement {x : Exchange} {settlement : PositionSettlement} (member : settlement ∈ x.positionSettlements.rows) :
    (x.positionSettlements.find? (isSettlementOf settlement.positionId)).map Prod.snd = some settlement := by
  obtain ⟨i, found⟩ := Table.mem_iff_get?.mp member
  have own : isSettlementOf settlement.positionId settlement = true := decide_eq_true rfl
  have apart (a b : PositionSettlement) (first : isSettlementOf settlement.positionId a = true)
      (second : isSettlementOf settlement.positionId b = true) : RowSpec.clash a b ≠ none := by
    simp [RowSpec.clash, of_decide_eq_true first, of_decide_eq_true second]
  rw [Table.find?_of_unique found own apart]
  rfl

theorem PaidFor.settlementPostings {c : Core} {settlement : PositionSettlement} {position : Position}
    (paid : PaidFor c settlement position) :
    SettlementService.payoutPostings position settlement.payoutAmount = settlementPostings settlement := by
  simp [SettlementService.payoutPostings, VerdictVaut.settlementPostings, paid.columns.1, paid.columns.2.1]

variable {config : WalletConfig} {s : Platform}

theorem Platform.Integrity.entries (integrity : s.Integrity) (journal : Journal fees s.db) (booked : Booked s.db)
    (named : FillsNamed s.db.core) {k : Nat} {t : LedgerTransaction}
    (found : s.db.core.ledger.transactions.get? k = some t) :
    s.db.core.ledger.PostedAs k t (postingsOf fees s.db t) := by
  obtain ⟨ordered, -, payouts⟩ := integrity.settleable
  have member := Table.get?_mem found
  have inside : t ∈ s.db.core.ledger.transactionsFor t.referenceType t.referenceId :=
    List.mem_filter.mpr ⟨member, by simp⟩
  unfold postingsOf
  cases kind : t.referenceType with
  | fill =>
    have bound := named t member kind
    have row := List.getElem?_eq_getElem bound
    obtain ⟨k', t', one, posted⟩ := journal.fills _ _ row
    rw [← kind] at one
    simp only [Table.get?, row, Option.map_some, Option.getD_some]
    exact posted.unique one found
  | completeSetMint =>
    have bound := ordered.solvent.mintings t member kind
    have row := List.getElem?_eq_getElem bound
    obtain ⟨k', t', one, posted⟩ := journal.mints _ _ row
    rw [← kind] at one
    simp only [Table.get?, row, Option.map_some, Option.getD_some]
    exact posted.unique one found
  | position =>
    obtain ⟨position, at_, settled⟩ := ordered.solvent.payouts t member kind
    obtain ⟨settlement, listed, ofPosition⟩ := (ordered.solvent.settledBy _ _ at_).mp settled
    obtain ⟨position', -, -, paid⟩ := payouts.settled settlement listed
    have posting := paid.posting
    rw [ofPosition, ← kind] at posting
    rcases posting with ⟨-, none⟩ | ⟨k', t', -, one, -, posted⟩
    · simp [none] at inside
    · obtain ⟨⟨i, row⟩, first, rfl⟩ := Option.map_eq_some_iff.mp (find?_settlement listed)
      rw [ofPosition] at first
      rw [paid.settlementPostings] at posted
      simp only [first, Option.map_some, Option.getD_some]
      exact posted.unique one found
  | deposit =>
    by_cases credited : ∃ deposit, s.db.wallet.deposits.get? t.referenceId = some deposit ∧ deposit.status = .credited
    · obtain ⟨deposit, row, status⟩ := credited
      obtain ⟨k', t', -, one, -, posted⟩ := (integrity.crediting.credited _ _ row status).posted
      rw [← kind] at one
      simp only [row, Option.map_some, Option.getD_some]
      exact posted.unique one found
    · have none := integrity.crediting.uncredited t.referenceId fun deposit row status => credited ⟨deposit, row, status⟩
      rw [kind, none] at inside
      cases inside
  | withdrawal =>
    by_cases bound : t.referenceId < s.db.wallet.withdrawals.size
    · have row := List.getElem?_eq_getElem bound
      have settled := integrity.custody.withdrawals _ _ row
      by_cases credited : s.db.wallet.withdrawals.rows[t.referenceId].status = .credited
      · obtain ⟨k', t', one, -, posted⟩ := (settled.paid credited).posted
        rw [← kind] at one
        simp only [Table.get?, row, Option.map_some, Option.getD_some]
        exact posted.unique one found
      · rw [kind, settled.unpaid credited] at inside
        cases inside
    · rw [kind, integrity.custody.noTransaction _ (Nat.le_of_not_lt bound)] at inside
      cases inside
  | order => exact absurd kind (booked.orders t member)

theorem Platform.Integrity.complete (integrity : s.Integrity) (journal : Journal fees s.db) (booked : Booked s.db)
    (named : FillsNamed s.db.core) (type : ReferenceType) (id : Nat) :
    s.db.core.ledger.transactionsFor type id ≠ [] ↔ MovesMoney s.db type id := by
  obtain ⟨ordered, -, payouts⟩ := integrity.settleable
  constructor
  · intro some_
    obtain ⟨t, inside⟩ := List.exists_mem_of_ne_nil _ some_
    obtain ⟨member, about⟩ := List.mem_filter.mp inside
    simp only [Bool.and_eq_true, decide_eq_true_eq] at about
    obtain ⟨kind, rfl⟩ := about
    cases type with
    | fill => exact named t member kind
    | completeSetMint => exact ordered.solvent.mintings t member kind
    | position => exact (journal.stored t member).payout kind
    | deposit =>
      by_contra uncredited
      apply some_
      exact integrity.crediting.uncredited _ fun deposit row status => uncredited ⟨deposit, row, status⟩
    | withdrawal =>
      by_cases bound : t.referenceId < s.db.wallet.withdrawals.size
      · have row := List.getElem?_eq_getElem bound
        refine ⟨_, row, ?_⟩
        by_contra uncredited
        exact some_ ((integrity.custody.withdrawals _ _ row).unpaid uncredited)
      · exact absurd (integrity.custody.noTransaction _ (Nat.le_of_not_lt bound)) some_
    | order => exact absurd kind (booked.orders t member)
  · intro moves
    cases type with
    | fill =>
      obtain ⟨k, t, one, -⟩ := journal.fills _ _ (List.getElem?_eq_getElem moves)
      simp [one]
    | completeSetMint =>
      obtain ⟨k, t, one, -⟩ := journal.mints _ _ (List.getElem?_eq_getElem moves)
      simp [one]
    | position =>
      obtain ⟨settlement, listed, rfl, nonzero⟩ := moves
      obtain ⟨position', -, -, paid⟩ := payouts.settled settlement listed
      rcases paid.posting with ⟨zero, -⟩ | ⟨k, t, -, one, -⟩
      · exact absurd zero nonzero
      · simp [one]
    | deposit =>
      obtain ⟨deposit, row, status⟩ := moves
      obtain ⟨k, t, -, one, -⟩ := (integrity.crediting.credited _ _ row status).posted
      simp [one]
    | withdrawal =>
      obtain ⟨w, row, status⟩ := moves
      obtain ⟨k, t, one, -⟩ := ((integrity.custody.withdrawals _ _ row).paid status).posted
      simp [one]
    | order => cases moves

end Journaled

section Reached

variable {fees : FeeCalculator} {config : WalletConfig} {s : Platform}

theorem Platform.ReachedUnder.journal (reserve : fees.Reserves) (reached : Platform.ReachedUnder fees config s) :
    Journal fees s.db := by
  refine Reachable.invariant (fun s => Journal fees s.db) ?_ ?_ reached
  · rintro _ ⟨seed, rfl⟩
    exact .initial seed
  · intro s action earlier journal
    have integrity := Platform.ReachedUnder.integrity reserve earlier
    have named := Platform.ReachedUnder.fillsNamed reserve earlier
    obtain ⟨ordered, -, payouts⟩ := integrity.settleable
    cases action with
    | trading action =>
      have effect := tradingStepUnder_effect reserve ordered integrity.fits action
      exact journal.traded named ordered.solvent (effect.advances ordered).moved
        (tradingStepUnder_ledger reserve ordered payouts named integrity.fits action) fun _ => effect.settlements
    | wallet action => exact journal.wallet (Platform.walletStep_effect integrity action)

theorem Platform.Integrity.journaled (integrity : s.Integrity) (journal : Journal fees s.db) (booked : Booked s.db)
    (named : FillsNamed s.db.core) : Journaled fees s.db := by
  have sound := integrity.settleable.ordered.sound
  have entries := fun k t => @Platform.Integrity.entries fees s integrity journal booked named k t
  exact
    { once := sound.once
      complete := integrity.complete journal booked named
      entries := entries
      charged := journal.charged
      stored := journal.stored
      balances := fun _ => Ledger.held_transactions sound.books _ entries }

theorem reached_journaled (reserve : fees.Reserves) (reached : Platform.ReachedUnder fees config s) :
    Journaled fees s.db := by
  have integrity := Platform.ReachedUnder.integrity reserve reached
  have journal := Platform.ReachedUnder.journal reserve reached
  have booked := Platform.ReachedUnder.booked reserve reached
  exact integrity.journaled journal booked (Platform.ReachedUnder.fillsNamed reserve reached)

/-- A deposit for each of two traders, a mint, and a sale that is charged a fee of one percent. -/
theorem chargedSale_journaled :
    (Platform.afterUnder percentFees (chargedSale 100 ++ [.trading (.applyExecution 0 0)])).db.core.ledger.transactions.size =
      4 ∧
    Journaled percentFees (Platform.afterUnder percentFees (chargedSale 100 ++ [.trading (.applyExecution 0 0)])).db :=
  ⟨by decide +kernel, reached_journaled percentFees_funded.reserves (Reachable.foldl (.refl ⟨.sample, rfl⟩) _)⟩

end Reached

end VerdictVaut
