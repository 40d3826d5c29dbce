import VerdictVaut.System.Booked
import VerdictVaut.System.WithdrawalRuns
import VerdictVaut.Reconciliation.Discrepancies

set_option autoImplicit false

namespace VerdictVaut

open Relational Relational.Tx VerdictVaut.Core

structure IntegrityResult where
  label : String
  passed : Bool
  deriving DecidableEq

namespace FinancialIntegrityChecks

section Checks

variable (l : Ledger) (x : Exchange) (wallet : Wallet) (discrepancies : Table ReconciliationDiscrepancy)

def unbalanced : List Nat :=
  -- the transactions whose entries do not sum to zero
  (List.range l.transactions.size).filter fun id =>
    decide (sumWhere (Ledger.ofTransaction id) LedgerEntry.amount l.entries.rows ≠ 0)

def negativeAccounts : List LedgerAccount :=
  l.accounts.rows.filter fun account => !account.owner.isHouse && (decide (account.cachedBalance < 0) ||
    decide (account.reservedBalance < 0) || decide (account.cachedBalance < account.reservedBalance))

def badReservations (reservations : Table Reservation) : List Reservation :=
  reservations.rows.filter fun r => decide (r.consumedAmount < 0) || decide (r.amount < r.consumedAmount)

def creditedDeposits : List Deposit :=
  wallet.deposits.rows.filter fun deposit => decide (deposit.status = .credited)

def missingLedgerRef : List Deposit := (creditedDeposits wallet).filter fun deposit => deposit.ledgerTransactionId.isNone

def settledPositions : Nat := (x.positions.rows.filter fun position => position.settledAt.isSome).length

def payoutMismatches : List PositionSettlement :=
  x.positionSettlements.rows.filter fun s => decide (s.quantity * s.payoutPerShare ≠ s.payoutAmount)

/-- `markets m JOIN ledger_accounts la ON la."marketId" = m.id`, RESOLVED and not empty. -/
def resolvedMarketsWithCollateral : List (Nat × ℚ) :=
  (x.markets.findMany fun market => decide (market.status = .resolved)).flatMap fun market =>
    (l.accounts.rows.filter fun account =>
      decide (account.owner = .market market.1) && decide (account.cachedBalance ≠ 0)).map fun account =>
        (market.1, account.cachedBalance)

def badWithdrawals : List Withdrawal :=
  wallet.withdrawals.rows.filter fun w =>
    decide (w.status ∈ [WithdrawalStatus.broadcast, .confirming, .confirmed, .credited]) && w.txHash.isNone

def badDiscrepancies : List ReconciliationDiscrepancy :=
  discrepancies.rows.filter fun row =>
    (decide (row.status ∈ [DiscrepancyStatus.resolved, .falsePositive]) &&
      (row.resolvedAt.isNone || row.resolvedByUserId.isNone)) ||
    (decide (row.status ∈ [DiscrepancyStatus.opened, .acknowledged]) &&
      (row.resolvedAt.isSome || row.resolvedByUserId.isSome))

/-- The accounts, or the positions, whose reserved column is not the sum over their ACTIVE reservations. -/
def reservedMismatches {H : Type} [Holder H] (s : Reserved H) : List Nat :=
  ((s.holders.findMany fun _ => true).filter fun holder => decide (Holder.reserved holder.2 ≠
    sumWhere (fun r => decide (r.holderId = holder.1) && decide (r.status = .active))
      (fun r => r.amount - r.consumedAmount) s.reservations.rows)).map Prod.fst

def fillsWithoutLedgerEntry : List Nat :=
  (List.range x.fills.size).filter fun id =>
    !l.transactions.rows.any fun t => decide (t.referenceType = .fill) && decide (t.referenceId = id)

def totalFillFees : ℚ := (x.fills.rows.map Fill.fee).sum

def totalFeeRevenue : ℚ :=
  sumWhere (fun account => decide (account.owner = .house .feeRevenue)) LedgerAccount.cachedBalance l.accounts.rows

def orphanFundReservations : List Reservation :=
  l.funds.reservations.rows.filter fun r => decide (r.status = .active) &&
    ((decide (r.referenceType = .order) && (x.orders.get? r.referenceId).isNone) ||
      (decide (r.referenceType = .withdrawal) && (wallet.withdrawals.get? r.referenceId).isNone))

def orphanPositionReservations : List Reservation :=
  x.shares.reservations.rows.filter fun r => decide (r.status = .active) && decide (r.referenceType = .order) &&
    (x.orders.get? r.referenceId).isNone

def orphanLedgerTransactions : List LedgerTransaction :=
  l.transactions.rows.filter fun t =>
    (decide (t.referenceType = .fill) && (x.fills.get? t.referenceId).isNone) ||
    (decide (t.referenceType = .completeSetMint) && (x.mints.get? t.referenceId).isNone) ||
    (decide (t.referenceType = .deposit) && (wallet.deposits.get? t.referenceId).isNone) ||
    (decide (t.referenceType = .withdrawal) && (wallet.withdrawals.get? t.referenceId).isNone) ||
    (decide (t.referenceType = .position) && (x.positions.get? t.referenceId).isNone) ||
    decide (t.referenceType ∉ [ReferenceType.fill, .completeSetMint, .deposit, .withdrawal, .position])

end Checks

def feeCheck (l : Ledger) (x : Exchange) : IntegrityResult where
  label := "total Fill.fee across every fill equals the FEE_REVENUE house account balance"
  passed := decide (totalFillFees x = totalFeeRevenue l)

def runIntegrityChecks (db : Db) (discrepancies : Table ReconciliationDiscrepancy) : List IntegrityResult :=
  let l := db.core.ledger
  let x := db.core.exchange
  [⟨"every ledger transaction balances to zero", (unbalanced l).isEmpty⟩,
    ⟨"no USER/MARKET ledger account violates the non-negative-balance invariant", (negativeAccounts l).isEmpty⟩,
    ⟨"every FundReservation's consumedAmount is within [0, amount]", (badReservations l.funds.reservations).isEmpty⟩,
    ⟨"every PositionReservation's consumedAmount is within [0, amount]", (badReservations x.shares.reservations).isEmpty⟩,
    ⟨"every CREDITED deposit has a ledgerTransactionId", (missingLedgerRef db.wallet).isEmpty⟩,
    ⟨"settled-position count matches PositionSettlement row count",
      decide (settledPositions x = x.positionSettlements.size)⟩,
    ⟨"every settlement's payoutAmount equals quantity * payoutPerShare", (payoutMismatches x).isEmpty⟩,
    ⟨"every RESOLVED market's collateral account reached exactly zero", (resolvedMarketsWithCollateral l x).isEmpty⟩,
    ⟨"every BROADCAST/CONFIRMING/CONFIRMED/CREDITED withdrawal has a real txHash", (badWithdrawals db.wallet).isEmpty⟩,
    ⟨"every ReconciliationDiscrepancy's resolution fields are consistent with its status",
      (badDiscrepancies discrepancies).isEmpty⟩,
    ⟨"every LedgerAccount.reservedBalance equals the sum of its ACTIVE FundReservations' unconsumed amounts",
      (reservedMismatches l.funds).isEmpty⟩,
    ⟨"every Position.reservedQuantity equals the sum of its ACTIVE PositionReservations' unconsumed amounts",
      (reservedMismatches x.shares).isEmpty⟩,
    ⟨"every Fill has a backing LedgerTransaction", (fillsWithoutLedgerEntry l x).isEmpty⟩,
    feeCheck l x,
    ⟨"every ACTIVE FundReservation references a real, still-existing Order or Withdrawal",
      (orphanFundReservations l x db.wallet).isEmpty⟩,
    ⟨"every ACTIVE PositionReservation references a real, still-existing Order", (orphanPositionReservations x).isEmpty⟩,
    ⟨"every LedgerTransaction references a real, still-existing Fill/CompleteSetMint/Deposit/Withdrawal/Position",
      (orphanLedgerTransactions l x db.wallet).isEmpty⟩]

/-- What the command line reports: `ALL CHECKS PASSED`. -/
def allPassed (results : List IntegrityResult) : Bool := results.all fun result => result.passed

section Passing

variable {c : Core} {db : Db} {l : Ledger} {x : Exchange} {wallet : Wallet}

-- the checks that restate a constraint of one table

theorem negativeAccounts_nil (l : Ledger) : negativeAccounts l = [] := by
  apply List.filter_eq_nil_iff.mpr
  intro account member bad
  simp only [Bool.and_eq_true, Bool.not_eq_true', Bool.or_eq_true, decide_eq_true_eq] at bad
  obtain ⟨owned, negative⟩ := bad
  have reserved := LedgerAccount.reserved_nonneg member
  obtain ⟨balance, covers⟩ := LedgerAccount.bounds member owned
  rcases negative with (low | low) | low
  · exact absurd balance (not_le.mpr low)
  · exact absurd reserved (not_le.mpr low)
  · exact absurd covers (not_le.mpr low)

theorem badReservations_nil (reservations : Table Reservation) : badReservations reservations = [] := by
  apply List.filter_eq_nil_iff.mpr
  intro r member bad
  simp only [Bool.or_eq_true, decide_eq_true_eq] at bad
  obtain ⟨-, consumed, within⟩ := Reservation.bounds member
  rcases bad with low | high
  · exact absurd consumed (not_le.mpr low)
  · exact absurd within (not_le.mpr high)

theorem payoutMismatches_nil (x : Exchange) : payoutMismatches x = [] := by
  apply List.filter_eq_nil_iff.mpr
  intro settlement member bad
  have valid := x.positionSettlements.checked settlement member
  simp only [RowSpec.check, Bool.and_eq_true, decide_eq_true_eq] at valid
  exact of_decide_eq_true bad valid.1.2.symm

theorem badWithdrawals_nil (wallet : Wallet) : badWithdrawals wallet = [] := by
  apply List.filter_eq_nil_iff.mpr
  intro w member bad
  simp only [Bool.and_eq_true, decide_eq_true_eq, Option.isNone_iff_eq_none] at bad
  have valid := wallet.withdrawals.checked w member
  simp [RowSpec.check, Withdrawal.isOnChain, bad.1, bad.2] at valid

theorem badDiscrepancies_nil (discrepancies : Table ReconciliationDiscrepancy) : badDiscrepancies discrepancies = [] := by
  apply List.filter_eq_nil_iff.mpr
  intro row member bad
  have valid := discrepancies.checked row member
  simp only [RowSpec.check, Bool.and_eq_true] at valid
  have columns := valid.2
  cases status : row.status with
  | opened | acknowledged | resolved | falsePositive =>
    cases at_ : row.resolvedAt <;> cases by_ : row.resolvedByUserId <;>
      simp [ReconciliationDiscrepancy.isOpen, status, at_, by_] at columns bad

-- the checks that compare the tables

theorem unbalanced_nil (books : l.Books) : unbalanced l = [] := by
  apply List.filter_eq_nil_iff.mpr
  intro id _ bad
  exact of_decide_eq_true bad (books.balanced id)

theorem missingLedgerRef_nil (crediting : DepositsService.Crediting db) : missingLedgerRef db.wallet = [] := by
  apply List.filter_eq_nil_iff.mpr
  intro deposit member bad
  obtain ⟨member, status⟩ := List.mem_filter.mp member
  obtain ⟨depositId, found⟩ := Table.mem_iff_get?.mp member
  obtain ⟨k, t, linked, -⟩ := (crediting.credited depositId deposit found (of_decide_eq_true status)).posted
  simp [linked] at bad

theorem reservedMismatches_nil {H : Type} [Holder H] {s : Reserved H} (agrees : s.Agrees) : reservedMismatches s = [] := by
  unfold reservedMismatches
  rw [List.map_eq_nil_iff]
  apply List.filter_eq_nil_iff.mpr
  intro holder member bad
  obtain ⟨found, -⟩ := Table.mem_findMany.mp member
  exact of_decide_eq_true bad (agrees.reserved _ _ found)

theorem fillsWithoutLedgerEntry_nil (booked : Booked db) :
    fillsWithoutLedgerEntry db.core.ledger db.core.exchange = [] := by
  apply List.filter_eq_nil_iff.mpr
  intro id inside bad
  obtain ⟨t, member, kind, about⟩ := booked.fills id (List.mem_range.mp inside)
  simp only [Bool.not_eq_true', List.any_eq_false] at bad
  exact bad t member (by simp [kind, about])

theorem orphanFundReservations_nil (backing : Backing db.core)
    (custody : WithdrawalsService.Custody db) :
    orphanFundReservations db.core.ledger db.core.exchange db.wallet = [] := by
  apply List.filter_eq_nil_iff.mpr
  intro r member bad
  simp only [Bool.and_eq_true, Bool.or_eq_true, decide_eq_true_eq, Option.isNone_iff_eq_none] at bad
  have mine : r ∈ db.core.ledger.funds.forRef r.referenceType r.referenceId :=
    List.mem_filter.mpr ⟨member, by simp [Reserved.isFor]⟩
  rcases bad.2 with ⟨kind, absent⟩ | ⟨kind, absent⟩
  · rw [kind, backing.noFunds _ (Table.size_le_iff.mpr absent)] at mine
    cases mine
  · rw [kind, custody.noReservation _ (Table.size_le_iff.mpr absent)] at mine
    cases mine

theorem orphanPositionReservations_nil (backing : Backing c) :
    orphanPositionReservations c.exchange = [] := by
  apply List.filter_eq_nil_iff.mpr
  intro r member bad
  simp only [Bool.and_eq_true, decide_eq_true_eq, Option.isNone_iff_eq_none] at bad
  have mine : r ∈ c.exchange.shares.forRef r.referenceType r.referenceId :=
    List.mem_filter.mpr ⟨member, by simp [Reserved.isFor]⟩
  rw [bad.1.2, backing.noShares _ (Table.size_le_iff.mpr bad.2)] at mine
  cases mine

theorem orphanLedgerTransactions_nil (named : FillsNamed db.core) (solvent : Solvent db.core)
    (crediting : DepositsService.Crediting db) (custody : WithdrawalsService.Custody db) (booked : Booked db) :
    orphanLedgerTransactions db.core.ledger db.core.exchange db.wallet = [] := by
  apply List.filter_eq_nil_iff.mpr
  intro t member bad
  have mine : t ∈ db.core.ledger.transactionsFor t.referenceType t.referenceId :=
    List.mem_filter.mpr ⟨member, by simp⟩
  cases kind : t.referenceType with
  | fill =>
    have beyond : db.core.exchange.fills.size ≤ t.referenceId := Table.size_le_iff.mpr (by simpa [kind] using bad)
    exact absurd (named t member kind) (not_lt.mpr beyond)
  | completeSetMint =>
    have beyond : db.core.exchange.mints.size ≤ t.referenceId := Table.size_le_iff.mpr (by simpa [kind] using bad)
    exact absurd (solvent.mintings t member kind) (not_lt.mpr beyond)
  | deposit =>
    have absent : db.wallet.deposits.get? t.referenceId = none := by simpa [kind] using bad
    rw [kind, crediting.uncredited _ fun deposit found => by simp [absent] at found] at mine
    cases mine
  | withdrawal =>
    have absent : db.wallet.withdrawals.get? t.referenceId = none := by simpa [kind] using bad
    rw [kind, custody.noTransaction _ (Table.size_le_iff.mpr absent)] at mine
    cases mine
  | position =>
    obtain ⟨position, found, -⟩ := solvent.payouts t member kind
    simp [kind, found] at bad
  | order => exact booked.orders t member kind

theorem resolvedMarketsWithCollateral_nil (solvent : Solvent c) (lifecycle : Lifecycle c) (booked : Booked ⟨c, wallet⟩)
    (binary : MintsBinary c) : resolvedMarketsWithCollateral c.ledger c.exchange = [] := by
  -- a RESOLVED market of two outcomes has paid out what was minted; any other has never had collateral
  apply List.flatMap_eq_nil_iff.mpr
  rintro ⟨m, market⟩ listed
  obtain ⟨found, resolved⟩ := Table.mem_findMany.mp listed
  have status : market.status = .resolved := of_decide_eq_true resolved
  rw [List.map_eq_nil_iff]
  apply List.filter_eq_nil_iff.mpr
  intro account member bad
  simp only [Bool.and_eq_true, decide_eq_true_eq] at bad
  obtain ⟨owner, nonzero⟩ := bad
  have balance := Ledger.balanceOf_eq member
  rw [owner] at balance
  rw [← balance] at nonzero
  obtain ⟨asset, named⟩ := booked.markets m account.assetId nonzero
  have collateral := solvent.collateral account.assetId asset named m
  apply nonzero
  by_cases pairs : ∃ mint ∈ c.exchange.mints.rows, mint.marketId = m
  · obtain ⟨mint, minted, rfl⟩ := pairs
    obtain ⟨a, b, outcomes⟩ := binary mint minted
    rw [collateral]
    apply solvent.nothing_left outcomes found (by simp [Market.isDecided, status])
    intro i position position' ofMarket
    have settled := lifecycle.finished _ market found status position (Table.get?_mem position') ofMarket
    exact (solvent.settledBy i position position').mp settled
  · have none : minted c.exchange m = 0 := by
      apply sumWhere_eq_zero
      intro mint member
      simp only [share, decide_eq_true_eq]
      rw [if_neg fun same => pairs ⟨mint, member, same⟩]
    have paid : 0 ≤ paidOut c.exchange m := by
      apply sumWhere_nonneg
      intro settlement member
      have valid := c.exchange.positionSettlements.checked settlement member
      simp only [RowSpec.check, Bool.and_eq_true, decide_eq_true_eq] at valid
      unfold share
      split
      · exact valid.1.1.2
      · exact le_rfl
    have covered := (LedgerAccount.bounds member (by rw [owner]; rfl)).1
    rw [balance] at collateral ⊢
    rw [none] at collateral
    linarith

theorem settledPositions_eq (settling : Settling c) : settledPositions c.exchange = c.exchange.positionSettlements.size := by
  -- each settlement names the one position that it settled
  have distinct : (c.exchange.positionSettlements.rows.map PositionSettlement.positionId).Nodup := by
    apply List.pairwise_map.mpr
    apply c.exchange.positionSettlements.distinct.imp
    intro a b apart same
    simp [RowSpec.clash, same] at apart
  have same : ((c.exchange.positions.findMany fun position => position.settledAt.isSome).map Prod.fst).Perm
      (c.exchange.positionSettlements.rows.map PositionSettlement.positionId) := by
    apply (List.perm_ext_iff_of_nodup (Table.findMany_nodup _ _) distinct).mpr
    intro id
    rw [List.mem_map, List.mem_map]
    constructor
    · rintro ⟨⟨i, position⟩, listed, rfl⟩
      obtain ⟨found, settled⟩ := Table.mem_findMany.mp listed
      exact (settling.settledBy i position found).mp settled
    · rintro ⟨settlement, member, rfl⟩
      obtain ⟨position, found⟩ : ∃ position, c.exchange.positions.get? settlement.positionId = some position :=
        ⟨_, List.getElem?_eq_getElem (settling.settlements settlement member).1⟩
      have settled := (settling.settledBy _ position found).mpr ⟨settlement, member, rfl⟩
      exact ⟨(settlement.positionId, position), Table.mem_findMany.mpr ⟨found, settled⟩, rfl⟩
  have length := same.length_eq
  rw [List.length_map, Table.findMany_length, List.length_map] at length
  exact length

theorem totalFees_iff (booked : Booked db) :
    totalFillFees db.core.exchange = totalFeeRevenue db.core.ledger ↔
      ∀ w ∈ db.wallet.withdrawals.rows, w.status = .credited → w.fee = 0 := by
  have fills : sumWhere (fun _ => true) Fill.fee db.core.exchange.fills.rows = totalFillFees db.core.exchange := by
    rw [sumWhere, List.filter_true, totalFillFees]
  have revenue : totalFeeRevenue db.core.ledger = totalFillFees db.core.exchange + collectedFees db.wallet := by
    rw [← fills]
    exact booked.revenue
  have positive : ∀ w ∈ db.wallet.withdrawals.rows, 0 ≤ share (fun w => decide (w.status = .credited)) Withdrawal.fee w := by
    intro w member
    have valid := db.wallet.withdrawals.checked w member
    simp only [RowSpec.check, Bool.and_eq_true, decide_eq_true_eq] at valid
    unfold share
    split
    · exact valid.1.1.2
    · exact le_rfl
  rw [revenue]
  constructor
  · intro agree w member credited
    have within := share_le_sumWhere _ _ _ positive w member
    have none : collectedFees db.wallet = 0 := by linarith
    have lower := positive w member
    rw [← collectedFees, none] at within
    have zero := le_antisymm within lower
    simpa [share, credited] using zero
  · intro free
    have none : collectedFees db.wallet = 0 := by
      apply sumWhere_eq_zero
      intro w member
      unfold share
      split
      next credited => exact free w member (of_decide_eq_true credited)
      next => rfl
    rw [none, add_zero]

end Passing

end FinancialIntegrityChecks

open FinancialIntegrityChecks

structure Audited where
  -- the platform with the discrepancies that its reconciliations record
  platform : Platform
  reconciliation : Reconciliation.State

inductive AuditedAction
  | platform (action : Action)
  | reconciliation (action : Reconciliation.Action)

namespace Audited

def initial (seed : Seed) : Audited where
  platform := .initial seed
  reconciliation := { discrepancies := .empty, calls := [] }

def step (fees : FeeCalculator) (config : WalletConfig) (s : Audited) : AuditedAction → Audited
  | .platform action => { s with platform := s.platform.stepUnder fees config action }
  | .reconciliation action => { s with reconciliation := Reconciliation.step s.reconciliation action }

def Reached (fees : FeeCalculator) (config : WalletConfig) : Audited → Prop :=
  -- any interleaving of any steps, from any reference data
  Reachable (fun s => ∃ seed, s = initial seed) (step fees config)

def checks (s : Audited) : List IntegrityResult :=
  runIntegrityChecks s.platform.db s.reconciliation.discrepancies

variable {fees : FeeCalculator} {config : WalletConfig} {s : Audited}

theorem Reached.platform (reached : Reached fees config s) : Platform.ReachedUnder fees config s.platform := by
  induction reached with
  | refl initial =>
    obtain ⟨seed, rfl⟩ := initial
    exact .refl ⟨seed, rfl⟩
  | tail earlier action ih =>
    cases action with
    | platform action => exact .tail ih action
    | reconciliation action => exact ih

theorem Reached.others (reserve : fees.Reserves) (reached : Reached fees config s) {result : IntegrityResult}
    (listed : result ∈ s.checks) : result.passed = true ∨
      result = feeCheck s.platform.db.core.ledger s.platform.db.core.exchange := by
  have integrity := Platform.ReachedUnder.integrity reserve reached.platform
  have booked := Platform.ReachedUnder.booked reserve reached.platform
  have binary := Platform.ReachedUnder.mintsBinary reserve reached.platform
  have named := Platform.ReachedUnder.fillsNamed reserve reached.platform
  obtain ⟨⟨sound, backing, solvent, -⟩, lifecycle, -⟩ := integrity.settleable
  have custody := integrity.custody
  have crediting := integrity.crediting
  simp only [checks, runIntegrityChecks, List.mem_cons, List.not_mem_nil, or_false] at listed
  rcases listed with rfl | rfl | rfl | rfl | rfl | rfl | rfl | rfl | rfl | rfl | rfl | rfl | rfl | rfl | rfl | rfl | rfl
  · exact .inl (List.isEmpty_iff.mpr (unbalanced_nil sound.books))
  · exact .inl (List.isEmpty_iff.mpr (negativeAccounts_nil _))
  · exact .inl (List.isEmpty_iff.mpr (badReservations_nil _))
  · exact .inl (List.isEmpty_iff.mpr (badReservations_nil _))
  · exact .inl (List.isEmpty_iff.mpr (missingLedgerRef_nil crediting))
  · exact .inl (decide_eq_true (settledPositions_eq solvent.toSettling))
  · exact .inl (List.isEmpty_iff.mpr (payoutMismatches_nil _))
  · exact .inl (List.isEmpty_iff.mpr (resolvedMarketsWithCollateral_nil solvent lifecycle booked binary))
  · exact .inl (List.isEmpty_iff.mpr (badWithdrawals_nil _))
  · exact .inl (List.isEmpty_iff.mpr (badDiscrepancies_nil _))
  · exact .inl (List.isEmpty_iff.mpr (reservedMismatches_nil sound.agrees))
  · exact .inl (List.isEmpty_iff.mpr (reservedMismatches_nil backing.agrees))
  · exact .inl (List.isEmpty_iff.mpr (fillsWithoutLedgerEntry_nil booked))
  · exact .inr rfl
  · exact .inl (List.isEmpty_iff.mpr (orphanFundReservations_nil backing custody))
  · exact .inl (List.isEmpty_iff.mpr (orphanPositionReservations_nil backing))
  · exact .inl (List.isEmpty_iff.mpr (orphanLedgerTransactions_nil named solvent crediting custody booked))

end Audited

section Audit

variable {fees : FeeCalculator} {config : WalletConfig} {s : Audited}

/-- The audit accepts a state exactly when no withdrawal that was charged a fee is credited there. -/
theorem reached_audit_iff (reserve : fees.Reserves) (reached : Audited.Reached fees config s) :
    allPassed s.checks = true ↔
      ∀ w ∈ s.platform.db.wallet.withdrawals.rows, w.status = .credited → w.fee = 0 := by
  rw [← totalFees_iff (Platform.ReachedUnder.booked reserve reached.platform), allPassed, List.all_eq_true]
  constructor
  · intro passed
    have listed : feeCheck s.platform.db.core.ledger s.platform.db.core.exchange ∈ s.checks := by
      simp [Audited.checks, runIntegrityChecks]
    exact of_decide_eq_true (passed _ listed)
  · intro agree result listed
    rcases reached.others reserve listed with passed | rfl
    · exact passed
    · exact decide_eq_true agree

def Audited.after (fees : FeeCalculator) (actions : List Action) : Audited :=
  (actions.map AuditedAction.platform).foldl (Audited.step fees .sample) (Audited.initial .sample)

/-- A trade that charged the buyer a fee of 1 / 10, and no withdrawal. -/
theorem chargedSale_audited : totalFillFees (Audited.after percentFees
    (chargedSale 100 ++ [.trading (.applyExecution 0 0)])).platform.db.core.exchange = 1 / 10 ∧
    allPassed (Audited.after percentFees (chargedSale 100 ++ [.trading (.applyExecution 0 0)])).checks = true := by
  have reached : Audited.Reached percentFees .sample
      (Audited.after percentFees (chargedSale 100 ++ [.trading (.applyExecution 0 0)])) :=
    Reachable.foldl (.refl ⟨.sample, rfl⟩) _
  exact ⟨by decide +kernel, (reached_audit_iff percentFees_funded.reserves reached).mpr (by decide +kernel)⟩

/-- A withdrawal of 50 that was charged a fee of 1 is credited: the audit fails. -/
theorem creditedFee_rejected : ¬ ∀ (fees : FeeCalculator) (config : WalletConfig) (s : Audited),
    (∀ context, 0 ≤ fees.estimateBuyReserveFee context) →
    (∀ context, 0 ≤ (fees.calculateFillFee context).buyerFee ∧ 0 ≤ (fees.calculateFillFee context).sellerFee) →
    (∀ asset network amount, 0 ≤ config.calculateWithdrawalFee asset network amount) →
    Audited.Reached fees config s → allPassed s.checks = true := by
  intro accepts
  have passed := accepts zeroFeeCalculator .sample (Audited.after zeroFeeCalculator creditedWithdrawal)
    (fun _ => le_rfl) (fun _ => ⟨le_rfl, le_rfl⟩) (fun _ _ _ => zero_le_one) (Reachable.foldl (.refl ⟨.sample, rfl⟩) _)
  revert passed
  decide +kernel

end Audit

end VerdictVaut
