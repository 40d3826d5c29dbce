import VerdictVaut.Ledger.Decimal
import VerdictVaut.Reconciliation.Discrepancies
import VerdictVaut.System.Accounting
import VerdictVaut.System.Charged
import VerdictVaut.System.Replays

set_option autoImplicit false

namespace VerdictVaut

open Relational Decimals

namespace CollateralReconciliationService

def RECONCILIATION_TOLERANCE : ℚ := 1 / 10 ^ 18

inductive ReconciliationStatus
  | ok | discrepancyFound
  deriving DecidableEq, Repr

/-- The states that the five queries of a check find; each sees whatever has committed when it runs. -/
structure Reads where
  market : Core
  settlementAsset : Core
  mints : Core
  payouts : Core
  account : Core

structure Check where
  expectedBalance : ℚ
  actualBalance : ℚ
  status : ReconciliationStatus
  discrepancy : Option Reconciliation.DiscrepancyInput
  deriving DecidableEq

def actualBalance (c : Core) (marketId assetId : Nat) : ℚ :=
  match c.ledger.accounts.find? (Ledger.isAccount assetId (.market marketId)) with
  | some account => account.2.cachedBalance
  | none => 0

def check (runId marketId : Nat) (totalMinted totalPaidOut actualBalance : ℚ) : Check :=
  let expectedBalance := Decimal.minus totalMinted totalPaidOut
  let difference := Decimal.minus actualBalance expectedBalance
  let hasMismatch := decide (RECONCILIATION_TOLERANCE < |difference|)
  { expectedBalance := expectedBalance
    actualBalance := actualBalance
    status := if hasMismatch then .discrepancyFound else .ok
    discrepancy :=
      if hasMismatch then some ⟨runId, .onMarket marketId, if difference < 0 then "CRITICAL" else "WARNING"⟩ else none }

def checkMarket (runId marketId : Nat) (reads : Reads) : Except Fault Check :=
  match reads.market.exchange.markets.get? marketId with
  | none => .error (.notFound "Market not found")
  | some _ =>
    match reads.settlementAsset.ledger.assets.find? Asset.isSettlementCurrency with
    | none => .error (.db .recordNotFound)
    | some settlementAsset => .ok (check runId marketId (minted reads.mints.exchange marketId)
        (paidOut reads.payouts.exchange marketId) (actualBalance reads.account marketId settlementAsset.1))

structure Schedule where
  -- how many actions of a run have committed when each query runs
  market : Nat
  settlementAsset : Nat
  mints : Nat
  payouts : Nat
  account : Nat

def coreAfter (fees : FeeCalculator) (config : WalletConfig) (s : Platform) (actions : List Action) (n : Nat) : Core :=
  ((actions.take n).foldl (Platform.stepUnder fees config) s).db.core

def Schedule.reads (schedule : Schedule) (fees : FeeCalculator) (config : WalletConfig) (s : Platform)
    (actions : List Action) : Reads where
  market := coreAfter fees config s actions schedule.market
  settlementAsset := coreAfter fees config s actions schedule.settlementAsset
  mints := coreAfter fees config s actions schedule.mints
  payouts := coreAfter fees config s actions schedule.payouts
  account := coreAfter fees config s actions schedule.account

/-- What is minted between the query of the mints and that of the account, less what is paid out between the query
of the payouts and that of the account. -/
def drift (marketId : Nat) (reads : Reads) : ℚ :=
  (minted reads.account.exchange marketId - minted reads.mints.exchange marketId) -
    (paidOut reads.account.exchange marketId - paidOut reads.payouts.exchange marketId)

/-- A balance and a drift that a check lets pass: in `Decimal` arithmetic the drift is within the tolerance. -/
def Unalarming (balance drift : ℚ) : Prop :=
  |Decimal.minus balance (Decimal.minus balance drift)| ≤ RECONCILIATION_TOLERANCE

theorem unalarming_iff {balance drift : ℚ} (kept : Significant Decimal.PRECISION (balance - drift))
    (few : Significant Decimal.PRECISION drift) : Unalarming balance drift ↔ |drift| ≤ RECONCILIATION_TOLERANCE := by
  have back : balance - (balance - drift) = drift := by ring
  rw [Unalarming, Decimal.minus_eq_iff.mpr kept, Decimal.minus, back, toSignificant_eq_self_iff.mpr few]

theorem actualBalance_eq (c : Core) (marketId assetId : Nat) :
    actualBalance c marketId assetId = Ledger.balanceOf c.ledger (.market marketId) assetId := by
  unfold actualBalance
  split
  next account found =>
    obtain ⟨position, mine⟩ := Table.find?_some found
    simp only [Ledger.isAccount, Bool.and_eq_true, decide_eq_true_eq] at mine
    rw [← mine.1, ← mine.2, Ledger.balanceOf_eq (Table.get?_mem position)]
  next absent =>
    refine (sumWhere_eq_zero _ _ _ fun account member => ?_).symm
    have other := Table.find?_none.mp absent account member
    rw [Ledger.isAccount] at other
    simp [share, Ledger.only, other]

section Runs

variable {fees : FeeCalculator} {config : WalletConfig} {s : Platform} {actions : List Action} {schedule : Schedule} {runId marketId : Nat}
  {result : Check}

theorem assets_after (reserve : fees.Reserves) (reached : Platform.ReachedUnder fees config s) (actions : List Action) :
    (actions.foldl (Platform.stepUnder fees config) s).db.core.ledger.assets = s.db.core.ledger.assets := by
  induction actions generalizing s with
  | nil => rfl
  | cons action rest ih =>
    have integrity := reached.integrity reserve
    rw [List.foldl_cons, ih (reached.tail action)]
    cases action with
    | trading action =>
      have effect := tradingStepUnder_effect reserve integrity.settleable.ordered integrity.fits action
      exact (effect.advances integrity.settleable.ordered).persists.assets
    | wallet action => exact (Platform.walletStep_effect integrity action).frame.assets

theorem collateral_after (reserve : fees.Reserves) (reached : Platform.ReachedUnder fees config s) (actions : List Action) (n marketId : Nat)
    {assetId : Nat} {asset : Asset} (named : s.db.core.ledger.assets.find? Asset.isSettlementCurrency = some (assetId, asset)) :
    Ledger.balanceOf (coreAfter fees config s actions n).ledger (.market marketId) assetId =
      minted (coreAfter fees config s actions n).exchange marketId - paidOut (coreAfter fees config s actions n).exchange marketId := by
  have later : Platform.ReachedUnder fees config ((actions.take n).foldl (Platform.stepUnder fees config) s) :=
    reached.foldl _
  refine (later.integrity reserve).settleable.ordered.solvent.collateral assetId asset ?_ marketId
  rw [assets_after reserve reached]
  exact named

/-- A check whose queries run anywhere in a run records no discrepancy exactly when what commits between them is
within the tolerance. -/
theorem checkMarket_quiet_iff (reserve : fees.Reserves) (reached : Platform.ReachedUnder fees config s)
    (checked : checkMarket runId marketId (schedule.reads fees config s actions) = .ok result) :
    result.discrepancy = none ↔
      Unalarming result.actualBalance (drift marketId (schedule.reads fees config s actions)) := by
  unfold checkMarket at checked
  split at checked
  next => cases checked
  next =>
    split at checked
    next => cases checked
    next found named =>
      cases checked
      obtain ⟨assetId, asset⟩ := found
      have known : s.db.core.ledger.assets.find? Asset.isSettlementCurrency = some (assetId, asset) := by
        rw [← assets_after reserve reached (actions.take schedule.settlementAsset)]
        exact named
      have equation := collateral_after reserve reached actions schedule.account marketId known
      have expected : minted (coreAfter fees config s actions schedule.mints).exchange marketId -
          paidOut (coreAfter fees config s actions schedule.payouts).exchange marketId =
          actualBalance (coreAfter fees config s actions schedule.account) marketId assetId -
            drift marketId (schedule.reads fees config s actions) := by
        rw [actualBalance_eq, equation, drift, Schedule.reads]
        ring
      have same : Decimal.minus (minted (coreAfter fees config s actions schedule.mints).exchange marketId)
          (paidOut (coreAfter fees config s actions schedule.payouts).exchange marketId) =
          Decimal.minus (actualBalance (coreAfter fees config s actions schedule.account) marketId assetId)
            (drift marketId (schedule.reads fees config s actions)) := by
        rw [Decimal.minus, expected, Decimal.minus]
      simp only [check, Unalarming, Schedule.reads, same, ite_eq_right_iff, reduceCtorEq, imp_false, decide_eq_true_eq,
        not_lt]

end Runs

/-- A check that reads the account before a mint commits and the mints after it. -/
def acrossMint : Schedule := ⟨11, 11, 12, 12, 11⟩

def afterMint : Schedule := ⟨12, 12, 12, 12, 12⟩

/-- The balance equals what is minted less what is paid out in every state, and the check reports a shortfall. -/
theorem acrossMint_alarm :
    (∀ n, Ledger.balanceOf (coreAfter percentFees .sample (Platform.initial .sample) mintedMarket n).ledger (.market 0) 0 =
      minted (coreAfter percentFees .sample (Platform.initial .sample) mintedMarket n).exchange 0 -
        paidOut (coreAfter percentFees .sample (Platform.initial .sample) mintedMarket n).exchange 0) ∧
    checkMarket 0 0 (acrossMint.reads percentFees .sample (Platform.initial .sample) mintedMarket) =
      .ok ⟨10, 0, .discrepancyFound, some ⟨0, .onMarket 0, "CRITICAL"⟩⟩ := by
  constructor
  next =>
    intro n
    exact @collateral_after _ _ _ percentFees_funded.reserves (.refl ⟨_, rfl⟩) mintedMarket n 0 0 ⟨"USDC", 6, true⟩
      (by decide +kernel)
  next => decide +kernel

theorem afterMint_quiet :
    checkMarket 0 0 (afterMint.reads percentFees .sample (Platform.initial .sample) mintedMarket) = .ok ⟨10, 10, .ok, none⟩ ∧
      ((none : Option Reconciliation.DiscrepancyInput) = none ↔
        Unalarming 10 (drift 0 (afterMint.reads percentFees .sample (Platform.initial .sample) mintedMarket))) := by
  have checked : checkMarket 0 0 (afterMint.reads percentFees .sample (Platform.initial .sample) mintedMarket) =
      .ok ⟨10, 10, .ok, none⟩ := by
    decide +kernel
  exact ⟨checked, checkMarket_quiet_iff percentFees_funded.reserves (.refl ⟨_, rfl⟩) checked⟩

end CollateralReconciliationService

end VerdictVaut
