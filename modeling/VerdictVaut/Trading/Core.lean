import VerdictVaut.Trading.Types

set_option autoImplicit false

namespace VerdictVaut

open Relational Relational.Tx

structure Core where
  -- the part of the database that trading, markets and settlement work on
  users : Table User
  riskLimits : Table RiskLimit
  ledger : Ledger
  exchange : Exchange

namespace Core

def ledgerField : Field Core Ledger where
  get := Core.ledger
  set l c := { c with ledger := l }

def fundsField : Field Core (Reserved LedgerAccount) where
  get c := c.ledger.funds
  set t c := { c with ledger := { c.ledger with funds := t } }

def sharesField : Field Core (Reserved Position) where
  get c := c.exchange.shares
  set t c := { c with exchange := { c.exchange with shares := t } }

instance : fundsField.Lawful := ⟨fun _ _ => rfl, fun _ => rfl, fun _ _ _ => rfl⟩

instance : sharesField.Lawful := ⟨fun _ _ => rfl, fun _ => rfl, fun _ _ _ => rfl⟩

def positionsField : Field Core (Table Position) where
  get c := c.exchange.positions
  set t c := { c with exchange := { c.exchange with shares := { c.exchange.shares with holders := t } } }

def marketsField : Field Core (Table Market) where
  get c := c.exchange.markets
  set t c := { c with exchange := { c.exchange with markets := t } }

def outcomesField : Field Core (Table MarketOutcome) where
  get c := c.exchange.outcomes
  set t c := { c with exchange := { c.exchange with outcomes := t } }

def ordersField : Field Core (Table Order) where
  get c := c.exchange.orders
  set t c := { c with exchange := { c.exchange with orders := t } }

def fillsField : Field Core (Table Fill) where
  get c := c.exchange.fills
  set t c := { c with exchange := { c.exchange with fills := t } }

def mintsField : Field Core (Table CompleteSetMint) where
  get c := c.exchange.mints
  set t c := { c with exchange := { c.exchange with mints := t } }

def resolutionsField : Field Core (Table MarketResolution) where
  get c := c.exchange.resolutions
  set t c := { c with exchange := { c.exchange with resolutions := t } }

def settlementsField : Field Core (Table Settlement) where
  get c := c.exchange.settlements
  set t c := { c with exchange := { c.exchange with settlements := t } }

def positionSettlementsField : Field Core (Table PositionSettlement) where
  get c := c.exchange.positionSettlements
  set t c := { c with exchange := { c.exchange with positionSettlements := t } }

def assetsField : Field Core (Table Asset) where
  get c := c.ledger.assets
  set t c := { c with ledger := { c.ledger with assets := t } }

/-- `asset.findFirstOrThrow({ where: { isSettlementCurrency: true } })`. -/
def settlementAsset : Tx Core Fault (Nat × Asset) :=
  findOrThrow assetsField Asset.isSettlementCurrency

def postInSettlementCurrency (input : String → Ledger.PostTransactionInput) :
    Tx Core Fault Ledger.PostTransactionResult := do
  -- a posting in the settlement currency, given that asset's symbol
  let (_, asset) ← settlementAsset
  zoom ledgerField (Ledger.postTransaction (input asset.symbol))

end Core

def Market.isExecutable (now : Time) (market : Market) : Bool :=
  decide (market.status = .opened) && !(market.closeTime.any fun closeTime => decide (closeTime ≤ now))

def Order.isExecutable (order : Order) : Bool :=
  decide (order.status = .opened) || decide (order.status = .partiallyFilled)

structure FeeContext where
  marketId : Nat
  outcomeId : Nat
  price : ℚ
  quantity : ℚ

structure FillFeeContext extends FeeContext where
  makerUserId : Nat
  takerUserId : Nat

structure FillFeeResult where
  buyerFee : ℚ
  sellerFee : ℚ

structure FeeCalculator where
  estimateBuyReserveFee : FeeContext → ℚ
  calculateFillFee : FillFeeContext → FillFeeResult

def zeroFeeCalculator : FeeCalculator where
  estimateBuyReserveFee _ := 0
  calculateFillFee _ := { buyerFee := 0, sellerFee := 0 }

end VerdictVaut
