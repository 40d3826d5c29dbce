import VerdictVaut.System.MarketRuns
import VerdictVaut.System.WithdrawalRuns
import VerdictVaut.System.DepositRuns
import VerdictVaut.System.Replays
import VerdictVaut.Trading.Engines
import VerdictVaut.Wallet.Pending
import VerdictVaut.Wallet.Scanned
import VerdictVaut.Auth.Revocation
import VerdictVaut.Auth.Throttle
import VerdictVaut.Auth.Browser
import VerdictVaut.Wallet.Fireblocks
import VerdictVaut.Wallet.Emitted
import VerdictVaut.Wallet.Addresses
import VerdictVaut.Wallet.Solana
import VerdictVaut.Reconciliation.Collateral
import VerdictVaut.Reconciliation.Rescan
import VerdictVaut.Trading.Rounded
import VerdictVaut.Trading.CostBasis
import VerdictVaut.System.Payouts
import VerdictVaut.System.Limits
import VerdictVaut.System.DailyLimit
import VerdictVaut.Web.Decimal
import VerdictVaut.Trading.Sequencing
import VerdictVaut.System.Audit
import VerdictVaut.System.Reserves
import VerdictVaut.System.Prices
import VerdictVaut.System.Depth
import VerdictVaut.System.TransactionRunner
import VerdictVaut.Reconciliation.Scheduler
import VerdictVaut.System.Webhooks
import VerdictVaut.System.Authorization
