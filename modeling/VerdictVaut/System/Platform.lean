import VerdictVaut.System.Steps
import VerdictVaut.Wallet.Crediting

set_option autoImplicit false

namespace VerdictVaut

open Relational Relational.Tx WithdrawalsService DepositsService

-- the calls of `approve()`: between its transactions, and around the executor
inductive ApprovePhase
  | approved
  | leased
  | executing
  | returned (outcome : ExecutionOutcome)
  | ended

structure ApproveCall where
  withdrawalId : Nat
  phase : ApprovePhase
  leasedAt : Nat

/-- A `checkOne` call that has read its row; `readAt` is when, in the log. -/
structure Watch where
  withdrawalId : Nat
  txHash : String
  readAt : Nat
  deriving DecidableEq

/-- A `recordConfirmation` call whose evidence matched; `watch` is the `checkOne` call that made it. -/
structure Confirmation where
  withdrawalId : Nat
  watch : Option Watch

inductive Event
  | executed (withdrawalId : Nat)
  | moved (withdrawalId : Nat) (operation : Operation)
  | observed (input : ObservedTransactionInput)
  deriving DecidableEq

structure Platform where
  db : Db
  desk : Desk
  requests : List Prepared
  declarations : List Declaration
  approvals : List ApproveCall
  watched : List Watch
  confirming : List Confirmation
  log : List Event

structure Seed where
  -- the reference data; everything else is made by the platform's own steps
  users : Table User
  riskLimits : Table RiskLimit
  categories : Table MarketCategory
  assets : Table Asset
  networks : Table Network
  assetNetworks : Table AssetNetwork
  walletAddresses : Table WalletAddress

def Seed.core (seed : Seed) : Core where
  users := seed.users
  riskLimits := seed.riskLimits
  ledger := .initial seed.assets
  exchange :=
    { categories := seed.categories
      markets := .empty
      outcomes := .empty
      orders := .empty
      fills := .empty
      mints := .empty
      shares := { holders := .empty, reservations := .empty }
      resolutions := .empty
      settlements := .empty
      positionSettlements := .empty }

def Seed.wallet (seed : Seed) : Wallet where
  networks := seed.networks
  assetNetworks := seed.assetNetworks
  walletAddresses := seed.walletAddresses
  deposits := .empty
  withdrawals := .empty

def Platform.initial (seed : Seed) : Platform where
  db := { core := seed.core, wallet := seed.wallet }
  desk := .empty
  requests := []
  declarations := []
  approvals := []
  watched := []
  confirming := []
  log := []

inductive WalletAction
  | recordObservedTransaction (now : Time) (input : ObservedTransactionInput)
  | rejectIfNotCredited (now : Time) (depositId : Nat) (reason : String)
  | prepareRequest (userId : Nat) (dto : RequestWithdrawalDto) (compliance : WithdrawalComplianceAssessment)
      (randomUUID : String)
  | request (k : Nat) (now : Time)
  | cancel (userId withdrawalId : Nat)
  | approve (withdrawalId actorId : Nat)
  | claimLease (k : Nat)
  | startExecution (k : Nat)
  | abortExecution (k : Nat)
  | endExecution (k : Nat) (outcome : ExecutionOutcome)
  | recordExecution (k : Nat) (now : Time)
  | reject (withdrawalId : Nat) (reason : String) (actorId : Nat)
  | fail (withdrawalId : Nat) (reason : String)
  | failProviderRejectedSubmission (withdrawalId : Nat) (reason : String)
  | resolveAmbiguousExecution (now : Time) (withdrawalId actorId : Nat) (resolution : AmbiguityResolution)
  | gatherEvidence (withdrawalId actorId : Nat) (chain : ChainStatus)
  | declareExecutionAmbiguous (k : Nat) (reason : String)
  | recordManualBroadcast (now : Time) (withdrawalId adminId : Nat) (txHash : String)
  | recordProviderBroadcast (now : Time) (withdrawalId : Nat) (txHash : String) (providerReference : Option String)
  | readBroadcast (withdrawalId : Nat)
  | checkOne (k : Nat) (status : ChainTransactionStatus) (requiredConfirmations : Int)
  | recordConfirmation (withdrawalId : Nat) (confirmations requiredConfirmations : Int)
      (observed : Option ObservedChainTransaction)
  | creditConfirmed (k : Nat) (now : Time)

inductive Action
  | trading (action : TradingAction)
  | wallet (action : WalletAction)

namespace Platform

def attempt {α : Type} (s : Platform) (body : Tx Db Fault α) : Option (α × Db) :=
  match (runTransaction Db.ledgerField body).run s.db with
  | .ok result => some result
  | .error _ => none

def transact {α : Type} (s : Platform) (body : Tx Db Fault α) (events : α → List Event) : Platform :=
  match s.attempt body with
  | some (a, db) => { s with db := db, log := s.log ++ events a }
  | none => s

def look {α : Type} (s : Platform) (body : Tx Db Fault α) : Option α :=
  match body.run s.db with
  | .ok (a, _) => some a
  | .error _ => none

def setPhase (s : Platform) (k : Nat) (call : ApproveCall) (phase : ApprovePhase) : Platform :=
  { s with approvals := s.approvals.set k { call with phase := phase } }

/-- `recordConfirmation` up to its crediting transaction. -/
def confirm (config : WalletConfig) (s : Platform) (withdrawalId : Nat) (confirmations requiredConfirmations : Int)
    (observed : Option ObservedChainTransaction) (watch : Option Watch) : Platform :=
  if confirmations < requiredConfirmations then s.transact (recordUnconfirmed withdrawalId) fun _ => []
  else
    match s.look (verifyConfirmation config withdrawalId observed) with
    | some true => { s with confirming := s.confirming ++ [{ withdrawalId := withdrawalId, watch := watch }] }
    | _ => s

def walletStep (config : WalletConfig) (s : Platform) : WalletAction → Platform
  | .recordObservedTransaction now input =>
    s.transact (recordObservedTransaction now input) fun _ => [.observed input]
  | .rejectIfNotCredited now depositId reason => s.transact (rejectIfNotCredited now depositId reason) fun _ => []
  | .prepareRequest userId dto compliance randomUUID =>
    match s.look (prepare config userId dto compliance randomUUID) with
    | some prepared => { s with requests := s.requests ++ [prepared] }
    | none => s
  | .request k now =>
    match s.requests[k]? with
    | some prepared => s.transact (request now prepared) fun _ => []
    | none => s
  | .cancel userId withdrawalId => s.transact (cancel userId withdrawalId) fun _ => [.moved withdrawalId .cancel]
  | .approve withdrawalId actorId =>
    match s.attempt (approve withdrawalId actorId) with
    | some (_, db) =>
      { s with
        db := db
        approvals := s.approvals ++ [{ withdrawalId := withdrawalId, phase := .approved, leasedAt := 0 }]
        log := s.log ++ [.moved withdrawalId .approve] }
    | none => s
  | .claimLease k =>
    match s.approvals[k]? with
    | some { withdrawalId, phase := .approved, leasedAt } =>
      match s.attempt (claimLease withdrawalId) with
      | some (_, db) =>
        { s with
          db := db
          approvals := s.approvals.set k
            { withdrawalId := withdrawalId, phase := .leased, leasedAt := s.log.length + 1 }
          log := s.log ++ [.moved withdrawalId .claimLease] }
      | none => s.setPhase k { withdrawalId := withdrawalId, phase := .approved, leasedAt := leasedAt } .ended
    | _ => s
  | .startExecution k =>
    match s.approvals[k]? with
    | some { withdrawalId, phase := .leased, leasedAt } =>
      match s.look (executionRequest withdrawalId) with
      | some _ =>
        { s with
          approvals := s.approvals.set k
            { withdrawalId := withdrawalId, phase := .executing, leasedAt := leasedAt }
          log := s.log ++ [.executed withdrawalId] }
      | none => s
    | _ => s
  | .abortExecution k =>
    -- the executor cannot be resolved: the call throws before `execute()` is reached
    match s.approvals[k]? with
    | some { withdrawalId, phase := .leased, leasedAt } =>
      s.setPhase k { withdrawalId := withdrawalId, phase := .leased, leasedAt := leasedAt } (.returned none)
    | _ => s
  | .endExecution k outcome =>
    match s.approvals[k]? with
    | some { withdrawalId, phase := .executing, leasedAt } =>
      s.setPhase k { withdrawalId := withdrawalId, phase := .executing, leasedAt := leasedAt } (.returned outcome)
    | _ => s
  | .recordExecution k now =>
    match s.approvals[k]? with
    | some { withdrawalId, phase := .returned outcome, leasedAt } =>
      (s.transact (recordExecution now withdrawalId outcome) fun _ => [.moved withdrawalId (.recordExecution outcome)]).setPhase
        k { withdrawalId := withdrawalId, phase := .returned outcome, leasedAt := leasedAt } .ended
    | _ => s
  | .reject withdrawalId reason actorId =>
    s.transact (reject withdrawalId reason actorId) fun _ => [.moved withdrawalId .reject]
  | .fail withdrawalId reason =>
    s.transact (WithdrawalsService.fail withdrawalId reason) fun _ => [.moved withdrawalId .fail]
  | .failProviderRejectedSubmission withdrawalId reason =>
    s.transact (failProviderRejectedSubmission withdrawalId reason) fun failed =>
      if failed then [.moved withdrawalId .failProviderRejectedSubmission] else []
  | .resolveAmbiguousExecution now withdrawalId actorId resolution =>
    s.transact (resolveAmbiguousExecution now withdrawalId actorId resolution) fun _ =>
      [.moved withdrawalId .resolveAmbiguousExecution]
  | .gatherEvidence withdrawalId actorId chain =>
    match s.look (gatherEvidence withdrawalId actorId chain) with
    | some declaration => { s with declarations := s.declarations ++ [declaration] }
    | none => s
  | .declareExecutionAmbiguous k reason =>
    match s.declarations[k]? with
    | some declaration =>
      s.transact (declareExecutionAmbiguous declaration reason) fun _ =>
        [.moved declaration.withdrawalId .declareExecutionAmbiguous]
    | none => s
  | .recordManualBroadcast now withdrawalId adminId txHash =>
    s.transact (recordManualBroadcast now withdrawalId adminId txHash) fun _ =>
      [.moved withdrawalId .recordManualBroadcast]
  | .recordProviderBroadcast now withdrawalId txHash providerReference =>
    s.transact (recordProviderBroadcast now withdrawalId txHash providerReference) fun recorded =>
      if recorded then [.moved withdrawalId (.recordProviderBroadcast txHash)] else []
  | .readBroadcast withdrawalId =>
    match s.db.wallet.withdrawals.get? withdrawalId with
    | some w =>
      match statusIn [.broadcast, .confirming] w, w.txHash with
      | true, some txHash =>
        { s with
          watched := s.watched ++ [{ withdrawalId := withdrawalId, txHash := txHash, readAt := s.log.length }] }
      | _, _ => s
    | none => s
  | .checkOne k status requiredConfirmations =>
    match s.watched[k]? with
    | some watch =>
      match WithdrawalWatcherService.checkOne watch.txHash status requiredConfirmations with
      | .leave => s
      | .fail reason =>
        s.transact (WithdrawalsService.fail watch.withdrawalId reason) fun _ => [.moved watch.withdrawalId .fail]
      | .recordConfirmation confirmations required observed =>
        s.confirm config watch.withdrawalId confirmations required (some observed) (some watch)
    | none => s
  | .recordConfirmation withdrawalId confirmations requiredConfirmations observed =>
    s.confirm config withdrawalId confirmations requiredConfirmations observed none
  | .creditConfirmed k now =>
    match s.confirming[k]? with
    | some confirmation =>
      s.transact (creditConfirmed now confirmation.withdrawalId) fun credited =>
        if credited then [.moved confirmation.withdrawalId .creditConfirmed] else []
    | none => s

def step (config : WalletConfig) (s : Platform) : Action → Platform
  | .trading action =>
    let (core, desk) := tradingStep (s.db.core, s.desk) action
    { s with db := { s.db with core := core }, desk := desk }
  | .wallet action => s.walletStep config action

def Reached (config : WalletConfig) : Platform → Prop :=
  -- the states of the platform: any interleaving of any steps, from any reference data
  Reachable (fun s => ∃ seed, s = initial seed) (step config)

end Platform

section Sample

/-- Reference data for concrete runs: an administrator, two traders, and one currency on one network. -/
def Seed.sample : Seed where
  users := ⟨[⟨"admin", .superAdmin, .active⟩, ⟨"alice", .user, .active⟩, ⟨"bob", .user, .active⟩], by decide, by decide⟩
  riskLimits := .empty
  categories := ⟨[⟨"sports"⟩], by decide, by decide⟩
  assets := ⟨[⟨"USDC", 6, true⟩], by decide, by decide⟩
  networks := ⟨[⟨"ETHEREUM", .evm⟩], by decide, by decide⟩
  assetNetworks := ⟨[⟨0, 0, false, 1, true⟩], by decide +kernel, by decide⟩
  walletAddresses := ⟨[⟨0, "0xa", none⟩, ⟨0, "0xb", none⟩], by decide, by decide⟩

def WalletConfig.sample : WalletConfig where
  calculateWithdrawalFee _ _ _ := 1
  validDestinationAddress _ _ := true
  validDestinationTag _ _ := true
  toLowerCase address := address

def Platform.afterOn (seed : Seed) (actions : List Action) : Platform :=
  -- the state after some steps on some reference data
  actions.foldl (Platform.step .sample) (Platform.initial seed)

theorem Platform.reached_afterOn (seed : Seed) (actions : List Action) :
    Platform.Reached .sample (Platform.afterOn seed actions) :=
  Reachable.foldl (.refl ⟨seed, rfl⟩) actions

def Platform.after (actions : List Action) : Platform :=
  -- the state after some steps on the sample data
  actions.foldl (Platform.step .sample) (Platform.initial .sample)

theorem Platform.reached_after (actions : List Action) : Platform.Reached .sample (Platform.after actions) :=
  Platform.reached_afterOn .sample actions

def Action.deposit (userId : Nat) (txHash : String) (amount : ℚ) : Action :=
  .wallet (.recordObservedTransaction 0
    { userId := userId, assetSymbol := "USDC", assetNetworkId := 0, walletAddressId := 0, txHash := txHash,
      eventIndex := none, amount := amount, confirmations := 12, requiredConfirmations := 12, destinationTag := none })

end Sample

end VerdictVaut
