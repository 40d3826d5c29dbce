import VerdictVaut.Wallet.Types

set_option autoImplicit false

namespace VerdictVaut.WithdrawalsService

open Relational Relational.Tx Db

section Request

structure RequestWithdrawalDto where
  assetSymbol : String
  networkCode : String
  amount : ℚ
  destinationAddress : String
  destinationTag : Option String
  clientWithdrawalId : Option String

structure WithdrawalComplianceAssessment where
  decision : WithdrawalComplianceDecision
  reason : Option String
  deriving DecidableEq

/-- What `request` has read and computed when it opens its transaction. -/
structure Prepared where
  userId : Nat
  assetId : Nat
  assetSymbol : String
  assetNetworkId : Nat
  destinationAddress : String
  destinationTag : Option String
  amount : ℚ
  fee : ℚ
  clientWithdrawalId : String
  compliance : WithdrawalComplianceAssessment
  deriving DecidableEq

def checkOwner (userId : Nat) : Tx Db Fault Unit := do
  let user ← read fun db => db.core.users.get? userId
  let user ← orThrow user (.db .recordNotFound)
  throwIf (user.status ≠ .active) (.forbidden "Account must be verified (ACTIVE) before withdrawing funds")

def findRoute (dto : RequestWithdrawalDto) : Tx Db Fault ((Nat × Asset) × (Nat × Network) × (Nat × AssetNetwork)) := do
  -- the asset, its network, and the active pair of the two
  let asset ← read fun db => db.core.ledger.assets.find? fun asset => decide (asset.symbol = dto.assetSymbol)
  let network ← read fun db => db.wallet.networks.find? fun network => decide (network.code = dto.networkCode)
  let asset ← orThrow asset (.badRequest "Unknown asset symbol or network code")
  let network ← orThrow network (.badRequest "Unknown asset symbol or network code")
  let assetNetwork ← read fun db => db.wallet.assetNetworks.find? fun assetNetwork =>
    decide (assetNetwork.assetId = asset.1) && decide (assetNetwork.networkId = network.1)
  let unsupported := Fault.badRequest
    (dto.assetSymbol ++ " withdrawals are not currently supported on " ++ dto.networkCode)
  let assetNetwork ← orThrow assetNetwork unsupported
  throwIf (assetNetwork.2.isActive = false) unsupported
  pure (asset, network, assetNetwork)

def NetworkFamily.text : NetworkFamily → String
  | .bitcoin => "BITCOIN"
  | .evm => "EVM"
  | .solana => "SOLANA"
  | .xrpl => "XRPL"

def checkDestination (config : WalletConfig) (dto : RequestWithdrawalDto) (asset : Asset) (network : Network)
    (assetNetwork : AssetNetwork) : Tx Db Fault Unit := do
  -- the checks on the amount and the destination; an empty tag counts as none
  throwIf (dto.amount ≤ assetNetwork.withdrawalMinAmount)
    (.limitExceeded "Amount must be greater than the minimum withdrawal of " assetNetwork.withdrawalMinAmount)
  throwIf (exceedsScale dto.amount asset.decimals = true)
    (.badRequest (asset.symbol ++ " amounts support at most " ++ toString asset.decimals ++ " decimal places"))
  let tagged := dto.destinationTag.any fun tag => decide (tag ≠ "")
  throwIf (assetNetwork.memoRequired = true ∧ tagged = false)
    (.badRequest (dto.networkCode ++ " requires a destination tag/memo"))
  throwIf (dto.destinationAddress = "" ∨ config.validDestinationAddress network.family dto.destinationAddress = false)
    (.badRequest ("Destination address does not look like a valid " ++ NetworkFamily.text network.family ++ " address"))
  throwIf (tagged = true ∧ config.validDestinationTag network.family (dto.destinationTag.getD "") = false)
    (.badRequest "XRPL destination tag must be a whole number between 0 and 4294967295")

/-- The part of `request` before its transaction; `compliance` is what the gate answers. -/
def prepare (config : WalletConfig) (userId : Nat) (dto : RequestWithdrawalDto)
    (compliance : WithdrawalComplianceAssessment) (randomUUID : String) : Tx Db Fault Prepared := do
  checkOwner userId
  let ((assetId, asset), (_, network), (assetNetworkId, assetNetwork)) ← findRoute dto
  checkDestination config dto asset network assetNetwork
  let fee := config.calculateWithdrawalFee asset.symbol network.code dto.amount
  throwIf (dto.amount ≤ fee) (.badRequest "The configured withdrawal fee would consume the entire withdrawal amount")
  throwIf (compliance.decision = .blocked)
    (.forbidden (compliance.reason.getD "This withdrawal was blocked by compliance policy."))
  pure
    { userId := userId
      assetId := assetId
      assetSymbol := asset.symbol
      assetNetworkId := assetNetworkId
      destinationAddress := dto.destinationAddress
      destinationTag := dto.destinationTag
      amount := dto.amount
      fee := fee
      clientWithdrawalId := dto.clientWithdrawalId.getD randomUUID
      compliance := compliance }

def dayMs : Time := 24 * 60 * 60 * 1000

def alreadyRequested (db : Db) (userId assetId : Nat) (since : Time) : ℚ :=
  -- the volume that counts against the daily limit: everything that did not end unpaid
  sumWhere
    (fun w => decide (w.userId = userId) &&
      ((db.wallet.assetNetworks.get? w.assetNetworkId).any fun route => decide (route.assetId = assetId)) &&
      decide (w.status ∉ [WithdrawalStatus.rejected, .failed, .cancelled]) && decide (since ≤ w.createdAt))
    Withdrawal.amount db.wallet.withdrawals.rows

def checkDailyLimit (now : Time) (prepared : Prepared) : Tx Db Fault Unit := do
  let riskLimit ← read fun db =>
    (db.core.riskLimits.find? fun limit => decide (limit.userId = prepared.userId)).map Prod.snd
  match riskLimit.bind RiskLimit.maxDailyWithdrawal with
  | none => pure ()
  | some limit => do
    let requested ← read fun db => alreadyRequested db prepared.userId prepared.assetId (now - dayMs)
    throwIf (limit < requested + prepared.amount)
      (.dailyLimitExceeded limit prepared.assetSymbol requested)

def withdrawalRow (now : Time) (prepared : Prepared) : Withdrawal where
  userId := prepared.userId
  assetNetworkId := prepared.assetNetworkId
  destinationAddress := prepared.destinationAddress
  destinationTag := prepared.destinationTag
  amount := prepared.amount
  fee := prepared.fee
  status := .requested
  clientWithdrawalId := prepared.clientWithdrawalId
  txHash := none
  custodyReference := none
  broadcastByAdminId := none
  broadcastAt := none
  confirmedAt := none
  failureReason := none
  complianceDecision := prepared.compliance.decision
  complianceNote := prepared.compliance.reason
  createdAt := now

def Prepared.matchesRow (prepared : Prepared) (w : Withdrawal) : Prop :=
  w.assetNetworkId = prepared.assetNetworkId ∧ w.destinationAddress = prepared.destinationAddress ∧
    w.destinationTag = prepared.destinationTag ∧ w.amount = prepared.amount

instance (prepared : Prepared) (w : Withdrawal) : Decidable (prepared.matchesRow w) :=
  inferInstanceAs (Decidable (_ ∧ _))

def reservation (prepared : Prepared) (withdrawalId : Nat) : Ledger.ReserveFunds where
  userId := prepared.userId
  assetSymbol := prepared.assetSymbol
  input :=
    { amount := prepared.amount
      referenceType := .withdrawal
      referenceId := withdrawalId
      idempotencyKey := ⟨"withdrawal-reserve", [withdrawalId]⟩ }

/-- The transaction of `request`. -/
def request (now : Time) (prepared : Prepared) : Tx Db Fault Nat := do
  let (withdrawalId, alreadyExisted) ← createIdempotent "clientWithdrawalId"
    (do
      checkDailyLimit now prepared
      create withdrawalsField (withdrawalRow now prepared))
    (do
      let (i, _) ← findOrThrow withdrawalsField fun w =>
        decide (w.userId = prepared.userId) && decide (w.clientWithdrawalId = prepared.clientWithdrawalId)
      pure i)
    (.staleSnapshotConflict "clientWithdrawalId")
  if alreadyExisted then do
    let created ← getOrThrow withdrawalsField withdrawalId
    throwIf (¬ prepared.matchesRow created) (.conflict
      "clientWithdrawalId was already used for a different withdrawal; use a new clientWithdrawalId for a new withdrawal.")
    pure withdrawalId
  else do
    let _ ← zoom ledgerField (Ledger.reserve (reservation prepared withdrawalId))
    let created ← getOrThrow withdrawalsField withdrawalId
    update withdrawalsField withdrawalId { created with status := .riskReview }
    pure withdrawalId

end Request

section Transitions

def getWithdrawal (withdrawalId : Nat) : Tx Db Fault Withdrawal := do
  let current ← read fun db => db.wallet.withdrawals.get? withdrawalId
  orThrow current (.notFound "Withdrawal not found")

def statusIn (statuses : List WithdrawalStatus) (w : Withdrawal) : Bool := decide (w.status ∈ statuses)

def casTransition (withdrawalId : Nat) (allowedFrom : List WithdrawalStatus) (data : Withdrawal → Withdrawal) :
    Tx Db Fault Withdrawal := do
  let count ← updateMany withdrawalsField withdrawalId (statusIn allowedFrom) data
  if count then getOrThrow withdrawalsField withdrawalId
  else do
    let current ← getWithdrawal withdrawalId
    fail (.conflict ("Withdrawal " ++ toString withdrawalId ++ " is in status " ++ current.status.text ++
      ", expected one of: " ++ ", ".intercalate (allowedFrom.map WithdrawalStatus.text)))

def assertSuperAdmin (actorId : Nat) : Tx Db Fault Unit := do
  let actor ← read fun db => db.core.users.get? actorId
  let actor ← orThrow actor (.forbidden "Unknown user")
  throwIf (actor.role ≠ .superAdmin) (.forbidden "Only a SUPER_ADMIN may approve or reject a withdrawal")

def releaseFunds (withdrawalId : Nat) : Tx Db Fault Unit :=
  zoom fundsField (Reserved.releaseByReference .withdrawal withdrawalId)

def cancel (userId withdrawalId : Nat) : Tx Db Fault Withdrawal := do
  let owned ← getWithdrawal withdrawalId
  throwIf (owned.userId ≠ userId) (.notFound "Withdrawal not found")
  let result ← casTransition withdrawalId [.requested, .riskReview] fun w => { w with status := .cancelled }
  releaseFunds withdrawalId
  pure result

def releaseReservation (withdrawalId : Nat) (reason : String) (terminalStatus : WithdrawalStatus)
    (allowedFrom : List WithdrawalStatus) : Tx Db Fault Withdrawal := do
  let withdrawal ← casTransition withdrawalId allowedFrom fun w =>
    { w with status := terminalStatus, failureReason := some reason }
  releaseFunds withdrawalId
  pure withdrawal

def reject (withdrawalId : Nat) (reason : String) (actorId : Nat) : Tx Db Fault Withdrawal := do
  assertSuperAdmin actorId
  releaseReservation withdrawalId reason .rejected [.requested, .riskReview, .approved]

def fail (withdrawalId : Nat) (reason : String) : Tx Db Fault Withdrawal :=
  releaseReservation withdrawalId reason .failed
    [.approved, .pendingManualBroadcast, .broadcasting, .broadcast, .confirming]

def failProviderRejectedSubmission (withdrawalId : Nat) (reason : String) : Tx Db Fault Bool := do
  -- whether this call is the one that failed the withdrawal
  let count ← updateMany withdrawalsField withdrawalId
    (statusIn [.approved, .pendingManualBroadcast, .broadcasting])
    fun w => { w with status := .failed, failureReason := some reason }
  if count then do
    releaseFunds withdrawalId
    pure true
  else pure false

end Transitions

section Execution

/-- The first compare-and-set of `approve`: the human decision. -/
def approve (withdrawalId actorId : Nat) : Tx Db Fault Withdrawal := do
  assertSuperAdmin actorId
  casTransition withdrawalId [.riskReview] fun w => { w with status := .approved }

/-- The second compare-and-set of `approve`: the execution lease. -/
def claimLease (withdrawalId : Nat) : Tx Db Fault Withdrawal :=
  casTransition withdrawalId [.approved] fun w => { w with status := .broadcasting }

structure WithdrawalExecutionRequest where
  withdrawalId : Nat
  assetNetworkId : Nat
  destinationAddress : String
  destinationTag : Option String
  amount : ℚ
  idempotencyKey : Nat
  deriving DecidableEq

/-- What `approve` passes to `executor.execute()`: the net amount. -/
def executionRequest (withdrawalId : Nat) : Tx Db Fault WithdrawalExecutionRequest := do
  let w ← getWithdrawal withdrawalId
  pure
    { withdrawalId := withdrawalId
      assetNetworkId := w.assetNetworkId
      destinationAddress := w.destinationAddress
      destinationTag := w.destinationTag
      amount := w.amount - w.fee
      idempotencyKey := withdrawalId }

/-- How an `execute()` call ends: with a result, or by throwing (`none`). -/
abbrev ExecutionOutcome := Option WithdrawalExecutionResult

/-- The row once `execute()` has ended; a throw gives the lease back. -/
def executed (now : Time) (outcome : ExecutionOutcome) (w : Withdrawal) : Withdrawal :=
  match outcome with
  | none => { w with status := .approved }
  | some (.broadcast txHash providerReference) =>
    { w with
      status := .broadcast
      txHash := some txHash
      custodyReference := providerReference.or w.custodyReference
      broadcastAt := some now }
  | some (.ambiguous providerReference reason) =>
    { w with
      status := .executionAmbiguous
      custodyReference := providerReference.or w.custodyReference
      failureReason := some reason }
  | some (.awaitingManualBroadcast providerReference) =>
    { w with
      status := .pendingManualBroadcast
      custodyReference := providerReference.or w.custodyReference }

/-- What `approve` records after the executor call. -/
def recordExecution (now : Time) (withdrawalId : Nat) (outcome : ExecutionOutcome) : Tx Db Fault Withdrawal :=
  casTransition withdrawalId [.broadcasting] (executed now outcome)

def assertTxHashNotAlreadyUsed (txHash : String) : Tx Db Fault Unit := do
  match ← find? withdrawalsField fun w => decide (w.txHash = some txHash) with
  | some (existing, _) => Tx.fail (.conflict
      ("txHash " ++ txHash ++ " is already recorded against withdrawal " ++ toString existing ++
        " — a real transaction hash can never settle two withdrawals"))
  | none => pure ()

inductive AmbiguityResolution
  | confirmedBroadcast (txHash : String)
  | confirmedNotExecuted

def resolveAmbiguousExecution (now : Time) (withdrawalId actorId : Nat) (resolution : AmbiguityResolution) :
    Tx Db Fault Withdrawal := do
  assertSuperAdmin actorId
  match resolution with
  | .confirmedBroadcast txHash => do
    assertTxHashNotAlreadyUsed txHash
    casTransition withdrawalId [.executionAmbiguous] fun w =>
      { w with status := .broadcast, txHash := some txHash, broadcastAt := some now }
  | .confirmedNotExecuted =>
    casTransition withdrawalId [.executionAmbiguous] fun w => { w with status := .approved }

structure Declaration where
  -- the state that the evidence of a declaration was gathered for
  withdrawalId : Nat
  status : WithdrawalStatus
  txHash : Option String

def chainConflict : ChainStatus → String
  | .failed =>
    "The recorded txHash is FAILED on-chain — the withdrawal watcher fails the withdrawal from that evidence; no declaration is needed."
  | .pending =>
    "The recorded txHash exists on-chain (pending) — funds may have moved. Use POST /admin/withdrawals/:id/reconcile; a destination/amount mismatch requires a product decision, not this recovery path."
  | _ =>
    "The recorded txHash exists on-chain (confirmed) — funds may have moved. Use POST /admin/withdrawals/:id/reconcile; a destination/amount mismatch requires a product decision, not this recovery path."

/-- The states that a declaration applies to, with what each asks for; `chain` is what the lookup of the recorded
hash reports, where one is made. -/
def checkStuck (withdrawalId : Nat) (current : Withdrawal) (chain : ChainStatus) : Tx Db Fault Unit :=
  match current.status with
  | .broadcasting => pure ()
  | .pendingManualBroadcast =>
    let reference := current.custodyReference.getD ""
    throwIf (reference ≠ "") (.conflict
      ("Withdrawal " ++ toString withdrawalId ++ " is held by a custody provider (reference " ++ reference ++
        "), which may still broadcast it — resolve it with the provider (its outcome is applied via the watcher/webhook), not by declaring it ambiguous."))
  | .broadcast => throwIf (chain ≠ .notFound) (.conflict (chainConflict chain))
  | .confirming => throwIf (chain ≠ .notFound) (.conflict (chainConflict chain))
  | status => Tx.fail (.conflict
      ("Withdrawal " ++ toString withdrawalId ++ " is in status " ++ status.text ++
        ", which is not a stuck execution state this recovery applies to."))

/-- The part of `declareExecutionAmbiguous` before its transaction. -/
def gatherEvidence (withdrawalId actorId : Nat) (chain : ChainStatus) : Tx Db Fault Declaration := do
  assertSuperAdmin actorId
  let current ← getWithdrawal withdrawalId
  checkStuck withdrawalId current chain
  pure { withdrawalId := withdrawalId, status := current.status, txHash := current.txHash }

/-- The transaction of `declareExecutionAmbiguous`: a compare-and-set on the status and the hash. -/
def declareExecutionAmbiguous (declaration : Declaration) (reason : String) : Tx Db Fault Withdrawal := do
  let count ← updateMany withdrawalsField declaration.withdrawalId
    (fun w => decide (w.status = declaration.status) && decide (w.txHash = declaration.txHash))
    fun w => { w with
      status := .executionAmbiguous
      txHash := none
      failureReason := some ("Declared execution-ambiguous by SUPER_ADMIN: " ++ reason) }
  throwIf (count = false) (.conflict
    ("Withdrawal " ++ toString declaration.withdrawalId ++
      " changed state while the declaration was being evaluated — re-check and retry."))
  getOrThrow withdrawalsField declaration.withdrawalId

def recordManualBroadcast (now : Time) (withdrawalId adminId : Nat) (txHash : String) : Tx Db Fault Withdrawal := do
  assertSuperAdmin adminId
  assertTxHashNotAlreadyUsed txHash
  casTransition withdrawalId [.pendingManualBroadcast] fun w =>
    { w with
      status := .broadcast
      txHash := some txHash
      broadcastByAdminId := some adminId
      broadcastAt := some now }

def recordProviderBroadcast (now : Time) (withdrawalId : Nat) (txHash : String) (providerReference : Option String) :
    Tx Db Fault Bool := do
  -- whether the withdrawal was still waiting for its broadcast
  assertTxHashNotAlreadyUsed txHash
  updateMany withdrawalsField withdrawalId (statusIn [.pendingManualBroadcast]) fun w =>
    { w with
      status := .broadcast
      txHash := some txHash
      custodyReference := providerReference.or w.custodyReference
      broadcastAt := some now }

end Execution

section Confirmation

def withdrawalReconcileAmountTolerance : ℚ := 1 / 10 ^ 18

def isBech32 (address : String) : Bool :=
  ["bc1", "tb1", "bcrt1"].any fun hrp =>
    decide ((address.toList.take hrp.length).map Char.toLower = hrp.toList)

def destinationsMatch (config : WalletConfig) (observed recorded : String) : Bool :=
  if (observed.startsWith "0x" && recorded.startsWith "0x") || (isBech32 observed && isBech32 recorded) then
    decide (config.toLowerCase observed = config.toLowerCase recorded)
  else decide (observed = recorded)

inductive ChainMismatch
  | destination
  | destinationTag
  | noOutput
  | amount (observed expectedNet : ℚ)
  deriving DecidableEq

/-- The amount that counts: where the chain reports outputs, only those that pay the recorded address. -/
def observedAmount (config : WalletConfig) (w : Withdrawal) (chain : ObservedChainTransaction) : Except ChainMismatch ℚ :=
  match chain.outputs with
  | none => .ok chain.amount
  | some outputs =>
    let paid := outputs.filter fun output => destinationsMatch config output.address w.destinationAddress
    if paid = [] then .error .noOutput
    else .ok (paid.map ChainTransactionOutput.amount).sum

def findChainMismatch (config : WalletConfig) (w : Withdrawal) (chain : ObservedChainTransaction) :
    Option ChainMismatch :=
  if (chain.destinationAddress.any fun address =>
      decide (address ≠ "") && !destinationsMatch config address w.destinationAddress) then some .destination
  else if (chain.destinationTag.any fun tag => decide (w.destinationTag ≠ tag)) then some .destinationTag
  else
    match observedAmount config w chain with
    | .error mismatch => some mismatch
    | .ok observed =>
      let expectedNet := w.amount - w.fee
      if withdrawalReconcileAmountTolerance < |observed - expectedNet| then some (.amount observed expectedNet)
      else none

/-- `recordConfirmation` below the required number of confirmations. -/
def recordUnconfirmed (withdrawalId : Nat) : Tx Db Fault Withdrawal := do
  let _ ← updateMany withdrawalsField withdrawalId (statusIn [.broadcast, .confirming])
    fun w => { w with status := .confirming }
  getWithdrawal withdrawalId

/-- `recordConfirmation`'s look at the row before it credits: whether the observed transaction may pay it. -/
def verifyConfirmation (config : WalletConfig) (withdrawalId : Nat) (observedChain : Option ObservedChainTransaction) :
    Tx Db Fault Bool := do
  match observedChain with
  | none => pure true
  | some chain => do
    let current ← getWithdrawal withdrawalId
    if statusIn [.broadcast, .confirming] current then pure (findChainMismatch config current chain).isNone
    else pure true

def captureFunds (withdrawalId : Nat) : Tx Db Fault Unit := do
  match ← zoom fundsField (Reserved.findActiveByReference .withdrawal withdrawalId) with
  | some (reservationId, _) => do
    let _ ← zoom fundsField (Reserved.capture reservationId)
    pure ()
  | none => pure ()

def capturePostings (w : Withdrawal) : List Ledger.Posting :=
  [{ account := .user w.userId, amount := -w.amount },
    { account := .house .externalChain, amount := w.amount - w.fee }] ++
    if w.fee = 0 then [] else [{ account := .house .feeRevenue, amount := w.fee }]

def captureInput (withdrawalId : Nat) (w : Withdrawal) (assetSymbol : String) : Ledger.PostTransactionInput where
  assetSymbol := assetSymbol
  type := .withdrawal
  referenceType := .withdrawal
  referenceId := withdrawalId
  idempotencyKey := ⟨"withdrawal-capture", [withdrawalId]⟩
  postings := capturePostings w

/-- `recordConfirmation`'s transaction once there are enough confirmations; whether this call credited. -/
def creditConfirmed (now : Time) (withdrawalId : Nat) : Tx Db Fault Bool := do
  let count ← updateMany withdrawalsField withdrawalId (statusIn [.broadcast, .confirming])
    fun w => { w with status := .confirmed, confirmedAt := some now }
  if count then do
    let w ← getOrThrow withdrawalsField withdrawalId
    let assetNetwork ← getOrThrow assetNetworksField w.assetNetworkId
    let asset ← read fun db => db.core.ledger.assets.get? assetNetwork.assetId
    let asset ← orThrow asset (.db .recordNotFound)
    captureFunds withdrawalId
    let _ ← zoom ledgerField (Ledger.postTransaction (captureInput withdrawalId w asset.symbol))
    let current ← getOrThrow withdrawalsField withdrawalId
    update withdrawalsField withdrawalId { current with status := .credited }
    pure true
  else do
    let _ ← getOrThrow withdrawalsField withdrawalId
    pure false

end Confirmation

end VerdictVaut.WithdrawalsService

namespace VerdictVaut.WithdrawalWatcherService

/-- What `checkOne` does with the reported status of the hash it asked for. -/
inductive Check
  | leave
  | fail (reason : String)
  | recordConfirmation (confirmations requiredConfirmations : Int) (observed : ObservedChainTransaction)

def checkOne (txHash : String) (status : ChainTransactionStatus) (requiredConfirmations : Int) : Check :=
  match status.status with
  | .notFound => .leave
  | .failed => .fail ("Broadcast transaction " ++ txHash ++ " failed on-chain.")
  | _ => .recordConfirmation status.confirmations requiredConfirmations status.toObservedChainTransaction

end VerdictVaut.WithdrawalWatcherService
