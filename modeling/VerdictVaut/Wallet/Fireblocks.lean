import VerdictVaut.Wallet.Withdrawals
import VerdictVaut.Shared.Fallible

set_option autoImplicit false

namespace VerdictVaut

/-- A value that `JSON.parse` returns. -/
inductive Json
  | null
  | bool (value : Bool)
  | number (value : ℚ)
  | string (value : String)
  | array (items : List Json)
  | object (fields : List (String × Json))

namespace Json

/-- The value of a property, the last one of that name; `none` is `undefined`. -/
def field (name : String) : Json → Option Json
  | .object fields => (fields.reverse.find? fun entry => decide (entry.1 = name)).map Prod.snd
  | _ => none

def isNull : Json → Bool
  | .null => true
  | _ => false

/-- Whether a property value counts as true; `none` is `undefined`. -/
def truthy : Option Json → Bool
  | none | some .null | some (.bool false) => false
  | some (.number value) => decide (value ≠ 0)
  | some (.string value) => decide (value ≠ "")
  | some _ => true

def text? : Option Json → Option String
  | some (.string value) => some value
  | _ => none

end Json

namespace FireblocksCustodyAdapter

open WithdrawalsService (WithdrawalExecutionRequest)

inductive NetworkEnvironment
  | sandbox | production
  deriving DecidableEq

structure WithdrawalExecutionConfig where
  assetNetworkId : Nat
  custodyProviderConfigId : Option Nat
  providerAssetId : Option String

structure CustodyProviderConfig where
  environment : NetworkEnvironment
  credentialsSecretRef : Option String
  timeoutMs : Int
  vaultOrAccountRef : Option String
  apiBaseUrl : Option String

structure FireblocksHttpConfig where
  apiBaseUrl : String
  apiKey : Option Json
  privateKeyPem : Option Json
  timeoutMs : Int

/-- The body of the one request that `execute` sends. -/
structure TransactionRequest where
  assetId : String
  amount : ℚ
  vaultAccountId : String
  oneTimeAddress : String
  externalTxId : Nat
  withdrawalId : Nat

structure Services where
  findExecutionConfig : Nat → Option WithdrawalExecutionConfig
  findProviderConfig : Nat → Option CustodyProviderConfig
  appEnvironment : String
  resolveSecret : String → Option String
  parse : String → Option Json
  sign : FireblocksHttpConfig → TransactionRequest → Option String

/-- How the exchange with Fireblocks ends: no response, or one whose body cannot be read or is some text. -/
inductive HttpExchange
  | noResponse (cause : String)
  | response (status : Nat) (body : Option String)

inductive Thrown
  -- what a call may throw, with the values its message is built from
  | unverifiedDestinationTag
  | noProviderAssetId (assetNetworkId : Nat)
  | noCustodyProviderConfig
  | incompleteProviderConfig
  | wrongEnvironment (environment : NetworkEnvironment)
  | unresolvedSecret (ref : String)
  | credentialsNotJson
  | typeError
  | incompleteCredentials
  | noVaultAccount
  | unsigned
  | unreadBody
  | transport (cause : String)
  | api (status : Nat) (body : Json)
  | malformedResponse (status : Nat)
  | authenticationFailed (status : Nat)
  | rateLimited
  | invalidRequest (status : Nat)
  | notExecuted (status : Option Json) (id : Option Json)
  | unrecognizedStatus (status : Option Json)

inductive ExecutionResult
  | broadcast (txHash : Option Json) (providerReference : Option Json)
  | awaitingManualBroadcast (providerReference : Option Json)
  | ambiguous (providerReference : Option Json) (reason : String)

def PENDING_STATUSES : List String :=
  ["SUBMITTED", "PENDING_AML_SCREENING", "PENDING_ENRICHMENT", "PENDING_AUTHORIZATION", "QUEUED", "PENDING_SIGNATURE",
    "SIGNED", "PENDING_3RD_PARTY_MANUAL_APPROVAL", "PENDING_3RD_PARTY", "CANCELLING"]

def BROADCAST_STATUSES : List String :=
  ["BROADCASTING", "CONFIRMING", "COMPLETED"]

def REJECTED_STATUSES : List String :=
  ["BLOCKED", "REJECTED", "FAILED", "CANCELLED"]

/-- `Set.has`: only a string can be in a set of strings. -/
def has (statuses : List String) (status : Option Json) : Bool :=
  (Json.text? status).any statuses.contains

/-- What the response is read for. Reading a property of `null` throws. -/
structure TransactionSnapshot where
  id : Option Json
  status : Option Json
  txHash : Option Json

def snapshot (response : Json) : Except Thrown TransactionSnapshot :=
  if response.isNull then .error .typeError
  else .ok ⟨response.field "id", response.field "status", response.field "txHash"⟩

def mapFireblocksResponseToExecutionResult (tx : TransactionSnapshot) : Except Thrown ExecutionResult :=
  if has REJECTED_STATUSES tx.status then .error (.notExecuted tx.status tx.id)
  else if has BROADCAST_STATUSES tx.status then
    if ¬ Json.truthy tx.txHash then
      .ok (.ambiguous tx.id ("Fireblocks reported status " ++ (Json.text? tx.status).getD "" ++
        " but did not include a txHash."))
    else .ok (.broadcast tx.txHash tx.id)
  else if has PENDING_STATUSES tx.status then .ok (.awaitingManualBroadcast tx.id)
  else .error (.unrecognizedStatus tx.status)

/-- `response.ok`. -/
def ok (status : Nat) : Bool :=
  decide (200 ≤ status ∧ status < 300)

section Calls

variable (services : Services) (exchange : HttpExchange)

def parseBody (text : String) : Option Json :=
  if text = "" then some (.object []) else services.parse text

/-- The part of `fireblocksRequest` after the request has been sent. -/
def readResponse : Except Thrown Json :=
  match exchange with
  | .noResponse cause => .error (.transport cause)
  | .response _ none => .error .unreadBody
  | .response status (some text) =>
    match parseBody services text with
    | none => .error (.malformedResponse status)
    | some parsed => if ok status then .ok parsed else .error (.api status parsed)

def fireblocksRequest (config : FireblocksHttpConfig) (body : TransactionRequest) : Except Thrown Json :=
  match services.sign config body with
  | none => .error .unsigned
  | some _ => readResponse services exchange

def handleExecuteFailure : Thrown → Except Thrown ExecutionResult
  | .transport cause =>
    .ok (.ambiguous none ("Fireblocks request failed before any response was received: " ++ cause))
  | .api status _ =>
    if status = 401 ∨ status = 403 then .error (.authenticationFailed status)
    else if status = 429 then .error .rateLimited
    else if 400 ≤ status ∧ status < 500 then .error (.invalidRequest status)
    else .ok (.ambiguous none ("Fireblocks returned a server error (HTTP " ++ toString status ++ ")."))
  | .malformedResponse status =>
    .ok (.ambiguous none ("Fireblocks response (status " ++ toString status ++ ") was not valid JSON"))
  | error => .error error

def requiredProviderConfigEnvironment (appEnvironment : String) : NetworkEnvironment :=
  if appEnvironment = "production" then .production else .sandbox

def findProviderConfig (custodyProviderConfigId : Option Nat) : Except Thrown (Option CustodyProviderConfig) :=
  match custodyProviderConfigId with
  | none => .error .noCustodyProviderConfig
  | some id => .ok (services.findProviderConfig id)

def given (value : Option String) : Option String :=
  value.filter fun text => decide (text ≠ "")

def resolveCredentials (config : CustodyProviderConfig) (apiBaseUrl secretRef : String) :
    Except Thrown FireblocksHttpConfig :=
  if config.environment ≠ requiredProviderConfigEnvironment services.appEnvironment then
    .error (.wrongEnvironment config.environment)
  else
    match services.resolveSecret secretRef with
    | none => .error (.unresolvedSecret secretRef)
    | some credentialsJson =>
      match services.parse credentialsJson with
      | none => .error .credentialsNotJson
      | some credentials =>
        if credentials.isNull then .error .typeError
        else if Json.truthy (credentials.field "apiKey") ∧ Json.truthy (credentials.field "privateKey") then
          .ok
            { apiBaseUrl := apiBaseUrl
              apiKey := credentials.field "apiKey"
              privateKeyPem := credentials.field "privateKey"
              timeoutMs := config.timeoutMs }
        else .error .incompleteCredentials

def resolveHttpConfig (custodyProviderConfigId : Option Nat) : Except Thrown FireblocksHttpConfig := do
  let found ← findProviderConfig services custodyProviderConfigId
  match found with
  | none => .error .incompleteProviderConfig
  | some config =>
    match given config.apiBaseUrl, given config.credentialsSecretRef with
    | some apiBaseUrl, some secretRef => resolveCredentials services config apiBaseUrl secretRef
    | _, _ => .error .incompleteProviderConfig

def resolveVaultAccountId (custodyProviderConfigId : Option Nat) : Except Thrown String := do
  let found ← findProviderConfig services custodyProviderConfigId
  match found.bind fun config => given config.vaultOrAccountRef with
  | none => .error .noVaultAccount
  | some vaultAccountId => .ok vaultAccountId

def prepare (request : WithdrawalExecutionRequest) : Except Thrown (FireblocksHttpConfig × TransactionRequest) := do
  -- the configuration and the body of the request, as far as they can be put together
  if (given request.destinationTag).isSome then .error .unverifiedDestinationTag
  else
    match services.findExecutionConfig request.assetNetworkId with
    | none => .error (.noProviderAssetId request.assetNetworkId)
    | some executionConfig =>
      match given executionConfig.providerAssetId with
      | none => .error (.noProviderAssetId request.assetNetworkId)
      | some assetId => do
        let httpConfig ← resolveHttpConfig services executionConfig.custodyProviderConfigId
        let vaultAccountId ← resolveVaultAccountId services executionConfig.custodyProviderConfigId
        pure
          (httpConfig,
            { assetId := assetId
              amount := request.amount
              vaultAccountId := vaultAccountId
              oneTimeAddress := request.destinationAddress
              externalTxId := request.idempotencyKey
              withdrawalId := request.withdrawalId })

def conclude : Except Thrown Json → Except Thrown ExecutionResult
  | .error error => handleExecuteFailure error
  | .ok response => snapshot response >>= mapFireblocksResponseToExecutionResult

def execute (request : WithdrawalExecutionRequest) : Except Thrown ExecutionResult := do
  let prepared ← prepare services request
  conclude (fireblocksRequest services exchange prepared.1 prepared.2)

def Sent (request : WithdrawalExecutionRequest) : Prop :=
  -- the request has been put together and signed
  ∃ httpConfig body jwt, prepare services request = .ok (httpConfig, body) ∧ services.sign httpConfig body = some jwt

end Calls

def ClientError : HttpExchange → Prop
  | .noResponse _ => False
  | .response status _ => 400 ≤ status ∧ status < 500

def Rejected (services : Services) : HttpExchange → Prop
  -- the response is a 2xx that reports one of the rejected statuses
  | .response status (some text) => ok status = true ∧
      ∃ parsed, parseBody services text = some parsed ∧ has REJECTED_STATUSES (parsed.field "status") = true
  | _ => False

def Understood (services : Services) : HttpExchange → Prop
  -- the body can be read, except of a 4xx, and that of a 2xx is no JSON or reports a listed status
  | .noResponse _ => True
  | .response status none => 400 ≤ status ∧ status < 500
  | .response status (some text) => ok status = true → ∀ parsed, parseBody services text = some parsed →
      has (REJECTED_STATUSES ++ BROADCAST_STATUSES ++ PENDING_STATUSES) (parsed.field "status") = true

section Executing

variable {services : Services} {exchange : HttpExchange} {request : WithdrawalExecutionRequest}
  {httpConfig : FireblocksHttpConfig} {body : TransactionRequest} {jwt : String} {response : Json} {status : Nat}

theorem has_append (first second : List String) (status : Option Json) :
    has (first ++ second) status = (has first status || has second status) := by
  unfold has
  cases Json.text? status with
  | none => rfl
  | some text => simp

theorem field_of_isNull (null : response.isNull = true) (name : String) : response.field name = none := by
  cases response with
  | null => rfl
  | _ => cases null

theorem execute_of_sent (prepared : prepare services request = .ok (httpConfig, body))
    (signed : services.sign httpConfig body = some jwt) : execute services exchange request = conclude (readResponse services exchange) := by
  rw [execute, prepared]
  simp only [bind, Except.bind, fireblocksRequest, signed]

theorem answered_throws : (∃ e, conclude (.ok response) = .error e) ↔
    has REJECTED_STATUSES (response.field "status") = true ∨
      has (REJECTED_STATUSES ++ BROADCAST_STATUSES ++ PENDING_STATUSES) (response.field "status") = false := by
  -- an answer in the success range makes the call throw when it is rejected or not understood
  simp only [conclude, snapshot]
  by_cases null : response.isNull = true
  · rw [if_pos null, field_of_isNull null]
    exact iff_of_true ⟨_, rfl⟩ (.inr rfl)
  · rw [if_neg null, show ∀ tx, (Except.ok tx : Except Thrown TransactionSnapshot) >>=
      mapFireblocksResponseToExecutionResult = mapFireblocksResponseToExecutionResult tx from fun _ => rfl]
    simp only [mapFireblocksResponseToExecutionResult, has_append]
    cases has REJECTED_STATUSES (response.field "status") with
    | true => simp
    | false =>
      cases has BROADCAST_STATUSES (response.field "status") with
      | true => cases Json.truthy (response.field "txHash") <;> simp
      | false => cases has PENDING_STATUSES (response.field "status") <;> simp

theorem api_throws (parsed : Json) :
    (∃ e, conclude (.error (.api status parsed)) = .error e) ↔ 400 ≤ status ∧ status < 500 := by
  simp only [conclude, handleExecuteFailure]
  split
  · exact iff_of_true ⟨_, rfl⟩ (by omega)
  · split
    · exact iff_of_true ⟨_, rfl⟩ (by omega)
    · split
      · exact iff_of_true ⟨_, rfl⟩ ‹_›
      · exact iff_of_false (by simp) ‹_›

/-- A response with a body: it may make the call throw as a 4xx or as a rejection, and otherwise when it is not
understood. -/
theorem answered_iff (status : Nat) (text : String) :
    ((∃ e, conclude (readResponse services (.response status (some text))) = .error e) →
        ClientError (.response status (some text)) ∨ Rejected services (.response status (some text))) ↔
      Understood services (.response status (some text)) := by
  simp only [ClientError, Rejected, Understood]
  cases parsed : parseBody services text with
  | none => simp [readResponse, parsed, conclude, handleExecuteFailure]
  | some response =>
    by_cases success : ok status = true
    · have other : ¬ (400 ≤ status ∧ status < 500) := by
        have bounds : 200 ≤ status ∧ status < 300 := of_decide_eq_true success
        omega
      have answer : readResponse services (.response status (some text)) = .ok response := by
        simp only [readResponse, parsed, success, if_true]
      simp only [answer, answered_throws, Option.some.injEq, exists_eq_left', success, true_and, forall_const,
        forall_eq', or_iff_right other]
      -- a rejected status is a listed one
      cases rejected : has REJECTED_STATUSES (response.field "status") with
      | true => simp [has_append, rejected]
      | false => simp
    · have answer : readResponse services (.response status (some text)) = .error (.api status response) := by
        simp only [readResponse, parsed, success, if_false, Bool.false_eq_true]
      rw [answer, api_throws]
      exact iff_of_true .inl fun also => absurd also success

end Executing

theorem execute_throws_only_iff (services : Services) (exchange : HttpExchange) (request : WithdrawalExecutionRequest) :
    ((∃ e, execute services exchange request = .error e) →
      ¬ Sent services request ∨ ClientError exchange ∨ Rejected services exchange) ↔
    (Sent services request → Understood services exchange) := by
  by_cases sent : Sent services request
  · rw [imp_iff_right sent, or_iff_right (not_not_intro sent)]
    obtain ⟨httpConfig, body, jwt, prepared, signed⟩ := sent
    rw [execute_of_sent prepared signed]
    cases exchange with
    | noResponse cause => exact iff_of_true (fun throws => by obtain ⟨e, thrown⟩ := throws; cases thrown) trivial
    | response status text =>
      cases text with
      | none => exact ⟨fun only => (only ⟨_, rfl⟩).resolve_right id, fun refused _ => .inl refused⟩
      | some text => exact answered_iff status text
  · exact iff_of_true (fun _ => .inl sent) fun also => absurd also sent

section Samples

def Services.sample : Services where
  -- a configured adapter for one asset network; of all texts it knows to parse its own credentials
  findExecutionConfig assetNetworkId := some ⟨assetNetworkId, some 1, some "BTC_TEST"⟩
  findProviderConfig _ := some ⟨.sandbox, some "env:FIREBLOCKS", 10000, some "0", some "api"⟩
  appEnvironment := "sandbox"
  resolveSecret _ := some "credentials"
  parse text := if text = "credentials" then
      some (.object [("apiKey", .string "key"), ("privateKey", .string "pem")])
    else none
  sign _ _ := some "jwt"

def withdrawalRequest : WithdrawalExecutionRequest where
  withdrawalId := 1
  assetNetworkId := 1
  destinationAddress := "tb1q"
  destinationTag := none
  amount := 1
  idempotencyKey := 1

/-- The connection is lost while the body of a 200 response is read. -/
theorem lostBody_throws : Sent .sample withdrawalRequest ∧
    execute .sample (.response 200 none) withdrawalRequest = .error .unreadBody ∧
    ¬ ClientError (.response 200 none) ∧ ¬ Rejected .sample (.response 200 none) :=
  ⟨⟨_, _, _, rfl, rfl⟩, rfl, by simp [ClientError], id⟩

end Samples

end FireblocksCustodyAdapter

end VerdictVaut
