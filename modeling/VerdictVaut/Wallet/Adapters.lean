import VerdictVaut.Shared.Pages
import Mathlib.Data.List.DropRight
import Mathlib.Logic.Function.Basic

set_option autoImplicit false

namespace VerdictVaut

structure WatchedAddress where
  walletAddressId : Nat
  address : String
  destinationTag : Option String
  deriving DecidableEq

structure AssetNetworkContext where
  assetDecimals : Nat
  contractAddress : Option String
  isNative : Bool
  deriving DecidableEq

structure RawChainDeposit where
  walletAddressId : Nat
  txHash : String
  eventIndex : Nat
  amount : String
  confirmations : Int
  destinationTag : Option String
  deriving DecidableEq

/-- What a scan throws: a failed provider request, a provider's own error, a `BigInt` of no number or of no
numeral, or a field of `undefined`. -/
inductive ChainFault
  | requestFailed
  | accountTxError (code : String)
  | rangeError
  | typeError
  | syntaxError
  deriving DecidableEq

/-- The last-seen transaction id of each watched address, as `parsePerAddressCursor` reads it back. -/
abbrev PerAddressCursor := String → Option String

def rawUnitsToDecimalString (rawUnits : Int) (decimals : Nat) : String :=
  let digits := (Nat.repr rawUnits.natAbs).toList.leftpad (decimals + 1) '0'
  let whole := digits.take (digits.length - decimals)
  let fraction := (if 0 < decimals then digits.drop (digits.length - decimals) else []).rdropWhile (· == '0')
  let integral := if whole.isEmpty then ['0'] else whole
  let unsigned := if 0 < fraction.length then integral ++ '.' :: fraction else integral
  String.ofList (if rawUnits < 0 then '-' :: unsigned else unsigned)

/-- The loop over the watched addresses of `scanForDeposits`, in all three adapters: `fetch` is the walk
back through one address's history, `toDeposits` what the body does with one entry of it. -/
def scanAddresses {T δ : Type} (idOf : T → String)
    (fetch : String → Option String → Except ChainFault (List T × Bool))
    (toDeposits : WatchedAddress → T → Except ChainFault (List δ)) (previousCursors : PerAddressCursor) :
    List WatchedAddress → List δ → PerAddressCursor → Except ChainFault (List δ × PerAddressCursor)
  | [], deposits, nextCursors => .ok (deposits, nextCursors)
  | watched :: rest, deposits, nextCursors => do
    let fetched ← fetch watched.address (previousCursors watched.address)
    let mapped ← fetched.1.mapM (toDeposits watched)
    let advanced :=
      match fetched.1.head? with
      | none => nextCursors
      | some newest =>
        -- a walk that did not catch up leaves the cursor where it was
        if fetched.2 then Function.update nextCursors watched.address (some (idOf newest)) else nextCursors
    scanAddresses idOf fetch toDeposits previousCursors rest (deposits ++ mapped.flatten) advanced

def MAX_PAGES_PER_ADDRESS : Nat := 20

def holds {T : Type} (idOf : T → String) (lastSeen : Option String) (page : List T) : Bool :=
  page.any fun entry => decide (some (idOf entry) = lastSeen)

/-- The `while` loop of Bitcoin's and Solana's walk back, with the number of pages it may still fetch. -/
def fetchOlderPages {T : Type} (idOf : T → String) (pageSize : Nat) (older : String → Except ChainFault (List T))
    (lastSeen : Option String) : Nat → List T → List T → Bool → Except ChainFault (List T × List T × Bool)
  | 0, page, collected, caughtUp => .ok (page, collected, caughtUp)
  | left + 1, page, collected, caughtUp =>
    if caughtUp = false ∧ page.length = pageSize then
      match page.getLast? with
      | none => .error .typeError
      | some oldest => do
        let next ← older (idOf oldest)
        fetchOlderPages idOf pageSize older lastSeen left next (collected ++ next) (holds idOf lastSeen next)
    else .ok (page, collected, caughtUp)

/-- The body of `fetchAddressHistory` and of `fetchSignatureHistory`. -/
def walkBack {T : Type} (idOf : T → String) (pageSize : Nat) (newest : Except ChainFault (List T))
    (older : String → Except ChainFault (List T)) (lastSeen : Option String) : Except ChainFault (List T × Bool) := do
  let page ← newest
  let caughtUp := lastSeen.isNone || holds idOf lastSeen page
  let walked ← fetchOlderPages idOf pageSize older lastSeen (MAX_PAGES_PER_ADDRESS - 1) page page caughtUp
  -- a short final page proves that no older history is left
  let exhaustedAllHistory := decide (walked.1.length < pageSize)
  pure (walked.2.1, walked.2.2 || exhaustedAllHistory)

structure EsploraVout where
  scriptpubkeyAddress : Option String
  value : Int
  deriving DecidableEq

structure EsploraTx where
  txid : String
  vout : List EsploraVout
  confirmed : Bool
  blockHeight : Option Int
  deriving DecidableEq

/-- The replies of an Esplora server: the tip, the first page of an address and its continuations. -/
structure Esplora where
  tipHeight : Except ChainFault Int
  txs : String → Except ChainFault (List EsploraTx)
  txsChain : String → String → Except ChainFault (List EsploraTx)

def esploraConfirmations (tx : EsploraTx) (tipHeight : Int) : Int :=
  match tx.confirmed, tx.blockHeight with
  | true, some height => tipHeight - height + 1
  | _, _ => 0

def mapEsploraTxToDeposits (tx : EsploraTx) (watched : WatchedAddress) (tipHeight : Int) : List RawChainDeposit :=
  (tx.vout.zipIdx).filterMap fun output =>
    if output.1.scriptpubkeyAddress ≠ some watched.address then none
    else some
      { walletAddressId := watched.walletAddressId
        txHash := tx.txid
        eventIndex := output.2
        amount := rawUnitsToDecimalString output.1.value 8
        confirmations := max (esploraConfirmations tx tipHeight) 0
        destinationTag := none }

namespace BitcoinDepositAdapter

def PAGE_SIZE : Nat := 25

def fetchAddressHistory (pageSize : Nat) (esplora : Esplora) (address : String)
    (previousLastSeenTxid : Option String) : Except ChainFault (List EsploraTx × Bool) :=
  walkBack EsploraTx.txid pageSize (esplora.txs address) (esplora.txsChain address) previousLastSeenTxid

/-- `scanForDeposits`, over what is done with each transaction it hands to the mapper. -/
def scan {δ : Type} (esplora : Esplora) (addresses : List WatchedAddress) (cursor : PerAddressCursor)
    (mapper : WatchedAddress → EsploraTx → Except ChainFault (List δ)) :
    Except ChainFault (List δ × PerAddressCursor) :=
  scanAddresses EsploraTx.txid (fetchAddressHistory PAGE_SIZE esplora) mapper cursor addresses [] cursor

def scanForDeposits (esplora : Esplora) (addresses : List WatchedAddress) (cursor : PerAddressCursor) :
    Except ChainFault (List RawChainDeposit × PerAddressCursor) := do
  let tipHeight ← esplora.tipHeight
  scan esplora addresses cursor fun watched tx => .ok (mapEsploraTxToDeposits tx watched tipHeight)

end BitcoinDepositAdapter

structure SolanaTokenBalance where
  accountIndex : Nat
  mint : String
  amount : Int
  decimals : Nat
  deriving DecidableEq

structure SolanaTransactionMeta where
  err : Bool
  preBalances : List Int
  postBalances : List Int
  preTokenBalances : List SolanaTokenBalance
  postTokenBalances : List SolanaTokenBalance
  loadedAddresses : Option (List String × List String)
  deriving DecidableEq

structure SolanaTransaction where
  slot : Int
  accountKeys : List String
  txMeta : Option SolanaTransactionMeta
  deriving DecidableEq

structure SolanaSignatureInfo where
  signature : String
  deriving DecidableEq

/-- The replies of a Solana node, whose signatures come in pages of at most the requested limit and whose
`getTransaction` may answer `null`. -/
structure SolanaRpc where
  getSlot : Except ChainFault Int
  getSignaturesForAddress : String → Nat → Option String → Except ChainFault (List SolanaSignatureInfo)
  getTransaction : String → Except ChainFault (Option SolanaTransaction)

def confirmationsFromSlot (txSlot currentSlot : Int) : Int :=
  max (currentSlot - txSlot) 0

/-- `byAddress(watched).get(address)`: a later entry of the same address replaces an earlier one. -/
def byAddress (watched : List WatchedAddress) (address : String) : Option WatchedAddress :=
  watched.reverse.find? fun w => decide (w.address = address)

def combinedAccountKeys (tx : SolanaTransaction) (txMeta : SolanaTransactionMeta) : List String :=
  match txMeta.loadedAddresses with
  | none => tx.accountKeys
  | some (writable, readonly) => tx.accountKeys ++ writable ++ readonly

def mapNativeSolTransactionToDeposits (signature : String) (tx : SolanaTransaction) (watched : List WatchedAddress)
    (currentSlot : Int) (decimals : Nat) : Except ChainFault (List RawChainDeposit) :=
  match tx.txMeta with
  | none => .ok []
  | some txMeta =>
    if txMeta.err then .ok []
    else do
      let mapped ← (combinedAccountKeys tx txMeta).zipIdx.mapM fun key =>
        match byAddress watched key.1 with
        | none => .ok []
        | some found =>
          match txMeta.postBalances[key.2]?, txMeta.preBalances[key.2]? with
          | some post, some pre =>
            if post - pre ≤ 0 then .ok []
            else .ok [{
              walletAddressId := found.walletAddressId
              txHash := signature
              eventIndex := key.2
              amount := rawUnitsToDecimalString (post - pre) decimals
              confirmations := confirmationsFromSlot tx.slot currentSlot
              destinationTag := none : RawChainDeposit }]
          -- a missing balance makes the difference NaN, which is not `<= 0`
          | _, _ => .error .rangeError
      pure mapped.flatten

def mapSplTokenTransactionToDeposits (signature : String) (tx : SolanaTransaction) (watched : List WatchedAddress)
    (currentSlot : Int) (mint : Option String) (fallbackDecimals : Nat) : List RawChainDeposit :=
  match tx.txMeta with
  | none => []
  | some txMeta =>
    if txMeta.err then []
    else txMeta.postTokenBalances.filterMap fun post =>
      if some post.mint ≠ mint then none
      else match ((combinedAccountKeys tx txMeta)[post.accountIndex]?).bind (byAddress watched) with
        | none => none
        | some found =>
          let pre := txMeta.preTokenBalances.reverse.find? fun b => decide (b.accountIndex = post.accountIndex)
          let delta := post.amount - (pre.map SolanaTokenBalance.amount).getD 0
          if delta ≤ 0 then none
          else some
            { walletAddressId := found.walletAddressId
              txHash := signature
              eventIndex := post.accountIndex
              amount := rawUnitsToDecimalString delta (if post.decimals = 0 then fallbackDecimals else post.decimals)
              confirmations := confirmationsFromSlot tx.slot currentSlot
              destinationTag := none }

namespace SolanaDepositAdapter

def RECENT_SIGNATURES_LIMIT : Nat := 25

def mapTransaction (signature : String) (tx : SolanaTransaction) (watched : List WatchedAddress)
    (currentSlot : Int) (network : AssetNetworkContext) : Except ChainFault (List RawChainDeposit) :=
  if network.isNative then
    mapNativeSolTransactionToDeposits signature tx watched currentSlot network.assetDecimals
  else
    .ok (mapSplTokenTransactionToDeposits signature tx watched currentSlot network.contractAddress network.assetDecimals)

def fetchSignatureHistory (limit : Nat) (rpc : SolanaRpc) (address : String)
    (previousLastSeenSignature : Option String) : Except ChainFault (List SolanaSignatureInfo × Bool) :=
  walkBack SolanaSignatureInfo.signature limit (rpc.getSignaturesForAddress address limit none)
    (fun before => rpc.getSignaturesForAddress address limit (some before)) previousLastSeenSignature

/-- `scanForDeposits`, over what is done with each transaction it hands to the mapper. -/
def scan {δ : Type} (rpc : SolanaRpc) (addresses : List WatchedAddress) (cursor : PerAddressCursor)
    (mapper : WatchedAddress → String → SolanaTransaction → Except ChainFault (List δ)) :
    Except ChainFault (List δ × PerAddressCursor) :=
  scanAddresses SolanaSignatureInfo.signature (fetchSignatureHistory RECENT_SIGNATURES_LIMIT rpc)
    (fun watched entry => do
      match ← rpc.getTransaction entry.signature with
      | none => pure []
      | some tx => mapper watched entry.signature tx)
    cursor addresses [] cursor

def scanForDeposits (rpc : SolanaRpc) (network : AssetNetworkContext) (addresses : List WatchedAddress)
    (cursor : PerAddressCursor) : Except ChainFault (List RawChainDeposit × PerAddressCursor) := do
  let currentSlot ← rpc.getSlot
  scan rpc addresses cursor fun watched signature tx => mapTransaction signature tx [watched] currentSlot network

end SolanaDepositAdapter

inductive XrplAmount
  -- native amounts are drops; an issued currency is an object
  | drops (units : Int)
  | issued
  deriving DecidableEq

structure XrplAccountTxEntry where
  hash : String
  transactionType : String
  destination : String
  amount : XrplAmount
  destinationTag : Option Nat
  ledgerIndex : Int
  transactionResult : String
  deliveredAmount : Option XrplAmount
  validated : Bool
  deriving DecidableEq

structure Marker where
  -- rippled's continuation token: an object the adapter only hands back
  position : Nat
  deriving DecidableEq

inductive AccountTxReply
  | error (code : String)
  | result (transactions : List XrplAccountTxEntry) (marker : Option Marker)
  deriving DecidableEq

structure Rippled where
  validatedLedgerIndex : Except ChainFault Int
  accountTx : String → Nat → Option Marker → Except ChainFault AccountTxReply

def mapXrplEntryToDeposit (entry : XrplAccountTxEntry) (watched : WatchedAddress) (currentValidatedLedger : Int)
    (decimals : Nat) : Option RawChainDeposit :=
  if entry.transactionType ≠ "Payment" then none
  else if entry.transactionResult ≠ "tesSUCCESS" then none
  else if entry.destination ≠ watched.address then none
  else match entry.deliveredAmount.getD entry.amount with
    | .issued => none
    | .drops units => some
      { walletAddressId := watched.walletAddressId
        txHash := entry.hash
        eventIndex := 0
        amount := rawUnitsToDecimalString units decimals
        confirmations := if entry.validated then max (currentValidatedLedger - entry.ledgerIndex + 1) 0 else 0
        destinationTag := entry.destinationTag.map toString }

namespace XrpDepositAdapter

def RECENT_TX_LIMIT : Nat := 30

/-- The `do … while` loop of `fetchAccountHistory` with the page it starts with, and the number of pages it
may fetch after that one. An account the ledger does not know ends the walk. -/
def fetchPages (accountTx : Option Marker → Except ChainFault AccountTxReply) (previousLastSeenHash : Option String) :
    Nat → Option Marker → List XrplAccountTxEntry → Except ChainFault (List XrplAccountTxEntry × Bool)
  | left, marker, collected => do
    match ← accountTx marker with
    | .error code => if code = "actNotFound" then pure (collected, true) else .error (.accountTxError code)
    | .result transactions next =>
      let caughtUp := holds XrplAccountTxEntry.hash previousLastSeenHash transactions
      let exhaustedAllHistory := next.isNone
      match left with
      | 0 => pure (collected ++ transactions, caughtUp || exhaustedAllHistory)
      | left + 1 =>
        if caughtUp = false ∧ next.isSome = true then
          fetchPages accountTx previousLastSeenHash left next (collected ++ transactions)
        else pure (collected ++ transactions, caughtUp || exhaustedAllHistory)

def fetchAccountHistory (limit : Nat) (rippled : Rippled) (account : String) (previousLastSeenHash : Option String) :
    Except ChainFault (List XrplAccountTxEntry × Bool) :=
  fetchPages (rippled.accountTx account limit) previousLastSeenHash (MAX_PAGES_PER_ADDRESS - 1) none []

/-- `scanForDeposits`, over what is done with each entry it hands to the mapper. -/
def scan {δ : Type} (rippled : Rippled) (addresses : List WatchedAddress) (cursor : PerAddressCursor)
    (mapper : WatchedAddress → XrplAccountTxEntry → Except ChainFault (List δ)) :
    Except ChainFault (List δ × PerAddressCursor) :=
  scanAddresses XrplAccountTxEntry.hash (fetchAccountHistory RECENT_TX_LIMIT rippled) mapper cursor addresses [] cursor

def scanForDeposits (rippled : Rippled) (network : AssetNetworkContext) (addresses : List WatchedAddress)
    (cursor : PerAddressCursor) : Except ChainFault (List RawChainDeposit × PerAddressCursor) := do
  let currentLedger ← rippled.validatedLedgerIndex
  scan rippled addresses cursor fun watched entry =>
    .ok (mapXrplEntryToDeposit entry watched currentLedger network.assetDecimals).toList

end XrpDepositAdapter

end VerdictVaut
