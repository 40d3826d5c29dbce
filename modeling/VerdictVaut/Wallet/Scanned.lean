import VerdictVaut.Wallet.Watcher
import VerdictVaut.Wallet.WalkBack

set_option autoImplicit false

namespace VerdictVaut

open Fallible EvmDepositAdapter

/-- The chain as it ends up: no block is replaced once it is `REORG_SAFETY_MARGIN_BLOCKS` below the tip. -/
structure EvmChain where
  block : Int → EvmBlock
  succeeded : String → Bool
  logs : Int → List EvmLog
  numbered : ∀ n, (block n).number = n
  addressed : ∀ n, ∀ tx ∈ (block n).transactions, tx.recipient ≠ some ""
  logged : ∀ n, ∀ log ∈ logs n, log.blockNumber = n ∧ log.removed = false

def addressTopic (digits : List Char) : String :=
  -- a 32-byte topic that holds an address of these forty lower-case digits
  String.ofList ('0' :: 'x' :: (List.replicate 24 '0' ++ digits))

def evmAddress (digits : List Char) : String :=
  String.ofList ('0' :: 'x' :: digits)

def GetLogsFilter.Matches (filter : GetLogsFilter) (log : EvmLog) : Prop :=
  filter.address.map toLowerCase = some (toLowerCase log.address) ∧ log.topics[0]? = some filter.transferTopic ∧
    ∃ recipient ∈ filter.recipients, log.topics[2]? = some recipient

/-- Whatever a node answers about blocks below the safety margin is what the chain holds. It may answer `null`. -/
structure EvmRpc.Follows (rpc : EvmRpc) (chain : EvmChain) (currentBlock : Int) : Prop where
  tip : rpc.blockNumber = .ok currentBlock
  blocks : ∀ n ≤ currentBlock - REORG_SAFETY_MARGIN_BLOCKS, ∀ block,
    rpc.getBlockByNumber n = .ok (some block) → block = chain.block n
  receipts : ∀ n ≤ currentBlock - REORG_SAFETY_MARGIN_BLOCKS, ∀ tx ∈ (chain.block n).transactions, ∀ receipt,
    rpc.getTransactionReceipt tx.hash = .ok (some receipt) →
      (receipt.status = "0x1" ↔ chain.succeeded tx.hash = true)
  logs : ∀ filter found, filter.toBlock ≤ currentBlock - REORG_SAFETY_MARGIN_BLOCKS → rpc.getLogs filter = .ok found →
    ∀ n, filter.fromBlock ≤ n → n ≤ filter.toBlock → ∀ log ∈ chain.logs n, filter.Matches log → log ∈ found

/-- A transfer to a watched address: its transaction, its index there and the address, in lower case. -/
structure ChainDeposit where
  txHash : String
  eventIndex : Nat
  address : String

variable (network : AssetNetworkContext) (addresses : List WatchedAddress)

def PaysNative (chain : EvmChain) (n : Int) (tx : EvmTransaction) (address : String) : Prop :=
  -- a successful native transfer of a non-zero value to a watched address
  tx ∈ (chain.block n).transactions ∧ chain.succeeded tx.hash = true ∧ tx.value ≠ 0 ∧
    tx.recipient.map toLowerCase = some address ∧ ∃ w ∈ addresses, toLowerCase w.address = address

/-- A `Transfer` log of the configured contract to a watched address. -/
def PaysToken (chain : EvmChain) (n : Int) (log : EvmLog) (digits : List Char) : Prop :=
  log ∈ chain.logs n ∧ network.contractAddress.map toLowerCase = some (toLowerCase log.address) ∧
    log.topics[0]? = some ERC20_TRANSFER_TOPIC ∧ log.topics[2]? = some (addressTopic digits) ∧ digits.length = 40 ∧
    digits.map Char.toLower = digits ∧ ∃ w ∈ addresses, toLowerCase w.address = evmAddress digits

def Deposited (chain : EvmChain) (n : Int) (e : ChainDeposit) : Prop :=
  if network.isNative then ∃ tx, PaysNative addresses chain n tx e.address ∧ e.txHash = tx.hash ∧ e.eventIndex = 0
  else ∃ log digits, PaysToken network addresses chain n log digits ∧ e.txHash = log.transactionHash ∧
    e.eventIndex = log.logIndex ∧ e.address = evmAddress digits

def ReportsEvent (d : RawChainDeposit) (e : ChainDeposit) : Prop :=
  -- the deposit an adapter reports for a transfer, under a wallet address that is its address
  d.txHash = e.txHash ∧ d.eventIndex = e.eventIndex ∧
    ∃ w ∈ addresses, toLowerCase w.address = e.address ∧ d.walletAddressId = w.walletAddressId

/-- No reply about a transfer to a watched address in the range is `null`. -/
def Complete (rpc : EvmRpc) (chain : EvmChain) (first last : Int) : Prop :=
  network.isNative = true → ∀ n, first ≤ n → n ≤ last → ∀ tx address, PaysNative addresses chain n tx address →
    rpc.getBlockByNumber n ≠ .ok none ∧ rpc.getTransactionReceipt tx.hash ≠ .ok none

variable {network addresses} {chain : EvmChain} {rpc : EvmRpc} {currentBlock first last : Int}

theorem byLowercaseAddress_some {address : String} (watching : ∃ w ∈ addresses, toLowerCase w.address = address) :
    ∃ w ∈ addresses, byLowercaseAddress addresses address = some w ∧ toLowerCase w.address = address := by
  obtain ⟨w, member, same⟩ := watching
  have found : (byLowercaseAddress addresses address).isSome = true := by
    rw [byLowercaseAddress, List.find?_isSome]
    exact ⟨w, List.mem_reverse.mpr member, decide_eq_true same⟩
  obtain ⟨other, matched⟩ := Option.isSome_iff_exists.mp found
  have same := List.find?_some matched
  exact ⟨other, List.mem_reverse.mp (List.mem_of_find?_eq_some matched), matched, of_decide_eq_true same⟩

theorem mem_blockRange {n : Int} : n ∈ blockRange first last ↔ first ≤ n ∧ n ≤ last := by
  simp only [blockRange, List.mem_map, List.mem_range]
  constructor
  · rintro ⟨i, small, rfl⟩
    omega
  · rintro ⟨low, high⟩
    exact ⟨(n - first).toNat, by omega, by omega⟩

theorem mapNativeBlockToDeposits_reports {n : Int} {tx : EvmTransaction} {address : String}
    (pays : PaysNative addresses chain n tx address) (currentBlock : Int) (decimals : Nat) :
    ∃ d ∈ mapNativeBlockToDeposits (chain.block n) addresses currentBlock decimals,
      ReportsEvent addresses d ⟨tx.hash, 0, address⟩ ∧ d.txHash = tx.hash ∧ currentBlock - n + 1 ≤ d.confirmations := by
  obtain ⟨member, _, nonzero, recipient, watching⟩ := pays
  obtain ⟨sent, sentTo, rfl⟩ := Option.map_eq_some_iff.mp recipient
  obtain ⟨w, among, matched, same⟩ := byLowercaseAddress_some watching
  have nonempty : sent ≠ "" := fun empty => chain.addressed n tx member (empty ▸ sentTo)
  have here : nativeMatch addresses tx = some w := by simp only [nativeMatch, sentTo, nonempty, if_false, matched]
  refine ⟨_, List.mem_filterMap.mpr ⟨tx, member, by simp only [here, nonzero, if_false]; rfl⟩, ?_, rfl, ?_⟩
  · exact ⟨rfl, rfl, w, among, same, rfl⟩
  · rw [chain.numbered n]
    exact le_max_left _ _

theorem scanNative_reports (follows : rpc.Follows chain currentBlock) (isNative : network.isNative = true)
    (safe : last ≤ currentBlock - REORG_SAFETY_MARGIN_BLOCKS) (complete : Complete network addresses rpc chain first last)
    {deposits : List RawChainDeposit} {decimals : Nat}
    (done : scanNative rpc first last currentBlock addresses decimals = .ok deposits) {n : Int} (low : first ≤ n)
    (high : n ≤ last) {tx : EvmTransaction} {address : String} (pays : PaysNative addresses chain n tx address) :
    ∃ d ∈ deposits, ReportsEvent addresses d ⟨tx.hash, 0, address⟩ ∧ currentBlock - n + 1 ≤ d.confirmations := by
  obtain ⟨candidates, listed, done⟩ := bind_eq_ok.mp done
  obtain ⟨confirmed, checked, done⟩ := bind_eq_ok.mp done
  rw [pure_eq_ok] at done
  subst done
  obtain ⟨hasBlock, hasReceipt⟩ := complete isNative n low high tx address pays
  -- the block is among those fetched, and it is the chain's
  obtain ⟨found, member, fetched⟩ := forall₂_left (mapM_eq_ok.mp listed) n (mem_blockRange.mpr ⟨low, high⟩)
  obtain ⟨reply, answered, mapped⟩ := bind_eq_ok.mp fetched
  cases reply with
  | none => exact absurd answered hasBlock
  | some block =>
    rw [pure_eq_ok, follows.blocks n (by omega) block answered] at mapped
    subst mapped
    obtain ⟨d, candidate, reports, hash, deep⟩ := mapNativeBlockToDeposits_reports pays currentBlock decimals
    obtain ⟨kept, among, looked⟩ := forall₂_left (mapM_eq_ok.mp checked) d (List.mem_flatten_of_mem member candidate)
    obtain ⟨reply, answered, kept⟩ := bind_eq_ok.mp looked
    rw [hash] at answered
    cases reply with
    | none => exact absurd answered hasReceipt
    | some receipt =>
      have success := (follows.receipts n (by omega) tx pays.1 receipt answered).mpr pays.2.1
      rw [pure_eq_ok, if_pos success] at kept
      subst kept
      exact ⟨d, List.mem_flatten_of_mem among (List.mem_singleton.mpr rfl), reports, deep⟩

theorem addressToTopic_eq {address : String} {digits : List Char} (same : toLowerCase address = evmAddress digits)
    (size : digits.length = 40) : addressToTopic address = addressTopic digits := by
  rw [addressToTopic, same, evmAddress, String.toList_ofList]
  simp only [withoutHexMark, List.leftpad, size]
  rfl

theorem topicToAddress_eq {digits : List Char} (size : digits.length = 40) (lower : digits.map Char.toLower = digits) :
    topicToAddress (addressTopic digits) = evmAddress digits := by
  have tail : (addressTopic digits).toList.drop ((addressTopic digits).toList.length - 40) = digits := by
    have chars : (addressTopic digits).toList = ('0' :: 'x' :: List.replicate 24 '0') ++ digits := by
      rw [addressTopic, String.toList_ofList]
      rfl
    rw [chars, List.length_append, size, Nat.add_sub_cancel, List.drop_left]
  rw [topicToAddress, tail, toLowerCase, String.toList_ofList, List.map_cons, List.map_cons, lower]
  rfl

theorem scanToken_reports (follows : rpc.Follows chain currentBlock)
    (safe : last ≤ currentBlock - REORG_SAFETY_MARGIN_BLOCKS) {deposits : List RawChainDeposit} {decimals : Nat}
    (done : scanToken rpc first last currentBlock addresses network.contractAddress decimals = .ok deposits) {n : Int}
    (low : first ≤ n) (high : n ≤ last) {log : EvmLog} {digits : List Char}
    (pays : PaysToken network addresses chain n log digits) :
    ∃ d ∈ deposits, ReportsEvent addresses d ⟨log.transactionHash, log.logIndex, evmAddress digits⟩ ∧
      currentBlock - n + 1 ≤ d.confirmations := by
  obtain ⟨member, emitted, transfer, recipient, size, lower, watching⟩ := pays
  obtain ⟨logs, answered, done⟩ := bind_eq_ok.mp done
  obtain ⟨mapped, matched, done⟩ := bind_eq_ok.mp done
  rw [pure_eq_ok] at done
  subst done
  obtain ⟨contract, configured, sameContract⟩ := Option.map_eq_some_iff.mp emitted
  have listed : log ∈ logs := by
    obtain ⟨w, among, same⟩ := watching
    refine follows.logs _ logs safe answered n low high log member ⟨emitted, transfer, addressTopic digits, ?_, recipient⟩
    exact List.mem_map.mpr ⟨w, among, addressToTopic_eq same size⟩
  obtain ⟨found, here, made⟩ := forall₂_left (mapM_eq_ok.mp matched) log listed
  obtain ⟨w, among, located, same⟩ := byLowercaseAddress_some watching
  obtain ⟨height, kept⟩ := chain.logged n log member
  simp only [configured, mapTransferLogToDeposit, kept, recipient, topicToAddress_eq size lower, located, sameContract,
    Bool.false_eq_true, if_false, ne_eq, not_true_eq_false] at made
  cases data : log.data with
  | none =>
    rw [data] at made
    cases made
  | some units =>
    rw [data] at made
    obtain rfl := Except.ok.inj made
    refine ⟨_, List.mem_filterMap.mpr ⟨_, here, rfl⟩, ⟨rfl, rfl, w, among, same, rfl⟩, ?_⟩
    rw [height]
    exact le_max_left _ _

/-- A scan reports every transfer to a watched address in its range, each with enough confirmations, as long as
nothing about them is answered `null`. -/
theorem scanForDeposits_reports (follows : rpc.Follows chain currentBlock) {cursor : Option Int}
    {requiredConfirmations next : Int} {deposits : List RawChainDeposit}
    (done : scanForDeposits rpc network addresses cursor requiredConfirmations = .ok (deposits, next))
    (complete : Complete network addresses rpc chain (fromBlock cursor currentBlock)
      (toBlock network.isNative cursor currentBlock requiredConfirmations)) {n : Int}
    (low : fromBlock cursor currentBlock ≤ n)
    (high : n ≤ toBlock network.isNative cursor currentBlock requiredConfirmations) {e : ChainDeposit}
    (deposited : Deposited network addresses chain n e) :
    ∃ d ∈ deposits, ReportsEvent addresses d e ∧ requiredConfirmations ≤ d.confirmations := by
  have ceiling : toBlock network.isNative cursor currentBlock requiredConfirmations ≤
      currentBlock - requiredDepth requiredConfirmations := DepositWatcherService.toBlock_le
  have margin : REORG_SAFETY_MARGIN_BLOCKS ≤ requiredDepth requiredConfirmations := le_max_left _ _
  have depth : requiredConfirmations - 1 ≤ requiredDepth requiredConfirmations := le_max_right _ _
  unfold scanForDeposits at done
  rw [follows.tip] at done
  simp only [bind_eq_ok, Except.ok.injEq, exists_eq_left'] at done
  rw [if_neg (by omega)] at done
  obtain ⟨found, scanned, done⟩ := bind_eq_ok.mp done
  rw [pure_eq_ok, Prod.mk.injEq] at done
  obtain ⟨rfl, _⟩ := done
  unfold scanBlocks at scanned
  unfold Deposited at deposited
  obtain ⟨txHash, eventIndex, address⟩ := e
  split at scanned
  · rename_i isNative
    rw [if_pos isNative] at deposited
    obtain ⟨tx, pays, rfl, rfl⟩ := deposited
    obtain ⟨d, member, reports, deep⟩ := scanNative_reports follows isNative (by omega) complete scanned low high pays
    exact ⟨d, member, reports, by omega⟩
  · rename_i isToken
    rw [if_neg isToken] at deposited
    obtain ⟨log, digits, pays, rfl, rfl, rfl⟩ := deposited
    obtain ⟨d, member, reports, deep⟩ := scanToken_reports follows (by omega) scanned low high pays
    exact ⟨d, member, reports, by omega⟩

namespace DepositWatcherService

variable {s s' : State} {a : Action} {initial : Option Int}

def firstCursor (s : State) : Action → Option Int
  -- the block before the first one that the first commit covers
  | .commit w =>
    match s.workers w with
    | .recording none currentBlock _ _ [] => if s.row.lockedBy = some w then some (fromBlock none currentBlock - 1) else none
    | _ => none
  | _ => none

variable (network addresses chain) in
/-- The scans of a step ask a node that follows the chain, and get no `null` for a transfer in their range. -/
def Clean (s : State) : Action → Prop
  | .scan w rpc requiredConfirmations => ∀ cursor currentBlock, s.workers w = .started cursor →
      rpc.blockNumber = .ok currentBlock → rpc.Follows chain currentBlock ∧
        Complete network addresses rpc chain (fromBlock cursor currentBlock)
          (toBlock network.isNative cursor currentBlock requiredConfirmations)
  | _ => True

variable (network addresses chain) in
inductive CleanRun : Option Int → State → Prop
  -- a run of clean steps, with the initial cursor once there is one
  | start {s : State} (starts : Starts s) : CleanRun none s
  | step {initial : Option Int} {s : State} (earlier : CleanRun initial s) (a : Action)
      (clean : Clean network addresses chain s a) :
      CleanRun (initial.or (firstCursor s a)) (step network addresses s a)

theorem CleanRun.reached (run : CleanRun network addresses chain initial s) : Reached network addresses s := by
  induction run with
  | start starts => exact .refl starts
  | step _ a _ ih => exact .tail ih a

variable (addresses) in
/-- The transfer has been passed to `recordObservedTransaction` with the confirmations required at that scan. -/
def Observed (s : State) (e : ChainDeposit) : Prop :=
  ∃ o ∈ s.observed, ReportsEvent addresses o.deposit e ∧ o.requiredConfirmations ≤ o.deposit.confirmations

variable (network addresses chain) in
structure Caught (initial : Option Int) (s : State) : Prop where
  -- nothing behind the pointer is missing, and what a scan has yet to pass on it still holds
  known : initial = none ↔ s.row.lastScannedPointer = none
  behind : ∀ b c, initial = some b → s.row.lastScannedPointer = some c → ∀ n, b < n → n ≤ c → ∀ e,
    Deposited network addresses chain n e → Observed addresses s e
  ahead : ∀ w cursor currentBlock requiredConfirmations next deposits,
    s.workers w = .recording cursor currentBlock requiredConfirmations next deposits → ∀ n,
      fromBlock cursor currentBlock ≤ n → n ≤ toBlock network.isNative cursor currentBlock requiredConfirmations → ∀ e,
        Deposited network addresses chain n e → Observed addresses s e ∨
          ∃ d ∈ deposits, ReportsEvent addresses d e ∧ requiredConfirmations ≤ d.confirmations

/-- A worker moves on without touching the pointer: what is observed only grows, and its own scan is accounted for. -/
theorem Caught.moves (caught : Caught network addresses chain initial s) {w : Nat} {phase : Phase} {row : WatchCursor}
    {observed : List Observation} (same : row.lastScannedPointer = s.row.lastScannedPointer)
    (grows : ∀ o ∈ s.observed, o ∈ observed)
    (own : ∀ cursor currentBlock requiredConfirmations next deposits,
      phase = .recording cursor currentBlock requiredConfirmations next deposits → ∀ n,
        fromBlock cursor currentBlock ≤ n → n ≤ toBlock network.isNative cursor currentBlock requiredConfirmations → ∀ e,
          Deposited network addresses chain n e →
            (∃ o ∈ observed, ReportsEvent addresses o.deposit e ∧ o.requiredConfirmations ≤ o.deposit.confirmations) ∨
              ∃ d ∈ deposits, ReportsEvent addresses d e ∧ requiredConfirmations ≤ d.confirmations) :
    Caught network addresses chain initial { s.moves w phase with row := row, observed := observed } where
  known := by
    rw [caught.known]
    exact same ▸ Iff.rfl
  behind b c initially set n low high e deposited := by
    obtain ⟨o, member, fits⟩ := caught.behind b c initially (same ▸ set) n low high e deposited
    exact ⟨o, grows o member, fits⟩
  ahead other cursor currentBlock requiredConfirmations next deposits was n low high e deposited := by
    by_cases mine : other = w
    · subst mine
      rw [show (s.moves other phase).workers other = phase from moves_self ..] at was
      exact own _ _ _ _ _ was n low high e deposited
    · rw [show (s.moves w phase).workers other = s.workers other from moves_other mine ..] at was
      rcases caught.ahead other _ _ _ _ _ was n low high e deposited with ⟨o, member, fits⟩ | held
      · exact .inl ⟨o, grows o member, fits⟩
      · exact .inr held

theorem Caught.step_other (caught : Caught network addresses chain initial s) (clean : Clean network addresses chain s a)
    (other : ∀ w, a ≠ .commit w) (stepped : Stepped network addresses s a s') :
    Caught network addresses chain initial s' := by
  cases stepped with
  | stays => exact caught
  | acquired idle free => exact caught.moves rfl (fun _ member => member) (by simp)
  | started leased => exact caught.moves rfl (fun _ member => member) (by simp)
  | scanned was tip done =>
    refine caught.moves rfl (fun _ member => member) ?_
    rintro _ _ _ _ _ ⟨rfl, rfl, rfl, rfl, rfl⟩ n low high e deposited
    obtain ⟨follows, complete⟩ := clean _ _ was tip
    exact .inr (scanForDeposits_reports follows done complete low high deposited)
  | recorded was =>
    refine caught.moves rfl (fun _ member => List.mem_cons_of_mem _ member) ?_
    rintro _ _ _ _ _ ⟨rfl, rfl, rfl, rfl, rfl⟩ n low high e deposited
    rcases caught.ahead _ _ _ _ _ _ was n low high e deposited with ⟨o, member, fits⟩ | ⟨d, held, reports, enough⟩
    · exact .inl ⟨o, List.mem_cons_of_mem _ member, fits⟩
    · rcases List.mem_cons.mp held with rfl | later
      · exact .inl ⟨_, List.mem_cons_self, reports, enough⟩
      · exact .inr ⟨d, later, reports, enough⟩
  | skipped was unknown =>
    refine caught.moves rfl (fun _ member => member) ?_
    rintro _ _ _ _ _ ⟨rfl, rfl, rfl, rfl, rfl⟩ n low high e deposited
    rcases caught.ahead _ _ _ _ _ _ was n low high e deposited with seen | ⟨d, held, reports, enough⟩
    · exact .inl seen
    · rcases List.mem_cons.mp held with rfl | later
      -- an adapter reports only addresses it was asked to scan
      · obtain ⟨_, _, w, member, _, mine⟩ := reports
        exact absurd (mine ▸ List.mem_map_of_mem member) unknown
      · exact .inr ⟨d, later, reports, enough⟩
  | failed busy => exact caught.moves rfl (fun _ member => member) (by simp)
  | committed was => exact absurd rfl (other _)
  | released was =>
    refine caught.moves ?_ (fun _ member => member) (by simp)
    unfold releaseLeaseAfterError
    split
    · rfl
    · rfl
  | crashed w => exact caught.moves rfl (fun _ member => member) (by simp)

theorem commit_cases (network : AssetNetworkContext) (addresses : List WatchedAddress) (s : State) (w : Nat) :
    (step network addresses s (.commit w) = s ∧ firstCursor s (.commit w) = none) ∨
      ∃ cursor currentBlock requiredConfirmations next,
        s.workers w = .recording cursor currentBlock requiredConfirmations next [] ∧
        step network addresses s (.commit w) =
          { s.moves w .idle with row := releaseLeaseAfterSuccess s.row w cursor next } ∧
        firstCursor s (.commit w) =
          if cursor = none ∧ s.row.lockedBy = some w then some (fromBlock none currentBlock - 1) else none := by
  simp only [step, firstCursor]
  cases phase : s.workers w with
  | recording cursor currentBlock requiredConfirmations next deposits =>
    cases deposits with
    | nil =>
      refine .inr ⟨cursor, currentBlock, requiredConfirmations, next, rfl, rfl, ?_⟩
      cases cursor with
      | none => simp
      | some c => simp
    | cons d rest => exact .inl ⟨rfl, by cases cursor <;> rfl⟩
  | idle | leased | started | failing => exact .inl ⟨rfl, rfl⟩

theorem Caught.step_commit (caught : Caught network addresses chain initial s) (sound : Sound network.isNative s) (w : Nat) :
    Caught network addresses chain (initial.or (firstCursor s (.commit w))) (step network addresses s (.commit w)) := by
  rcases commit_cases network addresses s w with
    ⟨same, none⟩ | ⟨cursor, currentBlock, requiredConfirmations, next, was, same, first⟩
  · rw [same, none, Option.or_none]
    exact caught
  have row := sound.committed_row was
  obtain ⟨low, holding⟩ := sound.cursors w cursor (by rw [was]; rfl)
  rw [same, first, row]
  by_cases holds : s.row.lockedBy = some w
  · rw [if_pos holds, ← holding holds]
    have all := caught.ahead w _ _ _ _ _ was
    -- what the scan covered is observed, since nothing is left to pass on
    have scanned : ∀ n, fromBlock cursor currentBlock ≤ n →
        n ≤ toBlock network.isNative cursor currentBlock requiredConfirmations → ∀ e,
          Deposited network addresses chain n e → Observed addresses s e := by
      intro n low high e deposited
      rcases all n low high e deposited with seen | ⟨d, held, _⟩
      · exact seen
      · cases held
    have left : Caught network addresses chain initial { s.moves w .idle with row := s.row } :=
      caught.moves rfl (fun _ member => member) (by simp)
    have others := left.ahead
    cases cursor with
    | none =>
      have unset : initial = none := caught.known.mpr (holding holds).symm
      subst unset
      rw [if_pos ⟨rfl, holds⟩, Option.none_or]
      refine ⟨by simp, ?_, others⟩
      rintro b c ⟨rfl⟩ ⟨rfl⟩ n below upto e deposited
      unfold nextPointer at upto
      split at upto
      · rw [Option.getD_none] at upto
        omega
      · exact scanned n (by omega) upto e deposited
    | some c =>
      rw [if_neg (by simp), Option.or_none]
      refine ⟨⟨fun unset => ?_, by simp⟩, ?_, others⟩
      · have := caught.known.mp unset
        rw [← holding holds] at this
        cases this
      · rintro b last initially ⟨rfl⟩ n below upto e deposited
        by_cases earlier : n ≤ c
        · exact caught.behind b c initially (holding holds).symm n below earlier e deposited
        · have start : fromBlock (some c) currentBlock = c + 1 := fromBlock_some (low c rfl)
          unfold nextPointer at upto
          split at upto
          · rw [Option.getD_some] at upto
            omega
          · exact scanned n (by omega) upto e deposited
  · rw [if_neg holds, if_neg (by simp [holds]), Option.or_none]
    exact caught.moves rfl (fun _ member => member) (by simp)

theorem CleanRun.caught (run : CleanRun network addresses chain initial s) : Caught network addresses chain initial s := by
  induction run with
  | start starts =>
    obtain ⟨row, idle, _⟩ := starts
    exact ⟨by simp [row], by simp, by simp [idle]⟩
  | @step initial s earlier a clean ih =>
    by_cases commits : ∃ w, a = .commit w
    · obtain ⟨w, rfl⟩ := commits
      exact ih.step_commit (Reached.sound earlier.reached) w
    · have other : ∀ w, a ≠ .commit w := fun w same => commits ⟨w, same⟩
      have none : firstCursor s a = none := by
        cases a with
        | commit w => exact absurd rfl (other w)
        | acquire | read | scan | record | throws | release | crash => rfl
      rw [none, Option.or_none]
      exact ih.step_other clean other (step_stepped s a)

/-- In every run whose scans get no `null` about a transfer in their range: once the pointer has reached block `c`,
every transfer to a watched address in a block after the initial cursor and up to `c` has been passed on with the
confirmations required at its scan. -/
theorem scanned_deposits_observed {initial c n : Int} {e : ChainDeposit}
    (run : CleanRun network addresses chain (some initial) s) (pointer : s.row.lastScannedPointer = some c)
    (after : initial < n) (upto : n ≤ c) (deposited : Deposited network addresses chain n e) : Observed addresses s e :=
  run.caught.behind initial c rfl pointer n after upto e deposited

section Samples

def ethDeposit : EvmTransaction where
  hash := "0xd"
  recipient := some ethAddress.address
  value := 1000

def ethChain : EvmChain where
  block n := ⟨n, if n = 5 then [ethDeposit] else []⟩
  succeeded _ := true
  logs _ := []
  numbered _ := rfl
  addressed n tx member := by
    split at member
    · obtain rfl := List.mem_singleton.mp member
      decide
    · cases member
  logged _ _ member := by cases member

def ethNode (hasBlock : Bool) : EvmRpc where
  -- a node at block forty, with or without block five
  blockNumber := .ok 40
  getBlockByNumber n := .ok (if n = 5 ∧ hasBlock = false then none else some (ethChain.block n))
  getTransactionReceipt _ := .ok (some ⟨"0x1"⟩)
  getLogs _ := .ok []

theorem ethNode_follows (hasBlock : Bool) : (ethNode hasBlock).Follows ethChain 40 where
  tip := rfl
  blocks n _ block answered := by
    simp only [ethNode, Except.ok.injEq] at answered
    split at answered
    · cases answered
    · exact (Option.some.inj answered).symm
  receipts _ _ _ _ receipt answered := by
    obtain rfl := Option.some.inj (Except.ok.inj answered)
    exact iff_of_true rfl rfl
  logs _ _ _ _ _ _ _ _ member := by cases member

theorem ethDeposit_deposited :
    Deposited ethNetwork [ethAddress] ethChain 5 ⟨"0xd", 0, toLowerCase ethAddress.address⟩ := by
  refine ⟨ethDeposit, ⟨?_, rfl, by decide, rfl, ethAddress, List.mem_singleton.mpr rfl, rfl⟩, rfl, rfl⟩
  exact List.mem_singleton.mpr rfl

/-- The node has the whole range but for the deposit's block; the scan commits, and the deposit is behind the
pointer for good. -/
theorem laggingScan_loses :
    let s := [.acquire 1 0, .read 1, .scan 1 (ethNode false) 1, .commit 1].foldl (step ethNetwork [ethAddress]) fresh
    Reached ethNetwork [ethAddress] s ∧ (ethNode false).Follows ethChain 40 ∧
      s.row.lastScannedPointer = some 28 ∧
      Deposited ethNetwork [ethAddress] ethChain 5 ⟨"0xd", 0, toLowerCase ethAddress.address⟩ ∧
      ¬ Observed [ethAddress] s ⟨"0xd", 0, toLowerCase ethAddress.address⟩ := by
  refine ⟨(fresh_reached ethNetwork [ethAddress]).foldl _, ethNode_follows false, by decide +kernel,
    ethDeposit_deposited, ?_⟩
  have nothing : ([.acquire 1 0, .read 1, .scan 1 (ethNode false) 1, .commit 1].foldl
      (step ethNetwork [ethAddress]) fresh).observed = [] := by decide +kernel
  rintro ⟨o, member, _⟩
  rw [nothing] at member
  cases member

def fullScan : State :=
  [.acquire 1 0, .read 1, .scan 1 (ethNode true) 1, .record 1 true, .commit 1].foldl (step ethNetwork [ethAddress]) fresh

theorem fullScan_clean : CleanRun ethNetwork [ethAddress] ethChain (some (-1)) fullScan := by
  have scan : ∀ s, Clean ethNetwork [ethAddress] ethChain s (.scan 1 (ethNode true) 1) := by
    intro s cursor currentBlock _ tip
    obtain rfl : 40 = currentBlock := Except.ok.inj tip
    refine ⟨ethNode_follows true, fun _ n _ _ tx address _ => ⟨?_, ?_⟩⟩
    · simp [ethNode]
    · simp [ethNode]
  have first : CleanRun ethNetwork [ethAddress] ethChain none fresh := .start ⟨rfl, fun _ => rfl, rfl⟩
  have scanned := ((first.step (.acquire 1 0) trivial).step (.read 1) trivial).step (.scan 1 (ethNode true) 1) (scan _)
  have committed := (scanned.step (.record 1 true) trivial).step (.commit 1) trivial
  convert committed using 1
  · decide +kernel
  · rfl

theorem fullScan_observed : Observed [ethAddress] fullScan ⟨"0xd", 0, toLowerCase ethAddress.address⟩ :=
  scanned_deposits_observed fullScan_clean (c := 28) (n := 5) (by decide +kernel) (by decide) (by decide)
    ethDeposit_deposited

end Samples

end DepositWatcherService

end VerdictVaut
