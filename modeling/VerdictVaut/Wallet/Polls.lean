import VerdictVaut.Wallet.Cursors

set_option autoImplicit false

namespace VerdictVaut

open Pages Fallible

def polls (scan : PerAddressCursor → Except ChainFault (List RawChainDeposit × PerAddressCursor)) :
    Nat → PerAddressCursor → Except ChainFault (List (List RawChainDeposit) × PerAddressCursor)
  -- successive polls, each starting from the cursor the one before it returned
  | 0, cursor => .ok ([], cursor)
  | k + 1, cursor => do
    let polled ← scan cursor
    let rest ← polls scan k polled.2
    pure (polled.1 :: rest.1, rest.2)

theorem polls_report {scan : PerAddressCursor → Except ChainFault (List RawChainDeposit × PerAddressCursor)} {k : Nat}
    {cursor next : PerAddressCursor} {reports : List (List RawChainDeposit)}
    (done : polls scan k cursor = .ok (reports, next)) {deposits : List RawChainDeposit} (member : deposits ∈ reports) :
    ∃ before after, scan before = .ok (deposits, after) := by
  induction k generalizing cursor reports next with
  | zero =>
    simp only [polls, Except.ok.injEq, Prod.mk.injEq] at done
    rw [← done.1] at member
    cases member
  | succ k ih =>
    simp only [polls, bind_eq_ok, pure_eq_ok, Prod.mk.injEq] at done
    obtain ⟨polled, scanned, ⟨others, last⟩, rest, rfl, rfl⟩ := done
    rcases List.mem_cons.mp member with rfl | later
    · exact ⟨cursor, polled.2, scanned⟩
    · exact ih rest later

section SettledWalks

variable {T : Type} {idOf : T → String} {fetch : String → Option String → Except ChainFault (List T × Bool)}
  {toDeposits : WatchedAddress → T → Except ChainFault (List RawChainDeposit)} {history : String → List T}
  {reach : String → Nat} {addresses : List WatchedAddress}

theorem scanAddresses_succeeds {δ : Type} {toDeposits : WatchedAddress → T → Except ChainFault (List δ)}
    {previous : PerAddressCursor} (walks : ∀ watched ∈ addresses, ∃ fetched,
      fetch watched.address (previous watched.address) = .ok fetched ∧
        ∀ tx ∈ fetched.1, ∃ found, toDeposits watched tx = .ok found)
    (deposits : List δ) (next : PerAddressCursor) :
    ∃ out, scanAddresses idOf fetch toDeposits previous addresses deposits next = .ok out := by
  induction addresses generalizing deposits next with
  | nil => exact ⟨_, rfl⟩
  | cons watched rest ih =>
    obtain ⟨fetched, walked, maps⟩ := walks watched List.mem_cons_self
    obtain ⟨mapped, made⟩ := mapM_succeeds maps
    simp only [scanAddresses, bind_eq_ok]
    obtain ⟨out, done⟩ := ih (fun other member => walks other (List.mem_cons_of_mem _ member)) (deposits ++ mapped.flatten) _
    exact ⟨out, fetched, walked, mapped, made, done⟩

/-- The histories have stopped growing and the provider answers every request: each walk returns a prefix that
stays within reach and leaves out nothing newer than the last-seen entry that is within reach. -/
structure SettledWalks (idOf : T → String) (fetch : String → Option String → Except ChainFault (List T × Bool))
    (toDeposits : WatchedAddress → T → Except ChainFault (List RawChainDeposit)) (history : String → List T)
    (reach : String → Nat) (addresses : List WatchedAddress) : Prop where
  distinct : ∀ watched ∈ addresses, ((history watched.address).map idOf).Nodup
  wallets : (addresses.map WatchedAddress.walletAddressId).Nodup
  walks : ∀ watched ∈ addresses, ∀ lastSeen, ∃ n caughtUp,
    fetch watched.address lastSeen = .ok ((history watched.address).take n, caughtUp) ∧
      min n (history watched.address).length ≤ reach watched.address ∧
      ∀ id, lastSeen = some id →
        min (lastSeenAt idOf (some id) (history watched.address)) (reach watched.address) ≤ n
  maps : ∀ watched ∈ addresses, ∀ tx ∈ history watched.address, ∃ found, toDeposits watched tx = .ok found ∧
    ∀ d ∈ found, d.walletAddressId = watched.walletAddressId ∧ d.txHash = idOf tx

/-- Some number of polls reports every deposit-bearing transaction of the address that is newer than `id`. -/
def ReportsAll (idOf : T → String) (toDeposits : WatchedAddress → T → Except ChainFault (List RawChainDeposit))
    (scan : PerAddressCursor → Except ChainFault (List RawChainDeposit × PerAddressCursor)) (watched : WatchedAddress)
    (cursor : PerAddressCursor) (newer : List T) : Prop :=
  ∃ k reports next, polls scan k cursor = .ok (reports, next) ∧ ∀ tx ∈ newer, toDeposits watched tx ≠ .ok [] →
    ∃ deposits ∈ reports, ∃ d ∈ deposits, d.walletAddressId = watched.walletAddressId ∧ d.txHash = idOf tx

theorem SettledWalks.reportsAll_iff (settled : SettledWalks idOf fetch toDeposits history reach addresses)
    {watched : WatchedAddress} (member : watched ∈ addresses) {cursor : PerAddressCursor} {id : String}
    (known : cursor watched.address = some id) :
    ReportsAll idOf toDeposits (fun cursor => scanAddresses idOf fetch toDeposits cursor addresses [] cursor) watched
        cursor (newerThan idOf id (history watched.address)) ↔
      ∀ tx ∈ newerThan idOf id (history watched.address), toDeposits watched tx ≠ .ok [] →
        tx ∈ (history watched.address).take (reach watched.address) := by
  constructor
  · rintro ⟨k, reports, next, done, reported⟩ tx newer bearing
    obtain ⟨deposits, listed, d, among, wallet, hash⟩ := reported tx newer bearing
    obtain ⟨before, after, scanned⟩ := polls_report done listed
    obtain ⟨other, watching, fetched, walked, found, collected, mapped, made, here⟩ := scanAddresses_origin scanned among
    obtain ⟨n, caughtUp, walk, within, _⟩ := settled.walks other watching (before other.address)
    rw [walked, Except.ok.injEq] at walk
    subst walk
    have held := List.mem_of_mem_take collected
    obtain ⟨remade, again, keys⟩ := settled.maps other watching found held
    rw [made, Except.ok.injEq] at again
    subst again
    obtain ⟨otherWallet, otherHash⟩ := keys d here
    have same : other = watched := List.inj_on_of_nodup_map settled.wallets watching member (otherWallet.symm.trans wallet)
    subst same
    have equal : found = tx := List.inj_on_of_nodup_map (settled.distinct other member) held
      (List.mem_of_mem_take (by rwa [newerThan_eq] at newer)) (otherHash.symm.trans hash)
    subst equal
    rw [List.take_eq_take_min] at collected
    exact List.take_subset_take_left _ within collected
  · intro reachable
    have walks : ∀ watched ∈ addresses, ∃ fetched, fetch watched.address (cursor watched.address) = .ok fetched ∧
        ∀ tx ∈ fetched.1, ∃ found, toDeposits watched tx = .ok found := by
      intro other watching
      obtain ⟨n, caughtUp, walk, _⟩ := settled.walks other watching (cursor other.address)
      refine ⟨_, walk, fun tx collected => ?_⟩
      obtain ⟨found, made, _⟩ := settled.maps other watching tx (List.mem_of_mem_take collected)
      exact ⟨found, made⟩
    obtain ⟨⟨deposits, next⟩, scanned⟩ : ∃ out, scanAddresses idOf fetch toDeposits cursor addresses [] cursor = .ok out :=
      scanAddresses_succeeds walks [] cursor
    refine ⟨1, [deposits], next, ?_, fun tx newer bearing => ⟨deposits, List.mem_singleton.mpr rfl, ?_⟩⟩
    · simp only [polls, bind_eq_ok, pure_eq_ok]
      exact ⟨_, scanned, _, rfl, rfl⟩
    · have within := reachable tx newer bearing
      rw [newerThan_eq] at newer
      obtain ⟨fetched, walked, reported⟩ := scanAddresses_reports scanned member
      obtain ⟨n, caughtUp, walk, _, complete⟩ := settled.walks watched member (cursor watched.address)
      rw [walked, Except.ok.injEq] at walk
      subst walk
      have both : tx ∈ (history watched.address).take
          (min (lastSeenAt idOf (some id) (history watched.address)) (reach watched.address)) := by
        rcases Nat.le_total (lastSeenAt idOf (some id) (history watched.address)) (reach watched.address) with less | more
        · rwa [Nat.min_eq_left less]
        · rwa [Nat.min_eq_right more]
      obtain ⟨found, made, listed⟩ := reported tx (List.take_subset_take_left _ (complete id known) both)
      obtain ⟨remade, again, keys⟩ := settled.maps watched member tx (List.mem_of_mem_take newer)
      rw [made, Except.ok.injEq] at again
      subst again
      have nonempty : found ≠ [] := fun empty => bearing (made.trans (congrArg Except.ok empty))
      obtain ⟨d, here⟩ := List.exists_mem_of_ne_nil found nonempty
      exact ⟨d, listed d here, keys d here⟩

end SettledWalks

section Keys

variable {watched : WatchedAddress} {d : RawChainDeposit}

theorem mapEsploraTxToDeposits_key {tx : EsploraTx} {tipHeight : Int}
    (mapped : d ∈ mapEsploraTxToDeposits tx watched tipHeight) :
    d.walletAddressId = watched.walletAddressId ∧ d.txHash = tx.txid := by
  obtain ⟨output, _, made⟩ := List.mem_filterMap.mp mapped
  split at made
  · cases made
  · obtain rfl := Option.some.inj made
    exact ⟨rfl, rfl⟩

theorem byAddress_single {address : String} {found : WatchedAddress} (matched : byAddress [watched] address = some found) :
    found = watched := by
  have := List.mem_of_find?_eq_some matched
  simpa using this

theorem mapTransaction_key {signature : String} {tx : SolanaTransaction} {currentSlot : Int} {network : AssetNetworkContext}
    {found : List RawChainDeposit}
    (mapped : SolanaDepositAdapter.mapTransaction signature tx [watched] currentSlot network = .ok found)
    (member : d ∈ found) : d.walletAddressId = watched.walletAddressId ∧ d.txHash = signature := by
  unfold SolanaDepositAdapter.mapTransaction at mapped
  split at mapped
  · unfold mapNativeSolTransactionToDeposits at mapped
    split at mapped
    · obtain rfl := Except.ok.inj mapped
      cases member
    split at mapped
    · obtain rfl := Except.ok.inj mapped
      cases member
    obtain ⟨lists, made, flat⟩ := bind_eq_ok.mp mapped
    rw [pure_eq_ok] at flat
    subst flat
    obtain ⟨list, listed, here⟩ := List.mem_flatten.mp member
    obtain ⟨key, _, keyed⟩ := forall₂_left (mapM_eq_ok.mp made).flip list listed
    split at keyed
    · obtain rfl := Except.ok.inj keyed
      cases here
    rename_i matched
    split at keyed
    · split at keyed
      · obtain rfl := Except.ok.inj keyed
        cases here
      · obtain rfl := Except.ok.inj keyed
        obtain rfl := List.mem_singleton.mp here
        exact ⟨by rw [byAddress_single matched], rfl⟩
    · cases keyed
  · obtain rfl := Except.ok.inj mapped
    unfold mapSplTokenTransactionToDeposits at member
    split at member
    · cases member
    split at member
    · cases member
    obtain ⟨post, _, made⟩ := List.mem_filterMap.mp member
    split at made
    · cases made
    split at made
    · cases made
    rename_i matched
    obtain ⟨address, _, matched⟩ := Option.bind_eq_some_iff.mp matched
    simp only at made
    split at made
    · cases made
    · obtain rfl := Option.some.inj made
      exact ⟨by rw [byAddress_single matched], rfl⟩

theorem mapXrplEntryToDeposit_key {entry : XrplAccountTxEntry} {currentValidatedLedger : Int} {decimals : Nat}
    (mapped : d ∈ (mapXrplEntryToDeposit entry watched currentValidatedLedger decimals).toList) :
    d.walletAddressId = watched.walletAddressId ∧ d.txHash = entry.hash := by
  rw [Option.mem_toList] at mapped
  unfold mapXrplEntryToDeposit at mapped
  split at mapped
  · cases mapped
  split at mapped
  · cases mapped
  split at mapped
  · cases mapped
  split at mapped
  · cases mapped
  · obtain rfl := Option.some.inj mapped
    exact ⟨rfl, rfl⟩

end Keys

theorem covered_le (pageSize position : Nat) : covered pageSize position ≤ pageSize * MAX_PAGES_PER_ADDRESS := by
  apply Nat.mul_le_mul_left
  unfold MAX_PAGES_PER_ADDRESS
  omega

theorem min_le_covered {pageSize : Nat} (positive : 0 < pageSize) (position : Nat) :
    min position (pageSize * MAX_PAGES_PER_ADDRESS) ≤ covered pageSize position := by
  by_cases reached : position < covered pageSize position
  · exact le_trans (Nat.min_le_left _ _) (le_of_lt reached)
  · have far : MAX_PAGES_PER_ADDRESS ≤ position / pageSize := by
      rw [lt_covered_iff positive position, not_lt, Nat.mul_comm] at reached
      exact (Nat.le_div_iff_mul_le positive).mpr reached
    have capped : min (MAX_PAGES_PER_ADDRESS - 1) (position / pageSize) + 1 = MAX_PAGES_PER_ADDRESS := by
      unfold MAX_PAGES_PER_ADDRESS at far ⊢
      omega
    rw [covered, capped]
    exact Nat.min_le_right _ _

/-- The newest transactions of an address that Bitcoin's walk back can ever read: with anything in the
mempool, the first page is longer than a page and the walk ends there. -/
def EsploraHistory.reach (history : EsploraHistory) : Nat :=
  if history.mempool = [] then BitcoinDepositAdapter.PAGE_SIZE * MAX_PAGES_PER_ADDRESS
  else history.mempool.length + BitcoinDepositAdapter.PAGE_SIZE

theorem EsploraHistory.read_reach (history : EsploraHistory) (lastSeen : Option String) :
    min (history.read BitcoinDepositAdapter.PAGE_SIZE lastSeen) history.txs.length ≤ history.reach ∧
      (lastSeen.isSome → min (lastSeenAt EsploraTx.txid lastSeen history.txs) history.reach ≤
        history.read BitcoinDepositAdapter.PAGE_SIZE lastSeen) := by
  have bound : lastSeenAt EsploraTx.txid lastSeen history.txs ≤ history.txs.length := lastSeenAt_le
  have most := covered_le BitcoinDepositAdapter.PAGE_SIZE (lastSeenAt EsploraTx.txid lastSeen history.txs)
  have least := min_le_covered (show 0 < BitcoinDepositAdapter.PAGE_SIZE by decide)
    (lastSeenAt EsploraTx.txid lastSeen history.txs)
  have page : BitcoinDepositAdapter.PAGE_SIZE ≤ covered BitcoinDepositAdapter.PAGE_SIZE
      (lastSeenAt EsploraTx.txid lastSeen history.txs) := Nat.le_mul_of_pos_right _ (Nat.succ_pos _)
  have length : history.txs.length = history.mempool.length + history.confirmed.length := List.length_append
  unfold EsploraHistory.read EsploraHistory.reach
  cases pending : history.mempool with
  | nil =>
    have fits : history.FitsPage BitcoinDepositAdapter.PAGE_SIZE := by
      rw [EsploraHistory.FitsPage, pending, List.length_nil, Nat.zero_add]
      exact Nat.min_le_left _ _
    simp only [fits, and_true, if_true, List.length_nil]
    split
    · exact ⟨le_trans (Nat.min_le_left _ _) most, fun _ => least⟩
    · refine ⟨le_trans (Nat.min_le_left _ _) (by decide), fun known => absurd known ‹_›⟩
  | cons first rest =>
    rw [pending] at length
    simp only [reduceCtorEq, if_false]
    split
    · rename_i going
      have fits := going.2
      unfold EsploraHistory.FitsPage at fits
      rw [pending] at fits
      rw [List.length_cons] at fits length ⊢
      omega
    · exact ⟨Nat.min_le_left _ _, fun _ => Nat.min_le_right _ _⟩

/-- An Esplora server whose histories for the watched addresses stay as they are, and that always answers. -/
structure Esplora.Settled (esplora : Esplora) (tipHeight : Int) (addresses : List WatchedAddress)
    (histories : String → EsploraHistory) : Prop where
  tip : esplora.tipHeight = .ok tipHeight
  wallets : (addresses.map WatchedAddress.walletAddressId).Nodup
  serves : ∀ watched ∈ addresses, esplora.Serves BitcoinDepositAdapter.PAGE_SIZE watched.address (histories watched.address)
  answers : ∀ watched ∈ addresses, esplora.Answers watched.address

theorem Esplora.Settled.settled {esplora : Esplora} {tipHeight : Int} {addresses : List WatchedAddress}
    {histories : String → EsploraHistory} (holds : esplora.Settled tipHeight addresses histories) :
    SettledWalks EsploraTx.txid (BitcoinDepositAdapter.fetchAddressHistory BitcoinDepositAdapter.PAGE_SIZE esplora)
      (fun watched tx => .ok (mapEsploraTxToDeposits tx watched tipHeight)) (fun a => (histories a).txs)
      (fun a => (histories a).reach) addresses where
  distinct watched _ := (histories watched.address).distinct
  wallets := holds.wallets
  walks watched member lastSeen := by
    obtain ⟨page, first⟩ := (holds.answers watched member).newest
    obtain ⟨fetched, walked⟩ : ∃ fetched, BitcoinDepositAdapter.fetchAddressHistory BitcoinDepositAdapter.PAGE_SIZE esplora
        watched.address lastSeen = .ok fetched := walkBack_succeeds (by decide) first (holds.answers watched member).older
    obtain ⟨collected, _⟩ := fetchAddressHistory_ok (by decide) (holds.serves watched member) walked
    obtain ⟨most, least⟩ := (histories watched.address).read_reach lastSeen
    refine ⟨_, fetched.2, ?_, most, fun id known => ?_⟩
    · rw [walked, ← collected]
    · subst known
      exact least rfl
  maps _ _ _ _ := ⟨_, rfl, fun _ mapped => mapEsploraTxToDeposits_key mapped⟩

def SolanaDepositAdapter.mapSignature (rpc : SolanaRpc) (network : AssetNetworkContext) (currentSlot : Int)
    (watched : WatchedAddress) (entry : SolanaSignatureInfo) : Except ChainFault (List RawChainDeposit) := do
  -- what Solana's scan does with one signature of a watched address
  match ← rpc.getTransaction entry.signature with
  | none => pure []
  | some tx => mapTransaction entry.signature tx [watched] currentSlot network

structure SolanaRpc.Settled (rpc : SolanaRpc) (network : AssetNetworkContext) (currentSlot : Int)
    (addresses : List WatchedAddress) (histories : String → List SolanaSignatureInfo) : Prop where
  slot : rpc.getSlot = .ok currentSlot
  wallets : (addresses.map WatchedAddress.walletAddressId).Nodup
  serves : ∀ watched ∈ addresses,
    rpc.Serves SolanaDepositAdapter.RECENT_SIGNATURES_LIMIT watched.address (histories watched.address)
  answers : ∀ watched ∈ addresses, ∀ before, ∃ page,
    rpc.getSignaturesForAddress watched.address SolanaDepositAdapter.RECENT_SIGNATURES_LIMIT before = .ok page
  lookups : ∀ watched ∈ addresses, ∀ entry ∈ histories watched.address, ∃ tx found,
    rpc.getTransaction entry.signature = .ok (some tx) ∧
      SolanaDepositAdapter.mapTransaction entry.signature tx [watched] currentSlot network = .ok found

theorem SolanaRpc.Settled.settled {rpc : SolanaRpc} {network : AssetNetworkContext} {currentSlot : Int}
    {addresses : List WatchedAddress} {histories : String → List SolanaSignatureInfo}
    (holds : rpc.Settled network currentSlot addresses histories) :
    SettledWalks SolanaSignatureInfo.signature
      (SolanaDepositAdapter.fetchSignatureHistory SolanaDepositAdapter.RECENT_SIGNATURES_LIMIT rpc)
      (SolanaDepositAdapter.mapSignature rpc network currentSlot) histories
      (fun _ => SolanaDepositAdapter.RECENT_SIGNATURES_LIMIT * MAX_PAGES_PER_ADDRESS) addresses where
  distinct watched member := (holds.serves watched member).distinct
  wallets := holds.wallets
  walks watched member lastSeen := by
    obtain ⟨page, first⟩ := holds.answers watched member none
    obtain ⟨fetched, walked⟩ : ∃ fetched, SolanaDepositAdapter.fetchSignatureHistory
        SolanaDepositAdapter.RECENT_SIGNATURES_LIMIT rpc watched.address lastSeen = .ok fetched :=
      walkBack_succeeds (by decide) first fun before => holds.answers watched member (some before)
    obtain ⟨collected, _⟩ := fetchSignatureHistory_ok (by decide) (holds.serves watched member) walked
    refine ⟨_, fetched.2, by rw [walked, ← collected], ?_, fun id known => ?_⟩
    · refine le_trans (Nat.min_le_left _ _) ?_
      unfold signaturesRead
      split
      · exact covered_le _ _
      · decide
    · subst known
      exact min_le_covered (by decide) _
  maps watched member entry among := by
    obtain ⟨tx, found, answered, mapped⟩ := holds.lookups watched member entry among
    exact ⟨found, bind_eq_ok.mpr ⟨some tx, answered, mapped⟩, fun d here => mapTransaction_key mapped here⟩

structure Rippled.Settled (rippled : Rippled) (currentLedger : Int) (addresses : List WatchedAddress)
    (histories : String → List XrplAccountTxEntry) : Prop where
  ledger : rippled.validatedLedgerIndex = .ok currentLedger
  wallets : (addresses.map WatchedAddress.walletAddressId).Nodup
  answers : ∀ watched ∈ addresses,
    rippled.Answers XrpDepositAdapter.RECENT_TX_LIMIT watched.address (histories watched.address)

theorem Rippled.Settled.settled {rippled : Rippled} {currentLedger : Int} {addresses : List WatchedAddress}
    {histories : String → List XrplAccountTxEntry} (holds : rippled.Settled currentLedger addresses histories)
    (network : AssetNetworkContext) :
    SettledWalks XrplAccountTxEntry.hash
      (XrpDepositAdapter.fetchAccountHistory XrpDepositAdapter.RECENT_TX_LIMIT rippled)
      (fun watched entry => .ok (mapXrplEntryToDeposit entry watched currentLedger network.assetDecimals).toList)
      histories (fun _ => XrpDepositAdapter.RECENT_TX_LIMIT * MAX_PAGES_PER_ADDRESS) addresses where
  distinct watched member := (holds.answers watched member).distinct
  wallets := holds.wallets
  walks watched member lastSeen := by
    have answers := holds.answers watched member
    obtain ⟨fetched, walked⟩ : ∃ fetched, XrpDepositAdapter.fetchAccountHistory XrpDepositAdapter.RECENT_TX_LIMIT rippled
        watched.address lastSeen = .ok fetched := fetchPages_succeeds (k := 0) answers []
    rw [fetchAccountHistory_eq (by decide) answers walked] at walked
    refine ⟨_, _, walked, le_trans (Nat.min_le_left _ _) (covered_le _ _), fun id known => ?_⟩
    subst known
    have bound : lastSeenAt XrplAccountTxEntry.hash (some id) (histories watched.address) ≤
        (histories watched.address).length := lastSeenAt_le
    have next : lastSeenAt XrplAccountTxEntry.hash (some id) (histories watched.address) ≤
        walkEnd (some id) (histories watched.address) + 1 := by
      unfold walkEnd
      omega
    have least := min_le_covered (show 0 < XrpDepositAdapter.RECENT_TX_LIMIT by decide)
      (walkEnd (some id) (histories watched.address))
    have reached := lt_covered_iff (show 0 < XrpDepositAdapter.RECENT_TX_LIMIT by decide)
      (walkEnd (some id) (histories watched.address))
    omega
  maps _ _ _ _ := ⟨_, rfl, fun _ mapped => mapXrplEntryToDeposit_key mapped⟩

theorem BitcoinDepositAdapter.scanForDeposits_eq {esplora : Esplora} {tipHeight : Int}
    (tip : esplora.tipHeight = .ok tipHeight) (addresses : List WatchedAddress) (cursor : PerAddressCursor) :
    scanForDeposits esplora addresses cursor = scanAddresses EsploraTx.txid (fetchAddressHistory PAGE_SIZE esplora)
      (fun watched tx => .ok (mapEsploraTxToDeposits tx watched tipHeight)) cursor addresses [] cursor := by
  rw [scanForDeposits, tip]
  rfl

theorem SolanaDepositAdapter.scanForDeposits_eq {rpc : SolanaRpc} {currentSlot : Int} (slot : rpc.getSlot = .ok currentSlot)
    (network : AssetNetworkContext) (addresses : List WatchedAddress) (cursor : PerAddressCursor) :
    scanForDeposits rpc network addresses cursor =
      scanAddresses SolanaSignatureInfo.signature (fetchSignatureHistory RECENT_SIGNATURES_LIMIT rpc)
        (mapSignature rpc network currentSlot) cursor addresses [] cursor := by
  rw [scanForDeposits, slot]
  rfl

theorem XrpDepositAdapter.scanForDeposits_eq {rippled : Rippled} {currentLedger : Int}
    (ledger : rippled.validatedLedgerIndex = .ok currentLedger) (network : AssetNetworkContext)
    (addresses : List WatchedAddress) (cursor : PerAddressCursor) :
    scanForDeposits rippled network addresses cursor =
      scanAddresses XrplAccountTxEntry.hash (fetchAccountHistory RECENT_TX_LIMIT rippled)
        (fun watched entry => .ok (mapXrplEntryToDeposit entry watched currentLedger network.assetDecimals).toList)
        cursor addresses [] cursor := by
  rw [scanForDeposits, ledger]
  rfl

/-- However many polls there are, they report every deposit newer than the last-seen id exactly when all of
them are among the newest transactions that one walk back can read. -/
theorem polls_reportAll_iff (addresses : List WatchedAddress) (watched : WatchedAddress) (cursor : PerAddressCursor)
    (id : String) (member : watched ∈ addresses) (known : cursor watched.address = some id) :
    (∀ (esplora : Esplora) (tipHeight : Int) (histories : String → EsploraHistory),
      esplora.Settled tipHeight addresses histories →
      (ReportsAll EsploraTx.txid (fun watched tx => .ok (mapEsploraTxToDeposits tx watched tipHeight))
          (BitcoinDepositAdapter.scanForDeposits esplora addresses) watched cursor
          (newerThan EsploraTx.txid id (histories watched.address).txs) ↔
        ∀ tx ∈ newerThan EsploraTx.txid id (histories watched.address).txs,
          mapEsploraTxToDeposits tx watched tipHeight ≠ [] →
            tx ∈ (histories watched.address).txs.take (histories watched.address).reach)) ∧
    (∀ (rpc : SolanaRpc) (network : AssetNetworkContext) (currentSlot : Int)
        (histories : String → List SolanaSignatureInfo),
      rpc.Settled network currentSlot addresses histories →
      (ReportsAll SolanaSignatureInfo.signature (SolanaDepositAdapter.mapSignature rpc network currentSlot)
          (SolanaDepositAdapter.scanForDeposits rpc network addresses) watched cursor
          (newerThan SolanaSignatureInfo.signature id (histories watched.address)) ↔
        ∀ entry ∈ newerThan SolanaSignatureInfo.signature id (histories watched.address),
          SolanaDepositAdapter.mapSignature rpc network currentSlot watched entry ≠ .ok [] →
            entry ∈ (histories watched.address).take (SolanaDepositAdapter.RECENT_SIGNATURES_LIMIT * MAX_PAGES_PER_ADDRESS))) ∧
    (∀ (rippled : Rippled) (network : AssetNetworkContext) (currentLedger : Int)
        (histories : String → List XrplAccountTxEntry),
      rippled.Settled currentLedger addresses histories →
      (ReportsAll XrplAccountTxEntry.hash
          (fun watched entry => .ok (mapXrplEntryToDeposit entry watched currentLedger network.assetDecimals).toList)
          (XrpDepositAdapter.scanForDeposits rippled network addresses) watched cursor
          (newerThan XrplAccountTxEntry.hash id (histories watched.address)) ↔
        ∀ entry ∈ newerThan XrplAccountTxEntry.hash id (histories watched.address),
          mapXrplEntryToDeposit entry watched currentLedger network.assetDecimals ≠ none →
            entry ∈ (histories watched.address).take (XrpDepositAdapter.RECENT_TX_LIMIT * MAX_PAGES_PER_ADDRESS))) := by
  refine ⟨?_, ?_, ?_⟩
  · intro esplora tipHeight histories holds
    rw [funext (BitcoinDepositAdapter.scanForDeposits_eq holds.tip addresses)]
    simpa using holds.settled.reportsAll_iff member known
  · intro rpc network currentSlot histories holds
    rw [funext (SolanaDepositAdapter.scanForDeposits_eq holds.slot network addresses)]
    exact holds.settled.reportsAll_iff member known
  · intro rippled network currentLedger histories holds
    rw [funext (XrpDepositAdapter.scanForDeposits_eq holds.ledger network addresses)]
    simpa [Option.toList_eq_nil_iff] using (holds.settled network).reportsAll_iff member known

section Samples

def busyHistory : EsploraHistory where
  -- one transaction in the mempool and twenty-seven confirmed ones, named by their age
  mempool := [plainTx "tb1q" "new"]
  confirmed := (List.range 27).map fun age => plainTx "tb1q" (toString age)
  distinct := by decide +kernel

def busyServer : Esplora where
  tipHeight := .ok 150
  txs _ := .ok (busyHistory.mempool ++ busyHistory.confirmed.take 25)
  txsChain _ id := .ok ((after EsploraTx.txid id busyHistory.confirmed).take 25)

theorem busyServer_settled : busyServer.Settled 150 [watchedAddress "tb1q"] (fun _ => busyHistory) where
  tip := rfl
  wallets := by decide
  serves _ _ := ⟨fun _ served => (Except.ok.inj served).symm, fun _ _ served => (Except.ok.inj served).symm⟩
  answers _ _ := ⟨⟨_, rfl⟩, fun _ => ⟨_, rfl⟩⟩

theorem busyServer_reportsAll : ReportsAll EsploraTx.txid
    (fun watched tx => .ok (mapEsploraTxToDeposits tx watched 150))
    (BitcoinDepositAdapter.scanForDeposits busyServer [watchedAddress "tb1q"]) (watchedAddress "tb1q") (fun _ => some "20")
    (newerThan EsploraTx.txid "20" busyHistory.txs) :=
  ((polls_reportAll_iff [watchedAddress "tb1q"] (watchedAddress "tb1q") (fun _ => some "20") "20" (by decide) rfl).1
    busyServer 150 (fun _ => busyHistory) busyServer_settled).mpr (by decide +kernel)

/-- The transaction just newer than the last-seen one is on the second page, which is never asked for. -/
theorem busyServer_loses : busyServer.Settled 150 [watchedAddress "tb1q"] (fun _ => busyHistory) ∧
    "26" ∈ busyHistory.txs.map EsploraTx.txid ∧
    ¬ ReportsAll EsploraTx.txid (fun watched tx => .ok (mapEsploraTxToDeposits tx watched 150))
      (BitcoinDepositAdapter.scanForDeposits busyServer [watchedAddress "tb1q"]) (watchedAddress "tb1q")
      (fun _ => some "26") (newerThan EsploraTx.txid "26" busyHistory.txs) := by
  refine ⟨busyServer_settled, by decide +kernel, fun reports => ?_⟩
  rw [funext (BitcoinDepositAdapter.scanForDeposits_eq busyServer_settled.tip [watchedAddress "tb1q"])] at reports
  have known : (fun _ => some "26" : PerAddressCursor) (watchedAddress "tb1q").address = some "26" := rfl
  have reached := (busyServer_settled.settled.reportsAll_iff (List.mem_singleton.mpr rfl) known).mp reports
    (plainTx "tb1q" "25") (by decide +kernel) (by decide)
  exact absurd reached (by decide +kernel)

end Samples

end VerdictVaut
