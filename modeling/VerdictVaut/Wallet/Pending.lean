import VerdictVaut.Wallet.Polls

set_option autoImplicit false

namespace VerdictVaut

open Pages Fallible

structure RawChainDeposit.Same (d d' : RawChainDeposit) : Prop where
  -- two reports of the same on-chain event for the same watched address
  wallet : d'.walletAddressId = d.walletAddressId
  hash : d'.txHash = d.txHash
  event : d'.eventIndex = d.eventIndex

theorem RawChainDeposit.Same.refl (d : RawChainDeposit) : d.Same d := ⟨rfl, rfl, rfl⟩

theorem RawChainDeposit.Same.trans {d d' d'' : RawChainDeposit} (first : d.Same d') (second : d'.Same d'') : d.Same d'' :=
  ⟨second.wallet.trans first.wallet, second.hash.trans first.hash, second.event.trans first.event⟩

section Runs

variable (length : Nat) (deposits : Nat → List RawChainDeposit) (wallet : Nat) (required : Int)

/-- Poll `i` reports the deposit below the required number of confirmations, and no poll between `i` and `j`
reports it with that number. -/
structure PendingUntil (d : RawChainDeposit) (i j : Nat) : Prop where
  order : i < j
  inside : j < length
  reported : d ∈ deposits i
  mine : d.walletAddressId = wallet
  below : d.confirmations < required
  unconfirmed : ∀ m, i < m → m < j → ∀ d' ∈ deposits m, d.Same d' → d'.confirmations < required

def ReObserved : Prop :=
  -- every later poll reports a pending deposit again until one reports it final
  ∀ d i j, PendingUntil length deposits wallet required d i j → ∃ d' ∈ deposits j, d.Same d'

/-- At every poll until then, a pending deposit lies among the transactions that the walk back reads. -/
def KeptInView (within : Nat → String → Prop) : Prop :=
  ∀ d i j, PendingUntil length deposits wallet required d i j → within j d.txHash

end Runs

section Generic

variable {T : Type} {idOf : T → String}

/-- A run of polls for one watched address among others: the histories only grow, at their newest end, and
so do the confirmations of every deposit in them. -/
structure PollRun (idOf : T → String) (watched : WatchedAddress) where
  length : Nat
  fetch : Nat → String → Option String → Except ChainFault (List T × Bool)
  toDeposits : Nat → WatchedAddress → T → Except ChainFault (List RawChainDeposit)
  addresses : Nat → List WatchedAddress
  cursor : Nat → PerAddressCursor
  deposits : Nat → List RawChainDeposit
  history : Nat → List T
  read : Nat → Nat
  polled : ∀ i < length, scanAddresses idOf (fetch i) (toDeposits i) (cursor i) (addresses i) [] (cursor i) =
    .ok (deposits i, cursor (i + 1))
  watching : ∀ i < length, watched ∈ addresses i
  wallets : ∀ i < length, ((addresses i).map WatchedAddress.walletAddressId).Nodup
  distinct : ∀ i < length, ((history i).map idOf).Nodup
  walks : ∀ i < length, ∀ fetched, fetch i watched.address (cursor i watched.address) = .ok fetched →
    fetched.1 = (history i).take (read i)
  keys : ∀ i other tx found d, toDeposits i other tx = .ok found → d ∈ found →
    d.walletAddressId = other.walletAddressId ∧ d.txHash = idOf tx
  grows : ∀ i, i + 1 < length → (history i).map idOf <:+ (history (i + 1)).map idOf
  persists : ∀ i, i + 1 < length → ∀ tx ∈ history i, ∀ tx' ∈ history (i + 1), idOf tx' = idOf tx →
    ∀ found, toDeposits i watched tx = .ok found → ∀ d ∈ found,
      ∃ found', toDeposits (i + 1) watched tx' = .ok found' ∧ ∃ d' ∈ found', d.Same d' ∧ d.confirmations ≤ d'.confirmations

variable {watched : WatchedAddress} (run : PollRun idOf watched) {required : Int}

/-- The event is on chain at poll `i`. -/
def PollRun.OnChain (i : Nat) (d : RawChainDeposit) : Prop :=
  ∃ tx ∈ run.history i, ∃ found, run.toDeposits i watched tx = .ok found ∧ ∃ d' ∈ found, d.Same d'

variable {run}

theorem PollRun.reported_onChain {i : Nat} {d : RawChainDeposit} (inside : i < run.length) (reported : d ∈ run.deposits i)
    (mine : d.walletAddressId = watched.walletAddressId) :
    ∃ tx ∈ (run.history i).take (run.read i), ∃ found, run.toDeposits i watched tx = .ok found ∧ d ∈ found ∧
      d.txHash = idOf tx := by
  obtain ⟨other, member, fetched, walked, tx, collected, found, made, here⟩ :=
    scanAddresses_origin (run.polled i inside) reported
  obtain ⟨wallet, hash⟩ := run.keys i other tx found d made here
  have same : other = watched :=
    List.inj_on_of_nodup_map (run.wallets i inside) member (run.watching i inside) (wallet.symm.trans mine)
  subst same
  rw [run.walks i inside fetched walked] at collected
  exact ⟨tx, collected, found, made, here, hash⟩

theorem PollRun.onChain_succ {i : Nat} {d : RawChainDeposit} (inside : i + 1 < run.length) (here : run.OnChain i d) :
    run.OnChain (i + 1) d := by
  obtain ⟨tx, member, found, made, d', listed, same⟩ := here
  have kept : idOf tx ∈ (run.history (i + 1)).map idOf := (run.grows i inside).subset (List.mem_map_of_mem member)
  obtain ⟨tx', later, named⟩ := List.mem_map.mp kept
  obtain ⟨found', remade, d'', among, again, _⟩ := run.persists i inside tx member tx' later named found made d' listed
  exact ⟨tx', later, found', remade, d'', among, same.trans again⟩

theorem PollRun.onChain_later {i j : Nat} {d : RawChainDeposit} (order : i ≤ j) (inside : j < run.length)
    (here : run.OnChain i d) : run.OnChain j d := by
  induction j, order using Nat.le_induction with
  | base => exact here
  | succ j _ ih => exact PollRun.onChain_succ inside (ih (by omega))

theorem PollRun.reports_iff {j : Nat} {d : RawChainDeposit} (inside : j < run.length) (here : run.OnChain j d)
    (mine : d.walletAddressId = watched.walletAddressId) :
    (∃ d' ∈ run.deposits j, d.Same d') ↔ lastSeenAt idOf (some d.txHash) (run.history j) < run.read j := by
  -- a deposit on chain is reported by a poll exactly when its transaction is among those the poll reads
  constructor
  · rintro ⟨d', reported, same⟩
    obtain ⟨tx, collected, _, _, _, hash⟩ := PollRun.reported_onChain inside reported (same.wallet.trans mine)
    obtain ⟨position, bound, rfl⟩ := List.mem_take_iff_getElem.mp collected
    have located := findIdx_of_getElem (run.distinct j inside) (i := position) (by omega)
    simp only [lastSeenAt, Option.some.injEq, ← same.hash, hash, located]
    omega
  · intro within
    obtain ⟨tx, member, found, made, d', listed, same⟩ := here
    obtain ⟨position, bound, rfl⟩ := List.mem_iff_getElem.mp member
    obtain ⟨_, hash⟩ := run.keys j watched _ found d' made listed
    have located := findIdx_of_getElem (run.distinct j inside) bound
    simp only [lastSeenAt, Option.some.injEq, ← same.hash, hash, located] at within
    obtain ⟨fetched, walked, reported⟩ := scanAddresses_reports (run.polled j inside) (run.watching j inside)
    have collected : (run.history j)[position] ∈ fetched.1 := by
      rw [run.walks j inside fetched walked]
      exact List.mem_take_iff_getElem.mpr ⟨position, by omega, rfl⟩
    obtain ⟨remade, again, kept⟩ := reported _ collected
    rw [made, Except.ok.injEq] at again
    exact ⟨d', kept d' (again ▸ listed), same⟩

theorem PollRun.reObserved_iff (run : PollRun idOf watched) (required : Int) :
    ReObserved run.length run.deposits watched.walletAddressId required ↔
      KeptInView run.length run.deposits watched.walletAddressId required
        fun j id => lastSeenAt idOf (some id) (run.history j) < run.read j := by
  refine forall₃_congr fun d i j => forall_congr' fun pending => ?_
  obtain ⟨tx, collected, found, made, listed, _⟩ :=
    PollRun.reported_onChain (lt_trans pending.order pending.inside) pending.reported pending.mine
  have first : run.OnChain i d := ⟨tx, List.mem_of_mem_take collected, found, made, d, listed, .refl d⟩
  exact PollRun.reports_iff pending.inside (PollRun.onChain_later (le_of_lt pending.order) pending.inside first) pending.mine

end Generic

section Adapters

variable {watched : WatchedAddress}

/-- What the runs of the three adapters have in common: who is watched at each poll, the cursors threaded
through the polls and what they report. -/
structure AddressPolls (watched : WatchedAddress) where
  length : Nat
  addresses : Nat → List WatchedAddress
  cursor : Nat → PerAddressCursor
  deposits : Nat → List RawChainDeposit
  watching : ∀ i < length, watched ∈ addresses i
  wallets : ∀ i < length, ((addresses i).map WatchedAddress.walletAddressId).Nodup

def Confirms (before after : List RawChainDeposit) : Prop :=
  -- every deposit of a transaction is a deposit of it later, with no fewer confirmations
  ∀ d ∈ before, ∃ d' ∈ after, d.Same d' ∧ d.confirmations ≤ d'.confirmations

structure BitcoinRun (watched : WatchedAddress) extends AddressPolls watched where
  esplora : Nat → Esplora
  tipHeight : Nat → Int
  history : Nat → EsploraHistory
  tip : ∀ i < length, (esplora i).tipHeight = .ok (tipHeight i)
  serves : ∀ i < length, (esplora i).Serves BitcoinDepositAdapter.PAGE_SIZE watched.address (history i)
  polled : ∀ i < length,
    BitcoinDepositAdapter.scanForDeposits (esplora i) (addresses i) (cursor i) = .ok (deposits i, cursor (i + 1))
  grows : ∀ i, i + 1 < length → (history i).txs.map EsploraTx.txid <:+ (history (i + 1)).txs.map EsploraTx.txid
  confirms : ∀ i, i + 1 < length → ∀ tx ∈ (history i).txs, ∀ tx' ∈ (history (i + 1)).txs, tx'.txid = tx.txid →
    Confirms (mapEsploraTxToDeposits tx watched (tipHeight i)) (mapEsploraTxToDeposits tx' watched (tipHeight (i + 1)))

def BitcoinRun.pollRun (run : BitcoinRun watched) : PollRun EsploraTx.txid watched where
  length := run.length
  fetch i := BitcoinDepositAdapter.fetchAddressHistory BitcoinDepositAdapter.PAGE_SIZE (run.esplora i)
  toDeposits i watched tx := .ok (mapEsploraTxToDeposits tx watched (run.tipHeight i))
  addresses := run.addresses
  cursor := run.cursor
  deposits := run.deposits
  history i := (run.history i).txs
  read i := (run.history i).read BitcoinDepositAdapter.PAGE_SIZE (run.cursor i watched.address)
  polled i inside := by
    rw [← BitcoinDepositAdapter.scanForDeposits_eq (run.tip i inside)]
    exact run.polled i inside
  watching := run.watching
  wallets := run.wallets
  distinct i _ := (run.history i).distinct
  walks i inside fetched walked := (fetchAddressHistory_ok (by decide) (run.serves i inside) walked).1
  keys _ _ _ _ _ made here := mapEsploraTxToDeposits_key (Except.ok.inj made ▸ here)
  grows := run.grows
  persists i inside tx member tx' later named found made d here :=
    ⟨_, rfl, run.confirms i inside tx member tx' later named d (Except.ok.inj made ▸ here)⟩

structure SolanaRun (watched : WatchedAddress) extends AddressPolls watched where
  network : AssetNetworkContext
  rpc : Nat → SolanaRpc
  currentSlot : Nat → Int
  history : Nat → List SolanaSignatureInfo
  slot : ∀ i < length, (rpc i).getSlot = .ok (currentSlot i)
  serves : ∀ i < length, (rpc i).Serves SolanaDepositAdapter.RECENT_SIGNATURES_LIMIT watched.address (history i)
  polled : ∀ i < length,
    SolanaDepositAdapter.scanForDeposits (rpc i) network (addresses i) (cursor i) = .ok (deposits i, cursor (i + 1))
  grows : ∀ i, i + 1 < length →
    (history i).map SolanaSignatureInfo.signature <:+ (history (i + 1)).map SolanaSignatureInfo.signature
  confirms : ∀ i, i + 1 < length → ∀ entry ∈ history i,
    ∀ found, SolanaDepositAdapter.mapSignature (rpc i) network (currentSlot i) watched entry = .ok found →
      ∃ found', SolanaDepositAdapter.mapSignature (rpc (i + 1)) network (currentSlot (i + 1)) watched entry = .ok found' ∧
        Confirms found found'

theorem mapSignature_key {rpc : SolanaRpc} {network : AssetNetworkContext} {currentSlot : Int} {other : WatchedAddress}
    {entry : SolanaSignatureInfo} {found : List RawChainDeposit} {d : RawChainDeposit}
    (made : SolanaDepositAdapter.mapSignature rpc network currentSlot other entry = .ok found) (here : d ∈ found) :
    d.walletAddressId = other.walletAddressId ∧ d.txHash = entry.signature := by
  obtain ⟨reply, _, mapped⟩ := bind_eq_ok.mp made
  cases reply with
  | none =>
    rw [pure_eq_ok] at mapped
    cases mapped ▸ here
  | some tx => exact mapTransaction_key mapped here

def SolanaRun.pollRun (run : SolanaRun watched) : PollRun SolanaSignatureInfo.signature watched where
  length := run.length
  fetch i := SolanaDepositAdapter.fetchSignatureHistory SolanaDepositAdapter.RECENT_SIGNATURES_LIMIT (run.rpc i)
  toDeposits i := SolanaDepositAdapter.mapSignature (run.rpc i) run.network (run.currentSlot i)
  addresses := run.addresses
  cursor := run.cursor
  deposits := run.deposits
  history := run.history
  read i := signaturesRead SolanaDepositAdapter.RECENT_SIGNATURES_LIMIT (run.cursor i watched.address) (run.history i)
  polled i inside := by
    rw [← SolanaDepositAdapter.scanForDeposits_eq (run.slot i inside)]
    exact run.polled i inside
  watching := run.watching
  wallets := run.wallets
  distinct i inside := (run.serves i inside).distinct
  walks i inside fetched walked := (fetchSignatureHistory_ok (by decide) (run.serves i inside) walked).1
  keys _ _ _ _ _ made here := mapSignature_key made here
  grows := run.grows
  persists i inside tx member tx' later named found made d here := by
    obtain ⟨signature⟩ := tx
    obtain ⟨signature'⟩ := tx'
    obtain rfl : signature' = signature := named
    obtain ⟨found', remade, kept⟩ := run.confirms i inside _ member found made
    exact ⟨found', remade, kept d here⟩

structure XrpRun (watched : WatchedAddress) extends AddressPolls watched where
  network : AssetNetworkContext
  rippled : Nat → Rippled
  currentLedger : Nat → Int
  history : Nat → List XrplAccountTxEntry
  ledger : ∀ i < length, (rippled i).validatedLedgerIndex = .ok (currentLedger i)
  answers : ∀ i < length, (rippled i).Answers XrpDepositAdapter.RECENT_TX_LIMIT watched.address (history i)
  polled : ∀ i < length,
    XrpDepositAdapter.scanForDeposits (rippled i) network (addresses i) (cursor i) = .ok (deposits i, cursor (i + 1))
  grows : ∀ i, i + 1 < length → (history i).map XrplAccountTxEntry.hash <:+ (history (i + 1)).map XrplAccountTxEntry.hash
  confirms : ∀ i, i + 1 < length → ∀ entry ∈ history i, ∀ entry' ∈ history (i + 1), entry'.hash = entry.hash →
    Confirms (mapXrplEntryToDeposit entry watched (currentLedger i) network.assetDecimals).toList
      (mapXrplEntryToDeposit entry' watched (currentLedger (i + 1)) network.assetDecimals).toList

def XrpRun.pollRun (run : XrpRun watched) : PollRun XrplAccountTxEntry.hash watched where
  length := run.length
  fetch i := XrpDepositAdapter.fetchAccountHistory XrpDepositAdapter.RECENT_TX_LIMIT (run.rippled i)
  toDeposits i watched entry :=
    .ok (mapXrplEntryToDeposit entry watched (run.currentLedger i) run.network.assetDecimals).toList
  addresses := run.addresses
  cursor := run.cursor
  deposits := run.deposits
  history := run.history
  read i := covered XrpDepositAdapter.RECENT_TX_LIMIT (walkEnd (run.cursor i watched.address) (run.history i))
  polled i inside := by
    rw [← XrpDepositAdapter.scanForDeposits_eq (run.ledger i inside)]
    exact run.polled i inside
  watching := run.watching
  wallets := run.wallets
  distinct i inside := (run.answers i inside).distinct
  walks i inside fetched walked := by rw [fetchAccountHistory_eq (by decide) (run.answers i inside) walked]
  keys _ _ _ _ _ made here := mapXrplEntryToDeposit_key (Except.ok.inj made ▸ here)
  grows := run.grows
  persists i inside tx member tx' later named found made d here :=
    ⟨_, rfl, run.confirms i inside tx member tx' later named d (Except.ok.inj made ▸ here)⟩

/-- In every run of polls, pending deposits are reported again until they are final exactly when each of them
stays among the newest transactions that the walk back to the last-seen one reads. -/
theorem pending_reObserved_iff (watched : WatchedAddress) (required : Int) :
    (∀ run : BitcoinRun watched, ReObserved run.length run.deposits watched.walletAddressId required ↔
      KeptInView run.length run.deposits watched.walletAddressId required fun j id =>
        lastSeenAt EsploraTx.txid (some id) (run.history j).txs <
          (run.history j).read BitcoinDepositAdapter.PAGE_SIZE (run.cursor j watched.address)) ∧
    (∀ run : SolanaRun watched, ReObserved run.length run.deposits watched.walletAddressId required ↔
      KeptInView run.length run.deposits watched.walletAddressId required fun j id =>
        lastSeenAt SolanaSignatureInfo.signature (some id) (run.history j) <
          signaturesRead SolanaDepositAdapter.RECENT_SIGNATURES_LIMIT (run.cursor j watched.address) (run.history j)) ∧
    (∀ run : XrpRun watched, ReObserved run.length run.deposits watched.walletAddressId required ↔
      KeptInView run.length run.deposits watched.walletAddressId required fun j id =>
        lastSeenAt XrplAccountTxEntry.hash (some id) (run.history j) <
          covered XrpDepositAdapter.RECENT_TX_LIMIT (walkEnd (run.cursor j watched.address) (run.history j))) :=
  ⟨fun run => run.pollRun.reObserved_iff required, fun run => run.pollRun.reObserved_iff required,
    fun run => run.pollRun.reObserved_iff required⟩

end Adapters

section Samples

theorem mapM_ok {α β : Type} (g : α → β) (l : List α) :
    l.mapM (fun a => (.ok (g a) : Except ChainFault β)) = .ok (l.map g) := by
  rw [mapM_eq_ok, List.forall₂_map_right_iff]
  exact List.forall₂_same.mpr fun _ _ => rfl

def flooded (i : Nat) : List EsploraTx :=
  -- a deposit, and from the second poll on twenty-five newer transactions of its address
  (if i = 0 then [] else (List.range 25).map fun age => plainTx "tb1q" (toString age)) ++ [plainTx "tb1q" "d"]

theorem flooded_plain {i : Nat} {tx : EsploraTx} (member : tx ∈ flooded i) : tx = plainTx "tb1q" tx.txid := by
  unfold flooded at member
  split at member
  · simp only [List.nil_append, List.mem_singleton] at member
    rw [member]
    rfl
  · simp only [List.mem_append, List.mem_map, List.mem_singleton] at member
    rcases member with ⟨age, _, rfl⟩ | rfl
    · rfl
    · rfl

def floodedHistory (i : Nat) : EsploraHistory where
  mempool := []
  confirmed := flooded i
  distinct := by
    unfold flooded
    split
    · decide
    · decide +kernel

def floodedCursor : Nat → PerAddressCursor
  | 0 => fun _ => none
  | 1 => Function.update (fun _ => none) "tb1q" (some "d")
  | i + 2 => Function.update (floodedCursor (i + 1)) "tb1q" (some "0")

def floodedDeposits (i : Nat) : List RawChainDeposit :=
  (((flooded i).take (if i = 2 then 25 else 26)).map fun tx => mapEsploraTxToDeposits tx (watchedAddress "tb1q") 150).flatten

theorem flooded_polled (i : Nat) (inside : i < 3) :
    BitcoinDepositAdapter.scanForDeposits (Esplora.holding BitcoinDepositAdapter.PAGE_SIZE (flooded i))
      [watchedAddress "tb1q"] (floodedCursor i) = .ok (floodedDeposits i, floodedCursor (i + 1)) := by
  have three : i = 0 ∨ i = 1 ∨ i = 2 := by omega
  have walked : BitcoinDepositAdapter.fetchAddressHistory BitcoinDepositAdapter.PAGE_SIZE
      (Esplora.holding BitcoinDepositAdapter.PAGE_SIZE (flooded i)) "tb1q" (floodedCursor i "tb1q") =
        .ok ((flooded i).take (if i = 2 then 25 else 26), true) := by
    rcases three with rfl | rfl | rfl <;> decide +kernel
  rw [BitcoinDepositAdapter.scanForDeposits_eq rfl]
  refine bind_eq_ok.mpr ⟨_, walked, bind_eq_ok.mpr ⟨_, mapM_ok _ _, ?_⟩⟩
  rcases three with rfl | rfl | rfl <;> rfl

/-- Three polls: the second still looks for the deposit, the third only for the newest of the others. -/
def floodedRun : BitcoinRun (watchedAddress "tb1q") where
  length := 3
  addresses _ := [watchedAddress "tb1q"]
  cursor := floodedCursor
  deposits := floodedDeposits
  watching _ _ := List.mem_singleton.mpr rfl
  wallets _ _ := by decide
  esplora i := Esplora.holding BitcoinDepositAdapter.PAGE_SIZE (flooded i)
  tipHeight _ := 150
  history := floodedHistory
  tip _ _ := rfl
  serves _ _ := ⟨fun _ served => (Except.ok.inj served).symm, fun _ _ served => (Except.ok.inj served).symm⟩
  polled := flooded_polled
  grows i inside := by
    obtain rfl | rfl : i = 0 ∨ i = 1 := by omega
    · decide +kernel
    · decide +kernel
  confirms i _ tx member tx' later named := by
    rw [flooded_plain (i := i) member, flooded_plain (i := i + 1) later, named]
    exact fun d here => ⟨d, here, .refl d, le_rfl⟩

/-- With sixty confirmations required, the deposit is reported with fifty-one and then no more. -/
theorem floodedRun_forgets :
    ¬ ReObserved floodedRun.length floodedRun.deposits (watchedAddress "tb1q").walletAddressId 60 := by
  intro reObserved
  have reported : ∃ d ∈ floodedDeposits 1, d.txHash = "d" ∧ d.walletAddressId = 1 ∧ d.confirmations < 60 := by
    decide +kernel
  obtain ⟨d, here, hash, wallet, below⟩ := reported
  obtain ⟨d', again, same⟩ := reObserved d 1 2 ⟨by decide, by decide, here, wallet, below, fun m low high => by omega⟩
  have gone : ∀ d' ∈ floodedDeposits 2, d'.txHash ≠ "d" := by decide +kernel
  exact gone d' again (same.hash.trans hash)

def steadyBitcoin : BitcoinRun (watchedAddress "tb1q") where
  -- the first two polls: the walk of the second still covers the deposit
  length := 2
  addresses := floodedRun.addresses
  cursor := floodedRun.cursor
  deposits := floodedRun.deposits
  watching _ _ := List.mem_singleton.mpr rfl
  wallets i inside := floodedRun.wallets i (Nat.lt_succ_of_lt inside)
  esplora := floodedRun.esplora
  tipHeight := floodedRun.tipHeight
  history := floodedRun.history
  tip _ _ := rfl
  serves i inside := floodedRun.serves i (Nat.lt_succ_of_lt inside)
  polled i inside := floodedRun.polled i (Nat.lt_succ_of_lt inside)
  grows i inside := floodedRun.grows i (Nat.lt_succ_of_lt inside)
  confirms i inside := floodedRun.confirms i (Nat.lt_succ_of_lt inside)

def steadyIds (i : Nat) : List String := if i = 0 then ["d"] else ["e", "d"]

def steadyCursor (address : String) : Nat → PerAddressCursor
  | 0 => fun _ => none
  | 1 => Function.update (fun _ => none) address (some "d")
  | i + 2 => Function.update (steadyCursor address (i + 1)) address (some "e")

theorem steadyIds_nodup {T : Type} {i : Nat} (inside : i < 2) (tx : String → T) {idOf : T → String} (named : idOf ∘ tx = id) :
    (((steadyIds i).map tx).map idOf).Nodup := by
  rw [List.map_map, named, List.map_id]
  obtain rfl | rfl : i = 0 ∨ i = 1 := by omega
  · decide
  · decide

def solTransfer : SolanaTransaction where
  slot := 450
  accountKeys := ["payer", "sol"]
  txMeta := some ⟨false, [100, 0], [40, 60], [], [], none⟩

def steadyRpc (i : Nat) : SolanaRpc :=
  SolanaRpc.holding (fun _ => some solTransfer) ((steadyIds i).map SolanaSignatureInfo.mk)

def solDeposit (signature : String) : RawChainDeposit where
  walletAddressId := 1
  txHash := signature
  eventIndex := 1
  amount := "0.00000006"
  confirmations := 50
  destinationTag := none

def steadySolana : SolanaRun (watchedAddress "sol") where
  length := 2
  addresses _ := [watchedAddress "sol"]
  cursor := steadyCursor "sol"
  deposits i := (steadyIds i).map solDeposit
  watching _ _ := List.mem_singleton.mpr rfl
  wallets _ _ := by decide
  network := nativeNetwork 9
  rpc := steadyRpc
  currentSlot _ := 500
  history i := (steadyIds i).map SolanaSignatureInfo.mk
  slot _ _ := rfl
  serves i inside := ⟨steadyIds_nodup inside SolanaSignatureInfo.mk rfl, fun _ served => (Except.ok.inj served).symm,
    fun _ _ served => (Except.ok.inj served).symm⟩
  polled i inside := by
    obtain rfl | rfl : i = 0 ∨ i = 1 := by omega
    · rfl
    · rfl
  grows i inside := by
    obtain rfl : i = 0 := by omega
    decide
  confirms i _ entry _ found made := ⟨found, made, fun d here => ⟨d, here, .refl d, le_rfl⟩⟩

def xrpDeposits (i : Nat) : List RawChainDeposit :=
  (((steadyIds i).map (plainEntry "xrp")).map fun entry =>
    (mapXrplEntryToDeposit entry (watchedAddress "xrp") 500 6).toList).flatten

theorem steadyXrp_polled (i : Nat) (inside : i < 2) :
    XrpDepositAdapter.scanForDeposits (Rippled.holding ((steadyIds i).map (plainEntry "xrp"))) (nativeNetwork 6)
      [watchedAddress "xrp"] (steadyCursor "xrp" i) = .ok (xrpDeposits i, steadyCursor "xrp" (i + 1)) := by
  have two : i = 0 ∨ i = 1 := by omega
  have walked : XrpDepositAdapter.fetchAccountHistory XrpDepositAdapter.RECENT_TX_LIMIT
      (Rippled.holding ((steadyIds i).map (plainEntry "xrp"))) "xrp" (steadyCursor "xrp" i "xrp") =
        .ok ((steadyIds i).map (plainEntry "xrp"), true) := by
    rcases two with rfl | rfl <;> decide +kernel
  rw [XrpDepositAdapter.scanForDeposits_eq rfl]
  refine bind_eq_ok.mpr ⟨_, walked, bind_eq_ok.mpr ⟨_, mapM_ok _ _, ?_⟩⟩
  rcases two with rfl | rfl <;> rfl

def steadyXrp : XrpRun (watchedAddress "xrp") where
  length := 2
  addresses _ := [watchedAddress "xrp"]
  cursor := steadyCursor "xrp"
  deposits := xrpDeposits
  watching _ _ := List.mem_singleton.mpr rfl
  wallets _ _ := by decide
  network := nativeNetwork 6
  rippled i := Rippled.holding ((steadyIds i).map (plainEntry "xrp"))
  currentLedger _ := 500
  history i := (steadyIds i).map (plainEntry "xrp")
  ledger _ _ := rfl
  answers i inside := ⟨steadyIds_nodup inside (plainEntry "xrp") rfl, fun k => Rippled.holding_pages _ _ k _⟩
  polled := steadyXrp_polled
  grows i inside := by
    obtain rfl : i = 0 := by omega
    decide
  confirms i inside entry member entry' later named := by
    obtain ⟨hash, -, rfl⟩ := List.mem_map.mp member
    obtain ⟨hash', -, rfl⟩ := List.mem_map.mp later
    obtain rfl : hash' = hash := named
    exact fun d here => ⟨d, here, .refl d, le_rfl⟩

theorem keptInView_second {deposits : Nat → List RawChainDeposit} {wallet : Nat} {required : Int} {within : Nat → String → Prop}
    (seen : ∀ d ∈ deposits 0, within 1 d.txHash) : KeptInView 2 deposits wallet required within := by
  intro d i j pending
  have order := pending.order
  have inside := pending.inside
  obtain rfl : i = 0 := by omega
  obtain rfl : j = 1 := by omega
  exact seen d pending.reported

/-- With a thousand confirmations required, each adapter reports its pending deposit in both polls. -/
theorem steadyRuns_reObserved :
    ((∃ d ∈ steadyBitcoin.deposits 0, d.confirmations < 1000) ∧ ReObserved 2 steadyBitcoin.deposits 1 1000) ∧
    ((∃ d ∈ steadySolana.deposits 0, d.confirmations < 1000) ∧ ReObserved 2 steadySolana.deposits 1 1000) ∧
    (∃ d ∈ steadyXrp.deposits 0, d.confirmations < 1000) ∧ ReObserved 2 steadyXrp.deposits 1 1000 := by
  refine ⟨⟨by decide +kernel, ?_⟩, ⟨by decide +kernel, ?_⟩, by decide +kernel, ?_⟩
  · exact ((pending_reObserved_iff (watchedAddress "tb1q") 1000).1 steadyBitcoin).mpr (keptInView_second (by decide +kernel))
  · exact ((pending_reObserved_iff (watchedAddress "sol") 1000).2.1 steadySolana).mpr (keptInView_second (by decide +kernel))
  · exact ((pending_reObserved_iff (watchedAddress "xrp") 1000).2.2 steadyXrp).mpr (keptInView_second (by decide +kernel))

end Samples

end VerdictVaut
