import VerdictVaut.Wallet.WalkBack

set_option autoImplicit false

namespace VerdictVaut

open Pages Fallible

variable {addresses : List WatchedAddress} {cursor next : PerAddressCursor} {deposits : List RawChainDeposit} {a id : String}

/-- A scan's calls of the deposit mapper: the address it was watching and the transaction's id. -/
abbrev Handed := List (String × String)

def BitcoinDepositAdapter.handed (esplora : Esplora) (addresses : List WatchedAddress) (cursor : PerAddressCursor) :
    Except ChainFault (Handed × PerAddressCursor) :=
  scan esplora addresses cursor fun watched tx => .ok [(watched.address, tx.txid)]

def SolanaDepositAdapter.handed (rpc : SolanaRpc) (addresses : List WatchedAddress) (cursor : PerAddressCursor) :
    Except ChainFault (Handed × PerAddressCursor) :=
  scan rpc addresses cursor fun watched signature _ => .ok [(watched.address, signature)]

def XrpDepositAdapter.handed (rippled : Rippled) (addresses : List WatchedAddress) (cursor : PerAddressCursor) :
    Except ChainFault (Handed × PerAddressCursor) :=
  scan rippled addresses cursor fun watched entry => .ok [(watched.address, entry.hash)]

theorem lt_covered_iff {pageSize : Nat} (positive : 0 < pageSize) (position : Nat) :
    position < covered pageSize position ↔ position < pageSize * MAX_PAGES_PER_ADDRESS := by
  have split : position < pageSize * (position / pageSize + 1) := Nat.lt_mul_div_succ position positive
  have below : position / pageSize < MAX_PAGES_PER_ADDRESS ↔ position < pageSize * MAX_PAGES_PER_ADDRESS := by
    rw [Nat.div_lt_iff_lt_mul positive, Nat.mul_comm]
  rw [← below]
  unfold covered
  constructor
  · intro reached
    by_contra capped
    rw [Nat.min_eq_left (by omega)] at reached
    exact capped (below.mpr (by simpa [MAX_PAGES_PER_ADDRESS] using reached))
  · intro within
    rw [Nat.min_eq_right (by omega)]
    exact split

theorem advance_ne {T : Type} {idOf : T → String} {fetched : List T × Bool} :
    advance idOf fetched (some id) ≠ some id ↔
      fetched.2 = true ∧ ∃ newest, fetched.1.head? = some newest ∧ idOf newest ≠ id := by
  -- a cursor entry moves only when its walk caught up and its newest entry is another one
  unfold advance
  cases fetched.1.head? with
  | none => simp
  | some newest => cases fetched.2 <;> simp

theorem newerThan_eq {T : Type} (idOf : T → String) (id : String) (l : List T) :
    newerThan idOf id l = l.take (lastSeenAt idOf (some id) l) := by
  simp only [newerThan_eq_take, lastSeenAt, Option.some.injEq]

theorem newest_ne {T : Type} {idOf : T → String} {l : List T} {newest : T} (position : 0 < lastSeenAt idOf (some id) l)
    (first : l.head? = some newest) : idOf newest ≠ id := by
  cases l with
  | nil => cases first
  | cons t rest =>
    obtain rfl := Option.some.inj first
    rintro rfl
    simp [lastSeenAt, List.findIdx_cons] at position

theorem advance_take_ne {T : Type} {idOf : T → String} {l : List T} {n : Nat} (positive : 0 < n)
    (position : 0 < lastSeenAt idOf (some id) l) : advance idOf (l.take n, true) (some id) ≠ some id := by
  -- catching up past something newer than the last-seen entry moves the cursor
  have nonempty : 0 < l.length := lt_of_lt_of_le position lastSeenAt_le
  have first : l.head? = some l[0] := List.head?_eq_getElem? ▸ List.getElem?_eq_getElem nonempty
  have newest : (l.take n).head? = some l[0] := by rw [List.head?_take, if_neg (by omega), first]
  exact advance_ne.mpr ⟨rfl, l[0], newest, newest_ne position first⟩

section Scan

variable {T δ : Type} {idOf : T → String} {fetch : String → Option String → Except ChainFault (List T × Bool)}
  {toDeposits : WatchedAddress → T → Except ChainFault (List δ)} {found : List δ}

theorem scanAddresses_moved
    (done : scanAddresses idOf fetch toDeposits cursor addresses [] cursor = .ok (found, next))
    (known : cursor a = some id) (moved : next a ≠ some id) :
    ∃ watched ∈ addresses, watched.address = a ∧ ∃ fetched, fetch a (some id) = .ok fetched ∧ fetched.2 = true ∧
      ∀ tx ∈ fetched.1, ∃ mapped, toDeposits watched tx = .ok mapped ∧ ∀ d ∈ mapped, d ∈ found := by
  -- a scan that moves an address's cursor entry has caught up with the address's history
  by_cases watching : a ∈ addresses.map WatchedAddress.address
  · obtain ⟨watched, member, rfl⟩ := List.mem_map.mp watching
    obtain ⟨fetched, walked, reported⟩ := scanAddresses_reports done member
    rw [scanAddresses_cursor done watching walked, known, advance_ne] at moved
    rw [known] at walked
    exact ⟨watched, member, rfl, fetched, walked, moved.1, reported⟩
  · rw [scanAddresses_unwatched done watching, known] at moved
    exact absurd rfl moved

end Scan

theorem BitcoinDepositAdapter.scanForDeposits_handed {esplora : Esplora}
    (done : scanForDeposits esplora addresses cursor = .ok (deposits, next)) :
    ∃ noted, handed esplora addresses cursor = .ok (noted, next) := by
  obtain ⟨tipHeight, _, done⟩ := bind_eq_ok.mp done
  exact scanAddresses_record (fun _ _ _ _ => ⟨_, rfl⟩) done []

theorem SolanaDepositAdapter.scanForDeposits_handed {rpc : SolanaRpc} {network : AssetNetworkContext}
    (done : scanForDeposits rpc network addresses cursor = .ok (deposits, next)) :
    ∃ noted, handed rpc addresses cursor = .ok (noted, next) := by
  obtain ⟨currentSlot, _, done⟩ := bind_eq_ok.mp done
  refine scanAddresses_record (fun watched entry found made => ?_) done []
  obtain ⟨reply, answered, _⟩ := bind_eq_ok.mp made
  cases reply with
  | none => exact ⟨[], bind_eq_ok.mpr ⟨none, answered, rfl⟩⟩
  | some tx => exact ⟨_, bind_eq_ok.mpr ⟨some tx, answered, rfl⟩⟩

theorem XrpDepositAdapter.scanForDeposits_handed {rippled : Rippled} {network : AssetNetworkContext}
    (done : scanForDeposits rippled network addresses cursor = .ok (deposits, next)) :
    ∃ noted, handed rippled addresses cursor = .ok (noted, next) := by
  obtain ⟨currentLedger, _, done⟩ := bind_eq_ok.mp done
  exact scanAddresses_record (fun _ _ _ _ => ⟨_, rfl⟩) done []

theorem BitcoinDepositAdapter.moved_handed {esplora : Esplora} {history : EsploraHistory} {noted : Handed}
    (done : handed esplora addresses cursor = .ok (noted, next)) (serves : esplora.Serves PAGE_SIZE a history)
    (known : cursor a = some id) (moved : next a ≠ some id) :
    ∀ tx ∈ newerThan EsploraTx.txid id history.txs, (a, tx.txid) ∈ noted := by
  obtain ⟨watched, _, rfl, fetched, walked, caughtUp, recorded⟩ := scanAddresses_moved done known moved
  obtain ⟨collected, flag⟩ := fetchAddressHistory_ok (by decide) serves walked
  rw [caughtUp, Option.isNone_some, Bool.false_or] at flag
  obtain ⟨passed, _⟩ := of_decide_eq_true flag.symm
  intro tx newer
  rw [newerThan_eq] at newer
  have among : tx ∈ fetched.1 := by
    rw [collected]
    exact List.take_subset_take_left _ (le_of_lt passed) newer
  obtain ⟨mapped, made, reported⟩ := recorded tx among
  rw [Except.ok.injEq] at made
  exact reported _ (made ▸ List.mem_singleton.mpr rfl)

/-- Every signature newer than the last-seen one is looked up to a transaction, unless the walk back is too
long to catch up with it. -/
def SolanaDepositAdapter.LooksUp (rpc : SolanaRpc) (history : List SolanaSignatureInfo) (id : String) : Prop :=
  lastSeenAt SolanaSignatureInfo.signature (some id) history < RECENT_SIGNATURES_LIMIT * MAX_PAGES_PER_ADDRESS →
    ∀ entry ∈ newerThan SolanaSignatureInfo.signature id history, rpc.getTransaction entry.signature ≠ .ok none

theorem SolanaDepositAdapter.moved_handed_iff {rpc : SolanaRpc} {history : List SolanaSignatureInfo} {noted : Handed}
    (done : handed rpc addresses cursor = .ok (noted, next)) (serves : rpc.Serves RECENT_SIGNATURES_LIMIT a history)
    (watching : a ∈ addresses.map WatchedAddress.address) (known : cursor a = some id) :
    (next a ≠ some id → ∀ entry ∈ newerThan SolanaSignatureInfo.signature id history, (a, entry.signature) ∈ noted) ↔
      LooksUp rpc history id := by
  have reads : signaturesRead RECENT_SIGNATURES_LIMIT (some id) history =
      covered RECENT_SIGNATURES_LIMIT (lastSeenAt SolanaSignatureInfo.signature (some id) history) := rfl
  constructor
  · intro handedAll within entry newer null
    obtain ⟨watched, member, rfl⟩ := List.mem_map.mp watching
    obtain ⟨fetched, walked, _⟩ := scanAddresses_reports done member
    rw [known] at walked
    obtain ⟨collected, flag⟩ := fetchSignatureHistory_ok (by decide) serves walked
    rw [Option.isNone_some, Bool.false_or, reads, decide_eq_true ((lt_covered_iff (by decide) _).mpr within)] at flag
    have position : 0 < lastSeenAt SolanaSignatureInfo.signature (some id) history := by
      rw [newerThan_eq] at newer
      by_contra none
      rw [Nat.eq_zero_of_not_pos none] at newer
      cases newer
    have moved : next watched.address ≠ some id := by
      rw [scanAddresses_cursor done watching (known ▸ walked), known, ← Prod.eta fetched, collected, flag]
      exact advance_take_ne (Nat.mul_pos (by decide) (Nat.succ_pos _)) position
    -- what was handed on for this signature came from a lookup that was not null
    obtain ⟨other, _, _, _, tx, _, found, made, here⟩ := scanAddresses_origin done (handedAll moved entry newer)
    obtain ⟨reply, answered, made⟩ := bind_eq_ok.mp made
    cases reply with
    | none =>
      rw [pure_eq_ok] at made
      cases made ▸ here
    | some found =>
      rw [Except.ok.injEq] at made
      have same := List.mem_singleton.mp (made ▸ here)
      rw [(Prod.mk.inj same).2, answered] at null
      cases null
  · intro looksUp moved entry newer
    obtain ⟨watched, _, rfl, fetched, walked, caughtUp, recorded⟩ := scanAddresses_moved done known moved
    obtain ⟨collected, flag⟩ := fetchSignatureHistory_ok (by decide) serves walked
    rw [caughtUp, Option.isNone_some, Bool.false_or, reads] at flag
    have passed := of_decide_eq_true flag.symm
    have among : entry ∈ fetched.1 := by
      rw [newerThan_eq] at newer
      rw [collected, reads]
      exact List.take_subset_take_left _ (le_of_lt passed) newer
    obtain ⟨mapped, made, reported⟩ := recorded entry among
    obtain ⟨reply, answered, made⟩ := bind_eq_ok.mp made
    cases reply with
    | none => exact absurd answered (looksUp ((lt_covered_iff (by decide) _).mp passed) entry newer)
    | some tx =>
      rw [Except.ok.injEq] at made
      exact reported _ (made ▸ List.mem_singleton.mpr rfl)

section Xrp

variable {rippled : Rippled} {served : Nat → Nat} {history : List XrplAccountTxEntry} {noted : Handed}

theorem pagePosition_stuck (empty : pagePosition served 1 = 0) (k : Nat) : pagePosition served k = 0 := by
  have none : served 0 = 0 := by simpa [pagePosition] using empty
  induction k with
  | zero => rfl
  | succ k ih => rw [pagePosition, ih, none]

/-- No continuation that the walk back asks for, for entries newer than the last-seen one, is answered
`actNotFound`. -/
def XrpDepositAdapter.Continues (rippled : Rippled) (served : Nat → Nat) (history : List XrplAccountTxEntry)
    (account id : String) : Prop :=
  rippled.accountTx account RECENT_TX_LIMIT none = .ok (.error "actNotFound") ∨
    ∀ k < MAX_PAGES_PER_ADDRESS, 0 < pagePosition served k →
      pagePosition served k < lastSeenAt XrplAccountTxEntry.hash (some id) history →
        rippled.accountTx account RECENT_TX_LIMIT (pageMarker served k) ≠ .ok (.error "actNotFound")

theorem XrpDepositAdapter.handed_iff (done : handed rippled addresses cursor = .ok (noted, next))
    (watching : a ∈ addresses.map WatchedAddress.address) {fetched : List XrplAccountTxEntry × Bool}
    (walked : fetchAccountHistory RECENT_TX_LIMIT rippled a (cursor a) = .ok fetched) {hash : String} :
    (a, hash) ∈ noted ↔ hash ∈ fetched.1.map XrplAccountTxEntry.hash := by
  -- an entry was handed on for an address exactly when its walk collected it
  constructor
  · intro listed
    obtain ⟨watched, _, again, refetched, entry, among, mapped, made, here⟩ := scanAddresses_origin done listed
    rw [Except.ok.injEq] at made
    obtain ⟨rfl, rfl⟩ := Prod.mk.inj (List.mem_singleton.mp (made ▸ here))
    rw [walked, Except.ok.injEq] at refetched
    exact List.mem_map.mpr ⟨entry, refetched ▸ among, rfl⟩
  · intro collected
    obtain ⟨watched, member, rfl⟩ := List.mem_map.mp watching
    obtain ⟨again, refetched, recorded⟩ := scanAddresses_reports done member
    rw [walked, Except.ok.injEq] at refetched
    subst refetched
    obtain ⟨entry, among, rfl⟩ := List.mem_map.mp collected
    obtain ⟨mapped, made, reported⟩ := recorded entry among
    rw [Except.ok.injEq] at made
    exact reported _ (made ▸ List.mem_singleton.mpr rfl)

theorem XrpDepositAdapter.moved_handed_iff (done : handed rippled addresses cursor = .ok (noted, next))
    (serves : rippled.Serves RECENT_TX_LIMIT a served history)
    (watching : a ∈ addresses.map WatchedAddress.address) (known : cursor a = some id) :
    (next a ≠ some id → ∀ entry ∈ newerThan XrplAccountTxEntry.hash id history, (a, entry.hash) ∈ noted) ↔
      Continues rippled served history a id := by
  have fetching : ∃ fetched, fetchAccountHistory RECENT_TX_LIMIT rippled a (cursor a) = .ok fetched := by
    obtain ⟨watched, member, rfl⟩ := List.mem_map.mp watching
    obtain ⟨fetched, walked, _⟩ := scanAddresses_reports done member
    exact ⟨fetched, walked⟩
  obtain ⟨fetched, walked⟩ := fetching
  have cursorAt := scanAddresses_cursor done watching walked
  have listed : ∀ hash, (a, hash) ∈ noted ↔ hash ∈ fetched.1.map XrplAccountTxEntry.hash := fun hash =>
    handed_iff done watching walked
  rw [known] at walked cursorAt
  simp only [listed, newerThan_eq, cursorAt]
  have bound : lastSeenAt XrplAccountTxEntry.hash (some id) history ≤ history.length := lastSeenAt_le
  obtain ⟨last, capped, position, older, pages, ended⟩ := fetchAccountHistory_ok serves walked
  cases ended with
  | page answered stopped =>
    refine iff_of_true (fun moved entry newer => ?_) (.inr fun k within _ short lost => ?_)
    · have passed := of_decide_eq_true (advance_ne.mp moved).1
      exact List.mem_map_of_mem (List.take_subset_take_left _ (by omega) newer)
    · rcases lt_trichotomy k last with earlier | rfl | later
      · rw [pages k earlier] at lost
        cases lost
      · rw [answered] at lost
        cases lost
      · have beyond : pagePosition served (last + 1) ≤ pagePosition served k := pagePosition_mono served later
        unfold MAX_PAGES_PER_ADDRESS at within stopped
        omega
  | lost answered =>
    rcases Nat.eq_zero_or_pos last with rfl | later
    · refine iff_of_true (fun moved => ?_) (.inl answered)
      exact absurd (advance_ne.mp moved).2 (by simp [pagePosition])
    rcases Nat.eq_zero_or_pos (pagePosition served last) with nothing | something
    · refine iff_of_true (fun moved => ?_) (.inr fun k _ some => ?_)
      · exact absurd (advance_ne.mp moved).2 (by simp [nothing])
      · have first := pagePosition_mono served (show 1 ≤ last from later)
        rw [pagePosition_stuck (by omega) k] at some
        exact absurd some (lt_irrefl 0)
    have moved : advance XrplAccountTxEntry.hash (history.take (pagePosition served last), true) (some id) ≠ some id :=
      advance_take_ne something (by omega)
    constructor
    · intro handedAll
      -- the entry the lost request was for is not among the collected ones
      by_cases reached : lastSeenAt XrplAccountTxEntry.hash (some id) history = pagePosition served last
      · refine .inr fun k _ _ short lost => ?_
        have earlier : k < last := by
          by_contra beyond
          have := pagePosition_mono served (not_lt.mp beyond)
          omega
        rw [pages k earlier] at lost
        cases lost
      · have inside : pagePosition served last < history.length := older later
        have newer : history[pagePosition served last] ∈
            history.take (lastSeenAt XrplAccountTxEntry.hash (some id) history) :=
          List.mem_take_iff_getElem.mpr ⟨pagePosition served last, by omega, rfl⟩
        have collected := handedAll moved _ newer
        rw [List.map_take] at collected
        have absent := getElem_not_mem_take serves.distinct (i := pagePosition served last)
          (by rw [List.length_map]; exact inside) le_rfl
        rw [List.getElem_map] at absent
        exact absurd collected absent
    · rintro (first | continues) _ entry newer
      · have page := pages 0 later
        rw [show pageMarker served 0 = none from rfl, first] at page
        cases page
      · have reached : ¬ pagePosition served last < lastSeenAt XrplAccountTxEntry.hash (some id) history := fun short =>
          continues last (by unfold MAX_PAGES_PER_ADDRESS at capped ⊢; omega) something short answered
        exact List.mem_map_of_mem (List.take_subset_take_left _ (by omega) newer)

end Xrp

/-- When a scan moves an address's cursor entry from `id`, was everything newer than `id` handed to the mapper?
Bitcoin's always; Solana's exactly when every such signature is looked up to a transaction; XRP's exactly when
no continuation for such entries is answered `actNotFound`. -/
theorem scans_hand_on_history (addresses : List WatchedAddress) (cursor next : PerAddressCursor)
    (deposits : List RawChainDeposit) (a id : String) (known : cursor a = some id) :
    (∀ (esplora : Esplora) (history : EsploraHistory),
      BitcoinDepositAdapter.scanForDeposits esplora addresses cursor = .ok (deposits, next) →
      esplora.Serves BitcoinDepositAdapter.PAGE_SIZE a history →
      ∃ noted, BitcoinDepositAdapter.handed esplora addresses cursor = .ok (noted, next) ∧
        (next a ≠ some id → ∀ tx ∈ newerThan EsploraTx.txid id history.txs, (a, tx.txid) ∈ noted)) ∧
    (∀ (rpc : SolanaRpc) (network : AssetNetworkContext) (history : List SolanaSignatureInfo),
      SolanaDepositAdapter.scanForDeposits rpc network addresses cursor = .ok (deposits, next) →
      rpc.Serves SolanaDepositAdapter.RECENT_SIGNATURES_LIMIT a history →
      a ∈ addresses.map WatchedAddress.address →
      ∃ noted, SolanaDepositAdapter.handed rpc addresses cursor = .ok (noted, next) ∧
        ((next a ≠ some id →
            ∀ entry ∈ newerThan SolanaSignatureInfo.signature id history, (a, entry.signature) ∈ noted) ↔
          SolanaDepositAdapter.LooksUp rpc history id)) ∧
    (∀ (rippled : Rippled) (network : AssetNetworkContext) (served : Nat → Nat) (history : List XrplAccountTxEntry),
      XrpDepositAdapter.scanForDeposits rippled network addresses cursor = .ok (deposits, next) →
      rippled.Serves XrpDepositAdapter.RECENT_TX_LIMIT a served history →
      a ∈ addresses.map WatchedAddress.address →
      ∃ noted, XrpDepositAdapter.handed rippled addresses cursor = .ok (noted, next) ∧
        ((next a ≠ some id → ∀ entry ∈ newerThan XrplAccountTxEntry.hash id history, (a, entry.hash) ∈ noted) ↔
          XrpDepositAdapter.Continues rippled served history a id)) := by
  refine ⟨?_, ?_, ?_⟩
  · intro esplora history done serves
    obtain ⟨noted, recorded⟩ := BitcoinDepositAdapter.scanForDeposits_handed done
    exact ⟨noted, recorded, BitcoinDepositAdapter.moved_handed recorded serves known⟩
  · intro rpc network history done serves watching
    obtain ⟨noted, recorded⟩ := SolanaDepositAdapter.scanForDeposits_handed done
    exact ⟨noted, recorded, SolanaDepositAdapter.moved_handed_iff recorded serves watching known⟩
  · intro rippled network served history done serves watching
    obtain ⟨noted, recorded⟩ := XrpDepositAdapter.scanForDeposits_handed done
    exact ⟨noted, recorded, XrpDepositAdapter.moved_handed_iff recorded serves watching known⟩

section Samples

def watchedAddress (address : String) : WatchedAddress where
  walletAddressId := 1
  address := address
  destinationTag := none

def nativeNetwork (assetDecimals : Nat) : AssetNetworkContext where
  assetDecimals := assetDecimals
  contractAddress := none
  isNative := true

def laggingNode : SolanaRpc :=
  -- a node that has the signature of a transaction before the transaction itself
  SolanaRpc.holding (fun _ => none) [⟨"b"⟩, ⟨"a"⟩]

theorem laggingNode_serves : laggingNode.Serves SolanaDepositAdapter.RECENT_SIGNATURES_LIMIT "sol" [⟨"b"⟩, ⟨"a"⟩] where
  distinct := by decide
  newest page served := (Except.ok.inj served).symm
  older before page served := (Except.ok.inj served).symm

/-- Its scan moves the cursor past a transaction that no mapper has seen. -/
theorem laggingNode_skips : ∃ noted next,
    SolanaDepositAdapter.scanForDeposits laggingNode (nativeNetwork 9) [watchedAddress "sol"] (fun _ => some "a") =
      .ok ([], next) ∧
    SolanaDepositAdapter.handed laggingNode [watchedAddress "sol"] (fun _ => some "a") = .ok (noted, next) ∧
    next "sol" = some "b" ∧
    ⟨"b"⟩ ∈ newerThan SolanaSignatureInfo.signature "a" [⟨"b"⟩, ⟨"a"⟩] ∧ ("sol", "b") ∉ noted :=
  ⟨[], _, rfl, rfl, by decide, by decide, by decide⟩

theorem laggingNode_hands_on_history : ∃ noted next,
    SolanaDepositAdapter.handed laggingNode [watchedAddress "sol"] (fun _ => some "a") = .ok (noted, next) ∧
    ((next "sol" ≠ some "a" →
        ∀ entry ∈ newerThan SolanaSignatureInfo.signature "a" [⟨"b"⟩, ⟨"a"⟩], ("sol", entry.signature) ∈ noted) ↔
      SolanaDepositAdapter.LooksUp laggingNode [⟨"b"⟩, ⟨"a"⟩] "a") := by
  obtain ⟨noted, recorded, exactly⟩ := (scans_hand_on_history [watchedAddress "sol"] (fun _ => some "a") _ [] "sol" "a"
    rfl).2.1 laggingNode (nativeNetwork 9) [⟨"b"⟩, ⟨"a"⟩] rfl laggingNode_serves (by decide)
  exact ⟨noted, _, recorded, exactly⟩

end Samples

end VerdictVaut
