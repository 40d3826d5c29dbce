import VerdictVaut.Wallet.Emitted

set_option autoImplicit false

namespace VerdictVaut

open Fallible

section Chain

/-- What a Solana node promises of a transaction: each account is listed once and has its two balances, and each of
the token lists has an account at most once, with an unsigned amount. -/
structure SolanaTransaction.WellFormed (tx : SolanaTransaction) (txMeta : SolanaTransactionMeta) : Prop where
  keys : (combinedAccountKeys tx txMeta).Nodup
  preBalances : txMeta.preBalances.length = (combinedAccountKeys tx txMeta).length
  postBalances : txMeta.postBalances.length = (combinedAccountKeys tx txMeta).length
  preTokens : (txMeta.preTokenBalances.map SolanaTokenBalance.accountIndex).Nodup
  postTokens : (txMeta.postTokenBalances.map SolanaTokenBalance.accountIndex).Nodup
  unsigned : ∀ balance ∈ txMeta.preTokenBalances, 0 ≤ balance.amount

def nativeRise (tx : SolanaTransaction) (txMeta : SolanaTransactionMeta) (decimals i : Nat) (address : String)
    (units : Int) (d : Nat) : Prop :=
  -- the lamports of the account with this index rose
  (combinedAccountKeys tx txMeta)[i]? = some address ∧
    (∃ pre post, txMeta.preBalances[i]? = some pre ∧ txMeta.postBalances[i]? = some post ∧ units = post - pre) ∧
    0 < units ∧ d = decimals

def tokensBefore (txMeta : SolanaTransactionMeta) (mint : String) (i : Nat) : Int :=
  -- what a token account held of a mint before the transaction, nothing when it is not listed
  ((txMeta.preTokenBalances.find? fun b => decide (b.accountIndex = i ∧ b.mint = mint)).map
    SolanaTokenBalance.amount).getD 0

def tokenRise (tx : SolanaTransaction) (txMeta : SolanaTransactionMeta) (mint : String) (i : Nat) (address : String)
    (units : Int) (d : Nat) : Prop :=
  -- the tokens of a mint rose on the account with this index
  (combinedAccountKeys tx txMeta)[i]? = some address ∧
    (∃ post ∈ txMeta.postTokenBalances, post.accountIndex = i ∧ post.mint = mint ∧ d = post.decimals ∧
      units = post.amount - tokensBefore txMeta mint i) ∧
    0 < units

structure RawChainDeposit.Reports (raw : RawChainDeposit) (signature : String) (watched : WatchedAddress) (i : Nat)
    (units : Int) (d : Nat) : Prop where
  -- a deposit that reports so many units, at so many decimals, on the account with this index
  walletAddressId : raw.walletAddressId = watched.walletAddressId
  txHash : raw.txHash = signature
  eventIndex : raw.eventIndex = i
  amount : ∃ amount, Decimals.value? raw.amount.toList = some amount ∧ amount * 10 ^ d = units

structure ExactlyReports (signature : String) (watched : List WatchedAddress)
    (rises : Nat → String → Int → Nat → Prop) (deposits : List RawChainDeposit) : Prop where
  -- one deposit for each watched account that rose, and no other
  distinct : (deposits.map RawChainDeposit.eventIndex).Nodup
  complete : ∀ w ∈ watched, ∀ i units d, rises i w.address units d → ∃ raw ∈ deposits, raw.Reports signature w i units d
  sound : ∀ raw ∈ deposits, ∃ w ∈ watched, ∃ units d, rises raw.eventIndex w.address units d ∧
    raw.Reports signature w raw.eventIndex units d

/-- Each rise on a watched token account is of a token with decimals (or its network has none either), and the account
held nothing of another mint before. -/
def Convertible (tx : SolanaTransaction) (txMeta : SolanaTransactionMeta) (watched : List WatchedAddress) (mint : String)
    (fallbackDecimals : Nat) : Prop :=
  ∀ post ∈ txMeta.postTokenBalances, post.mint = mint →
    (∃ w ∈ watched, (combinedAccountKeys tx txMeta)[post.accountIndex]? = some w.address) →
    tokensBefore txMeta mint post.accountIndex < post.amount →
    (post.decimals ≠ 0 ∨ fallbackDecimals = 0) ∧
      ∀ pre ∈ txMeta.preTokenBalances, pre.accountIndex = post.accountIndex → pre.mint ≠ mint → pre.amount = 0

end Chain

section Mapping

variable {tx : SolanaTransaction} {txMeta : SolanaTransactionMeta} {watched : List WatchedAddress} {signature : String}
  {currentSlot : Int}

theorem byAddress_eq_some (distinct : (watched.map WatchedAddress.address).Nodup) {address : String}
    {w : WatchedAddress} : byAddress watched address = some w ↔ w ∈ watched ∧ w.address = address := by
  constructor
  next =>
    intro found
    exact ⟨List.mem_reverse.mp (List.mem_of_find?_eq_some found), by simpa using List.find?_some found⟩
  next =>
    rintro ⟨member, same⟩
    cases found : byAddress watched address with
    | none => simpa [same] using List.find?_eq_none.mp found w (List.mem_reverse.mpr member)
    | some other =>
      have listed := List.mem_reverse.mp (List.mem_of_find?_eq_some found)
      have also : other.address = address := by simpa using List.find?_some found
      rw [List.inj_on_of_nodup_map distinct listed member (also.trans same.symm)]

def nativeDeposits (signature : String) (tx : SolanaTransaction) (txMeta : SolanaTransactionMeta)
    (watched : List WatchedAddress) (currentSlot : Int) (decimals : Nat) (key : String × Nat) : List RawChainDeposit :=
  -- what the native mapper makes of one account
  match byAddress watched key.1 with
  | none => []
  | some found =>
    if txMeta.postBalances.getD key.2 0 - txMeta.preBalances.getD key.2 0 ≤ 0 then []
    else [{
      walletAddressId := found.walletAddressId
      txHash := signature
      eventIndex := key.2
      amount := rawUnitsToDecimalString (txMeta.postBalances.getD key.2 0 - txMeta.preBalances.getD key.2 0) decimals
      confirmations := confirmationsFromSlot tx.slot currentSlot
      destinationTag := none }]

theorem mapNativeSolTransactionToDeposits_eq (known : tx.txMeta = some txMeta) (succeeded : txMeta.err = false)
    (wellFormed : tx.WellFormed txMeta) (decimals : Nat) :
    mapNativeSolTransactionToDeposits signature tx watched currentSlot decimals =
      .ok ((combinedAccountKeys tx txMeta).zipIdx.flatMap
        (nativeDeposits signature tx txMeta watched currentSlot decimals)) := by
  unfold mapNativeSolTransactionToDeposits
  simp only [known, succeeded, Bool.false_eq_true, if_false]
  rw [bind_eq_ok]
  refine ⟨_, mapM_eq_map (nativeDeposits signature tx txMeta watched currentSlot decimals) fun key member => ?_,
    by rw [List.flatMap_def]; rfl⟩
  have inside := List.snd_lt_of_mem_zipIdx member
  obtain ⟨pre, preFound⟩ : ∃ pre, txMeta.preBalances[key.2]? = some pre :=
    ⟨_, List.getElem?_eq_getElem (by have := wellFormed.preBalances; omega)⟩
  obtain ⟨post, postFound⟩ : ∃ post, txMeta.postBalances[key.2]? = some post :=
    ⟨_, List.getElem?_eq_getElem (by have := wellFormed.postBalances; omega)⟩
  unfold nativeDeposits
  cases byAddress watched key.1 with
  | none => rfl
  | some found =>
    simp only [List.getD_eq_getElem?_getD, preFound, postFound, Option.getD_some]
    split <;> rfl

theorem eventIndex_nativeDeposits (decimals : Nat) (keys : List (String × Nat)) :
    ((keys.flatMap (nativeDeposits signature tx txMeta watched currentSlot decimals)).map
      RawChainDeposit.eventIndex).Sublist (keys.map Prod.snd) := by
  induction keys with
  | nil => exact .slnil
  | cons key rest ih =>
    rw [List.flatMap_cons, List.map_append, List.map_cons]
    have one : (nativeDeposits signature tx txMeta watched currentSlot decimals key).map RawChainDeposit.eventIndex = [] ∨
        (nativeDeposits signature tx txMeta watched currentSlot decimals key).map RawChainDeposit.eventIndex =
          [key.2] := by
      unfold nativeDeposits
      split
      next => exact .inl rfl
      next =>
        split
        next => exact .inl rfl
        next => exact .inr rfl
    rcases one with none | some
    · rw [none, List.nil_append]
      exact ih.cons _
    · rw [some]
      exact ih.cons_cons _

theorem amount_exact (units : Int) (d : Nat) :
    ∃ amount, Decimals.value? (rawUnitsToDecimalString units d).toList = some amount ∧ amount * 10 ^ d = units :=
  ⟨_, value?_rawUnitsToDecimalString units d, div_mul_cancel₀ _ (by positivity)⟩

theorem mapNativeSolTransactionToDeposits_exact (known : tx.txMeta = some txMeta) (succeeded : txMeta.err = false)
    (wellFormed : tx.WellFormed txMeta) (distinct : (watched.map WatchedAddress.address).Nodup) (decimals : Nat) :
    ∃ deposits, mapNativeSolTransactionToDeposits signature tx watched currentSlot decimals = .ok deposits ∧
      ExactlyReports signature watched (nativeRise tx txMeta decimals) deposits := by
  -- the native mapper reports each rise of a watched account exactly once, exactly
  refine ⟨_, mapNativeSolTransactionToDeposits_eq known succeeded wellFormed decimals, ?_⟩
  constructor
  case distinct =>
    refine (eventIndex_nativeDeposits decimals _).nodup ?_
    rw [List.zipIdx_map_snd]
    exact List.nodup_range'
  case complete =>
    rintro w member i units d ⟨listed, ⟨pre, post, preFound, postFound, rfl⟩, rose, rfl⟩
    have found := (byAddress_eq_some distinct).mpr ⟨member, rfl⟩
    refine ⟨⟨w.walletAddressId, signature, i, rawUnitsToDecimalString (post - pre) d,
      confirmationsFromSlot tx.slot currentSlot, none⟩, ?_, rfl, rfl, rfl, amount_exact _ _⟩
    refine List.mem_flatMap.mpr ⟨(w.address, i), List.mem_zipIdx_iff_getElem?.mpr listed, ?_⟩
    simpa [nativeDeposits, found, preFound, postFound] using rose
  case sound =>
    intro raw emitted
    obtain ⟨⟨address, i⟩, listed, made⟩ := List.mem_flatMap.mp emitted
    rw [List.mem_zipIdx_iff_getElem?] at listed
    obtain ⟨inside, -⟩ := List.getElem?_eq_some_iff.mp listed
    obtain ⟨pre, preFound⟩ : ∃ pre, txMeta.preBalances[i]? = some pre :=
      ⟨_, List.getElem?_eq_getElem (by have := wellFormed.preBalances; omega)⟩
    obtain ⟨post, postFound⟩ : ∃ post, txMeta.postBalances[i]? = some post :=
      ⟨_, List.getElem?_eq_getElem (by have := wellFormed.postBalances; omega)⟩
    cases found : byAddress watched address with
    | none => simp [nativeDeposits, found] at made
    | some w =>
      obtain ⟨member, rfl⟩ := (byAddress_eq_some distinct).mp found
      simp only [nativeDeposits, found, List.getD_eq_getElem?_getD, preFound, postFound, Option.getD_some] at made
      split at made
      next => cases made
      next rose =>
        obtain rfl := List.mem_singleton.mp made
        exact ⟨w, member, post - pre, decimals, ⟨listed, ⟨pre, post, preFound, postFound, rfl⟩, by omega, rfl⟩,
          rfl, rfl, rfl, amount_exact _ _⟩

variable {mint : String} {fallbackDecimals : Nat}

/-- `preByIndex.get(accountIndex)`, whatever its mint. -/
def preByIndex (txMeta : SolanaTransactionMeta) (i : Nat) : Option SolanaTokenBalance :=
  txMeta.preTokenBalances.reverse.find? fun b => decide (b.accountIndex = i)

def mappedDelta (txMeta : SolanaTransactionMeta) (post : SolanaTokenBalance) : Int :=
  -- what the token mapper takes a token account to have received
  post.amount - ((preByIndex txMeta post.accountIndex).map SolanaTokenBalance.amount).getD 0

def mappedDecimals (fallbackDecimals : Nat) (post : SolanaTokenBalance) : Nat :=
  if post.decimals = 0 then fallbackDecimals else post.decimals

def tokenDeposit (signature : String) (tx : SolanaTransaction) (txMeta : SolanaTransactionMeta)
    (watched : List WatchedAddress) (currentSlot : Int) (mint : String) (fallbackDecimals : Nat)
    (post : SolanaTokenBalance) : Option RawChainDeposit :=
  -- what the token mapper makes of one entry of the list
  if post.mint ≠ mint then none
  else match ((combinedAccountKeys tx txMeta)[post.accountIndex]?).bind (byAddress watched) with
    | none => none
    | some found =>
      if mappedDelta txMeta post ≤ 0 then none
      else some
        { walletAddressId := found.walletAddressId
          txHash := signature
          eventIndex := post.accountIndex
          amount := rawUnitsToDecimalString (mappedDelta txMeta post) (mappedDecimals fallbackDecimals post)
          confirmations := confirmationsFromSlot tx.slot currentSlot
          destinationTag := none }

theorem mapSplTokenTransactionToDeposits_eq (known : tx.txMeta = some txMeta) (succeeded : txMeta.err = false) :
    mapSplTokenTransactionToDeposits signature tx watched currentSlot (some mint) fallbackDecimals =
      txMeta.postTokenBalances.filterMap
        (tokenDeposit signature tx txMeta watched currentSlot mint fallbackDecimals) := by
  simp only [mapSplTokenTransactionToDeposits, known, succeeded, Bool.false_eq_true, if_false, ne_eq, Option.some.injEq]
  rfl

theorem tokenDeposit_eq_some (distinct : (watched.map WatchedAddress.address).Nodup) {post : SolanaTokenBalance}
    {raw : RawChainDeposit} :
    tokenDeposit signature tx txMeta watched currentSlot mint fallbackDecimals post = some raw ↔
      post.mint = mint ∧ ∃ w ∈ watched, (combinedAccountKeys tx txMeta)[post.accountIndex]? = some w.address ∧
        0 < mappedDelta txMeta post ∧
        raw = ⟨w.walletAddressId, signature, post.accountIndex,
          rawUnitsToDecimalString (mappedDelta txMeta post) (mappedDecimals fallbackDecimals post),
          confirmationsFromSlot tx.slot currentSlot, none⟩ := by
  unfold tokenDeposit
  constructor
  next =>
    intro maps
    split at maps
    next => cases maps
    next ofMint =>
      split at maps
      next => cases maps
      next w found =>
        obtain ⟨address, listed, looked⟩ := Option.bind_eq_some_iff.mp found
        obtain ⟨inside, rfl⟩ := (byAddress_eq_some distinct).mp looked
        split at maps
        next => cases maps
        next rose =>
          cases maps
          exact ⟨not_not.mp ofMint, w, inside, listed, not_le.mp rose, rfl⟩
  next =>
    rintro ⟨ofMint, w, inside, listed, rose, rfl⟩
    have found := (byAddress_eq_some distinct).mpr ⟨inside, rfl⟩
    simp only [ofMint, ne_eq, not_true_eq_false, if_false, listed, Option.bind_some, found, if_neg (not_le.mpr rose)]

theorem mem_mapSplTokenTransactionToDeposits (known : tx.txMeta = some txMeta) (succeeded : txMeta.err = false)
    (distinct : (watched.map WatchedAddress.address).Nodup) {raw : RawChainDeposit} :
    raw ∈ mapSplTokenTransactionToDeposits signature tx watched currentSlot (some mint) fallbackDecimals ↔
      ∃ post ∈ txMeta.postTokenBalances, post.mint = mint ∧ ∃ w ∈ watched,
        (combinedAccountKeys tx txMeta)[post.accountIndex]? = some w.address ∧ 0 < mappedDelta txMeta post ∧
        raw = ⟨w.walletAddressId, signature, post.accountIndex,
          rawUnitsToDecimalString (mappedDelta txMeta post) (mappedDecimals fallbackDecimals post),
          confirmationsFromSlot tx.slot currentSlot, none⟩ := by
  simp only [mapSplTokenTransactionToDeposits_eq known succeeded, List.mem_filterMap, tokenDeposit_eq_some distinct]

theorem distinct_mapSplTokenTransactionToDeposits (known : tx.txMeta = some txMeta) (succeeded : txMeta.err = false)
    (wellFormed : tx.WellFormed txMeta) (distinct : (watched.map WatchedAddress.address).Nodup) :
    ((mapSplTokenTransactionToDeposits signature tx watched currentSlot (some mint) fallbackDecimals).map
      RawChainDeposit.eventIndex).Nodup := by
  have apart := wellFormed.postTokens
  rw [List.Nodup, List.pairwise_map] at apart
  rw [mapSplTokenTransactionToDeposits_eq known succeeded, List.Nodup, List.pairwise_map, List.pairwise_filterMap]
  refine apart.imp fun {post other} differ raw made raw' made' => ?_
  obtain ⟨-, w, -, -, -, rfl⟩ := (tokenDeposit_eq_some distinct).mp made
  obtain ⟨-, w', -, -, -, rfl⟩ := (tokenDeposit_eq_some distinct).mp made'
  exact differ

theorem preByIndex_of_mem (wellFormed : tx.WellFormed txMeta) {pre : SolanaTokenBalance}
    (member : pre ∈ txMeta.preTokenBalances) : preByIndex txMeta pre.accountIndex = some pre := by
  -- an account is listed at most once, so the mapper's lookup by index finds its one entry
  cases found : preByIndex txMeta pre.accountIndex with
  | none => simpa using List.find?_eq_none.mp found pre (List.mem_reverse.mpr member)
  | some other =>
    have index : other.accountIndex = pre.accountIndex := by simpa using List.find?_some found
    rw [List.inj_on_of_nodup_map wellFormed.preTokens (List.mem_reverse.mp (List.mem_of_find?_eq_some found)) member
      index]

theorem tokensBefore_of_mem (wellFormed : tx.WellFormed txMeta) {pre : SolanaTokenBalance}
    (member : pre ∈ txMeta.preTokenBalances) : tokensBefore txMeta pre.mint pre.accountIndex = pre.amount := by
  cases found : txMeta.preTokenBalances.find? fun b => decide (b.accountIndex = pre.accountIndex ∧ b.mint = pre.mint) with
  | none => simpa using List.find?_eq_none.mp found pre member
  | some other =>
    have fits : other.accountIndex = pre.accountIndex ∧ other.mint = pre.mint := by simpa using List.find?_some found
    obtain rfl := List.inj_on_of_nodup_map wellFormed.preTokens (List.mem_of_find?_eq_some found) member fits.1
    rw [tokensBefore, found]
    rfl

theorem tokensBefore_of_absent {mint : String} {i : Nat}
    (absent : ∀ pre ∈ txMeta.preTokenBalances, pre.accountIndex = i → pre.mint ≠ mint) :
    tokensBefore txMeta mint i = 0 := by
  have nothing : (txMeta.preTokenBalances.find? fun b => decide (b.accountIndex = i ∧ b.mint = mint)) = none := by
    rw [List.find?_eq_none]
    intro b member fits
    simp only [decide_eq_true_eq] at fits
    exact absent b member fits.1 fits.2
  rw [tokensBefore, nothing]
  rfl

theorem mappedDelta_cases (wellFormed : tx.WellFormed txMeta) (post : SolanaTokenBalance) :
    mappedDelta txMeta post = post.amount - tokensBefore txMeta post.mint post.accountIndex ∨
      tokensBefore txMeta post.mint post.accountIndex = 0 ∧
        ∃ pre ∈ txMeta.preTokenBalances, pre.accountIndex = post.accountIndex ∧ pre.mint ≠ post.mint ∧
          mappedDelta txMeta post = post.amount - pre.amount := by
  -- the balance that the mapper subtracts against what the account held of the mint
  cases found : preByIndex txMeta post.accountIndex with
  | none =>
    have absent : tokensBefore txMeta post.mint post.accountIndex = 0 := by
      refine tokensBefore_of_absent fun pre member index => ?_
      rw [← index, preByIndex_of_mem wellFormed member] at found
      cases found
    rw [mappedDelta, found, absent]
    exact .inl rfl
  | some pre =>
    have member := List.mem_reverse.mp (List.mem_of_find?_eq_some found)
    have index : pre.accountIndex = post.accountIndex := by simpa using List.find?_some found
    by_cases ofMint : pre.mint = post.mint
    next =>
      rw [mappedDelta, found, ← ofMint, ← index, tokensBefore_of_mem wellFormed member]
      exact .inl rfl
    next =>
      refine .inr ⟨tokensBefore_of_absent fun other inside also => ?_, pre, member, index, ofMint, ?_⟩
      · rwa [List.inj_on_of_nodup_map wellFormed.preTokens inside member (also.trans index.symm)]
      · rw [mappedDelta, found]
        rfl

theorem mappedDelta_le (wellFormed : tx.WellFormed txMeta) (post : SolanaTokenBalance) :
    mappedDelta txMeta post ≤ post.amount - tokensBefore txMeta post.mint post.accountIndex := by
  rcases mappedDelta_cases wellFormed post with same | ⟨none_before, pre, member, -, -, same⟩
  · exact same.le
  · have unsigned := wellFormed.unsigned pre member
    rw [same, none_before]
    omega

theorem scale_of_exact {delta units : Int} {d fallbackDecimals : Nat} (rose : 0 < units) (most : delta ≤ units)
    (scaled : (delta : ℚ) / 10 ^ (if d = 0 then fallbackDecimals else d) * 10 ^ d = units) :
    (d ≠ 0 ∨ fallbackDecimals = 0) ∧ delta = units := by
  -- the reported amount of a rise is the rise only when both have one scale, or the fallback adds no digits
  by_cases unscaled : d = 0
  next =>
    subst unscaled
    rw [if_pos rfl, pow_zero, mul_one, div_eq_iff (by positivity)] at scaled
    have whole : delta = units * 10 ^ fallbackDecimals := by exact_mod_cast scaled
    have none_added : fallbackDecimals = 0 := by
      by_contra added
      have digits : (1 : Int) < 10 ^ fallbackDecimals := one_lt_pow₀ (by norm_num) added
      nlinarith
    rw [none_added, pow_zero, mul_one] at whole
    exact ⟨.inr none_added, whole⟩
  next =>
    rw [if_neg unscaled, div_mul_cancel₀ _ (by positivity)] at scaled
    exact ⟨.inl unscaled, by exact_mod_cast scaled⟩

theorem mappedDelta_of_convertible (wellFormed : tx.WellFormed txMeta)
    (convertible : Convertible tx txMeta watched mint fallbackDecimals) {post : SolanaTokenBalance}
    (member : post ∈ txMeta.postTokenBalances) (ofMint : post.mint = mint) {w : WatchedAddress} (inside : w ∈ watched)
    (listed : (combinedAccountKeys tx txMeta)[post.accountIndex]? = some w.address)
    (rose : tokensBefore txMeta mint post.accountIndex < post.amount) :
    mappedDelta txMeta post = post.amount - tokensBefore txMeta mint post.accountIndex ∧
      mappedDecimals fallbackDecimals post = post.decimals := by
  obtain ⟨scale, others⟩ := convertible post member ofMint ⟨w, inside, listed⟩ rose
  constructor
  next =>
    subst ofMint
    rcases mappedDelta_cases wellFormed post with same | ⟨none_before, pre, held, index, other, same⟩
    · exact same
    · rw [same, none_before, others pre held index other]
  next =>
    unfold mappedDecimals
    split
    next unscaled => exact (scale.resolve_left (not_not.mpr unscaled)).trans unscaled.symm
    next => rfl

theorem mapSplTokenTransactionToDeposits_exact_iff (known : tx.txMeta = some txMeta) (succeeded : txMeta.err = false)
    (wellFormed : tx.WellFormed txMeta) (distinct : (watched.map WatchedAddress.address).Nodup) :
    ExactlyReports signature watched (tokenRise tx txMeta mint)
        (mapSplTokenTransactionToDeposits signature tx watched currentSlot (some mint) fallbackDecimals) ↔
      Convertible tx txMeta watched mint fallbackDecimals := by
  have emits {raw : RawChainDeposit} :=
    @mem_mapSplTokenTransactionToDeposits tx txMeta watched signature currentSlot mint fallbackDecimals known succeeded
      distinct raw
  constructor
  next =>
    rintro exact post member ofMint ⟨w, inside, listed⟩ rose
    obtain ⟨raw, emitted, reports⟩ := exact.complete w inside post.accountIndex
      (post.amount - tokensBefore txMeta mint post.accountIndex) post.decimals
      ⟨listed, ⟨post, member, rfl, ofMint, rfl, rfl⟩, by omega⟩
    obtain ⟨post', member', -, w', -, -, positive, rfl⟩ := emits.mp emitted
    obtain rfl := List.inj_on_of_nodup_map wellFormed.postTokens member' member reports.eventIndex
    obtain ⟨amount, denotes, scaled⟩ := reports.amount
    rw [value?_rawUnitsToDecimalString] at denotes
    cases denotes
    have most := mappedDelta_le wellFormed post'
    rw [ofMint] at most
    obtain ⟨scale, exactly⟩ := scale_of_exact (by omega) most (by exact_mod_cast scaled)
    refine ⟨scale, fun pre held index other => ?_⟩
    -- the mapper subtracts this entry, whatever its mint
    have subtracted : mappedDelta txMeta post' = post'.amount - pre.amount := by
      rw [mappedDelta, ← index, preByIndex_of_mem wellFormed held]
      rfl
    have none_before : tokensBefore txMeta mint post'.accountIndex = 0 :=
      tokensBefore_of_absent fun another inside' also => by
        rwa [List.inj_on_of_nodup_map wellFormed.preTokens inside' held (also.trans index.symm)]
    omega
  next =>
    intro convertible
    constructor
    case distinct => exact distinct_mapSplTokenTransactionToDeposits known succeeded wellFormed distinct
    case complete =>
      rintro w inside i units d ⟨listed, ⟨post, member, rfl, ofMint, rfl, rfl⟩, rose⟩
      obtain ⟨delta, scale⟩ := mappedDelta_of_convertible wellFormed convertible member ofMint inside listed (by omega)
      refine ⟨_, emits.mpr ⟨post, member, ofMint, w, inside, listed, by omega, rfl⟩, rfl, rfl, rfl, ?_⟩
      rw [delta, scale]
      exact amount_exact _ _
    case sound =>
      intro raw emitted
      obtain ⟨post, member, ofMint, w, inside, listed, positive, rfl⟩ := emits.mp emitted
      have most := mappedDelta_le wellFormed post
      rw [ofMint] at most
      have rose : tokensBefore txMeta mint post.accountIndex < post.amount := by omega
      obtain ⟨delta, scale⟩ := mappedDelta_of_convertible wellFormed convertible member ofMint inside listed rose
      refine ⟨w, inside, _, post.decimals, ⟨listed, ⟨post, member, rfl, ofMint, rfl, rfl⟩, Int.sub_pos_of_lt rose⟩, rfl, rfl, rfl, ?_⟩
      rw [delta, scale]
      exact amount_exact _ _

/-- The native mapper is exact on every transaction, the token mapper on those whose rises are convertible. -/
theorem depositMapping_exact_iff (known : tx.txMeta = some txMeta) (succeeded : txMeta.err = false)
    (wellFormed : tx.WellFormed txMeta) (distinct : (watched.map WatchedAddress.address).Nodup) (decimals : Nat) :
    (∃ deposits, mapNativeSolTransactionToDeposits signature tx watched currentSlot decimals = .ok deposits ∧
        ExactlyReports signature watched (nativeRise tx txMeta decimals) deposits) ∧
      ExactlyReports signature watched (tokenRise tx txMeta mint)
        (mapSplTokenTransactionToDeposits signature tx watched currentSlot (some mint) fallbackDecimals) ↔
      Convertible tx txMeta watched mint fallbackDecimals := by
  rw [mapSplTokenTransactionToDeposits_exact_iff known succeeded wellFormed distinct]
  exact and_iff_right (mapNativeSolTransactionToDeposits_exact known succeeded wellFormed distinct decimals)

end Mapping

section Example

def fiveArrive (decimals : Nat) : SolanaTransactionMeta where
  -- five units of a token arrive on an account that held none
  err := false
  preBalances := [2000000]
  postBalances := [2000000]
  preTokenBalances := []
  postTokenBalances := [{ accountIndex := 0, mint := "mint", amount := 5, decimals }]
  loadedAddresses := none

def fiveTokens (decimals : Nat) : SolanaTransaction where
  slot := 100
  accountKeys := ["account"]
  txMeta := some (fiveArrive decimals)

def oneWatched : List WatchedAddress :=
  [{ walletAddressId := 1, address := "account", destinationTag := none }]

theorem oneWatched_distinct : (oneWatched.map WatchedAddress.address).Nodup :=
  List.nodup_singleton _

theorem fiveTokens_wellFormed (decimals : Nat) : (fiveTokens decimals).WellFormed (fiveArrive decimals) where
  keys := by simp [combinedAccountKeys, fiveTokens, fiveArrive]
  preBalances := rfl
  postBalances := rfl
  preTokens := List.nodup_nil
  postTokens := List.nodup_singleton _
  unsigned := by simp [fiveArrive]

/-- The payer's token goes to two of three watched accounts, the second of which is a loaded address. -/
def twoArrive : SolanaTransactionMeta where
  err := false
  preBalances := [2000000, 0, 0]
  postBalances := [1000000, 0, 0]
  preTokenBalances := [⟨0, "mint", 9, 6⟩, ⟨1, "mint", 1, 6⟩]
  postTokenBalances := [⟨0, "mint", 1, 6⟩, ⟨1, "mint", 4, 6⟩, ⟨2, "mint", 5, 6⟩]
  loadedAddresses := some (["bob"], [])

def twoTokens : SolanaTransaction where
  slot := 100
  accountKeys := ["payer", "alice"]
  txMeta := some twoArrive

def threeWatched : List WatchedAddress :=
  [⟨1, "alice", none⟩, ⟨2, "bob", none⟩, ⟨3, "carol", none⟩]

theorem threeWatched_distinct : (threeWatched.map WatchedAddress.address).Nodup := by
  decide

theorem twoTokens_wellFormed : twoTokens.WellFormed twoArrive where
  keys := by decide
  preBalances := rfl
  postBalances := rfl
  preTokens := by decide
  postTokens := by decide
  unsigned := by decide

theorem sixDecimals_exact :
    (mapSplTokenTransactionToDeposits "signature" twoTokens threeWatched 132 (some "mint") 9).map
        RawChainDeposit.walletAddressId = [1, 2] ∧
      ExactlyReports "signature" threeWatched (tokenRise twoTokens twoArrive "mint")
        (mapSplTokenTransactionToDeposits "signature" twoTokens threeWatched 132 (some "mint") 9) := by
  refine ⟨by decide +kernel, ((depositMapping_exact_iff rfl rfl twoTokens_wellFormed threeWatched_distinct 9).mpr ?_).2⟩
  intro post member ofMint watches rose
  have reported : ∀ post ∈ twoArrive.postTokenBalances, post.decimals ≠ 0 := by decide
  have held : ∀ pre ∈ twoArrive.preTokenBalances, pre.mint = "mint" := by decide
  exact ⟨.inl (reported post member), fun pre before _ other => absurd (held pre before) other⟩

/-- A token without decimals is scaled by those of its network. -/
theorem noDecimals_scaled :
    (fiveTokens 0).WellFormed (fiveArrive 0) ∧ (oneWatched.map WatchedAddress.address).Nodup ∧
      ¬ ExactlyReports "signature" oneWatched (tokenRise (fiveTokens 0) (fiveArrive 0) "mint")
        (mapSplTokenTransactionToDeposits "signature" (fiveTokens 0) oneWatched 132 (some "mint") 6) := by
  refine ⟨fiveTokens_wellFormed 0, oneWatched_distinct, fun exact => ?_⟩
  have convertible :=
    (mapSplTokenTransactionToDeposits_exact_iff rfl rfl (fiveTokens_wellFormed 0) oneWatched_distinct).mp exact
  have scale := (convertible _ (List.mem_singleton.mpr rfl) rfl ⟨_, List.mem_singleton.mpr rfl, rfl⟩ (by decide)).1
  revert scale
  decide

end Example

end VerdictVaut
