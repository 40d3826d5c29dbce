import VerdictVaut.Shared.Decimals
import VerdictVaut.System.EvmWithdrawals
import VerdictVaut.Wallet.DestinationAddress

set_option autoImplicit false

-- when the watcher accepts an honest payment of a withdrawal
namespace VerdictVaut.Rounded

open CodePoints Decimals WithdrawalsService DestinationAddress Base58

section Payouts

variable (m : CaseMapping) (sha256 : List UInt8 → Digest) (network : AssetNetworkContext) (w : Withdrawal)

def paidTo (address : String) (tx : BitcoinCustodyProvider.Transaction) : List ℚ :=
  -- what the outputs of a transaction pay to an address
  (tx.vout.filter fun output => decide (output.scriptpubkeyAddress = some address)).map
    fun output => unitsToDecimal output.value network.assetDecimals

/-- The chain holds a successful transaction that pays the net amount to the recorded address and tag; what the provider
reports of it, and the amounts that it pays. -/
inductive HonestPayout : NetworkFamily → ChainTransactionStatus → List ℚ → Prop
  | bitcoin {tx : BitcoinCustodyProvider.Transaction} {replies : BitcoinCustodyProvider.Replies} {address : String}
      (found : replies.tx = some tx) (canonical : Canonical m sha256 .bitcoin (ofString w.destinationAddress) (ofString address))
      (pays : paidTo network address tx ≠ []) (net : (paidTo network address tx).sum = w.amount - w.fee)
      (others : ∀ output ∈ tx.vout, ∀ other, output.scriptpubkeyAddress = some other → isBech32 other = true →
        m.toLowerCase (ofString other) = ofString other) :
      HonestPayout .bitcoin (BitcoinCustodyProvider.getTransactionStatus network replies) (paidTo network address tx)
  | evm {tx : EvmCustodyProvider.Transaction} {replies : EvmCustodyProvider.Replies} {receipt : EvmCustodyProvider.Receipt}
      {status : ChainTransactionStatus} {blockNumber : Int} {address : String} (native : network.isNative = true)
      (found : replies.transaction = some tx) (mined : tx.blockNumber = some blockNumber)
      (received : replies.receipt = some receipt) (succeeded : receipt.status = "0x1") (recipient : tx.recipient = some address)
      (canonical : Canonical m sha256 .evm (ofString w.destinationAddress) (ofString address))
      (net : unitsToDecimal tx.value network.assetDecimals = w.amount - w.fee)
      (reported : EvmCustodyProvider.getTransactionStatus network replies = .ok status) :
      HonestPayout .evm status [w.amount - w.fee]
  | xrpl {tx : XrpCustodyProvider.Transaction} {replies : XrpCustodyProvider.Replies} {status : ChainTransactionStatus}
      {drops : Int} (found : replies.tx = .ok tx) (validated : tx.validated = true) (succeeded : tx.transactionResult = "tesSUCCESS")
      (canonical : Canonical m sha256 .xrpl (ofString w.destinationAddress) (ofString tx.destination))
      (tagged : tx.destinationTag = w.destinationTag.map fun tag => Nat.ofDigitChars 10 tag.toList 0)
      (delivered : tx.deliveredAmount.getD tx.amount = some drops)
      (net : unitsToDecimal drops network.assetDecimals = w.amount - w.fee)
      (reported : XrpCustodyProvider.getTransactionStatus network replies = .ok status) :
      HonestPayout .xrpl status [w.amount - w.fee]

/-- The tag starts with a zero only where it is `0`. -/
def TagCanonical : NetworkFamily → Prop
  | .xrpl => ∀ tag, w.destinationTag = some tag → tag.toList.head? = some '0' → tag = "0"
  | _ => True

/-- What is paid, added up with 20 digits, and the net amount with 20 digits are within the tolerance of each other. -/
def AmountFits : NetworkFamily → List ℚ → Prop
  | .bitcoin, amounts => |Decimal.minus (sumAmounts amounts) (Decimal.minus w.amount w.fee)| ≤ withdrawalReconcileAmountTolerance
  | _, _ => |(w.amount - w.fee) - toSignificant Decimal.PRECISION (w.amount - w.fee)| ≤ withdrawalReconcileAmountTolerance

end Payouts

section Amounts

variable {w : Withdrawal} {x : ℚ}

theorem within_iff (places : Places Decimal.SCALE x) :
    |toSignificant Decimal.PRECISION x| ≤ withdrawalReconcileAmountTolerance ↔ |x| ≤ withdrawalReconcileAmountTolerance := by
  -- a difference of at least two units of the column stays above one when it is rounded
  by_cases few : |x| * 10 ^ Decimal.SCALE ≤ 10 ^ Decimal.PRECISION
  · rw [toSignificant_eq_self_iff.mpr (places.significant (by decide) few)]
  · -- a value with more digits is at least 1, and so is what it is rounded to
    have large : (10 : ℚ) ^ (0 : ℤ) ≤ |x| := by
      simp only [Decimal.SCALE, Decimal.PRECISION, not_le] at few
      norm_num at few ⊢
      linarith
    have rounded : (1 : ℚ) ≤ |toSignificant Decimal.PRECISION x| := by
      have least : (10 : ℚ) ^ (0 : ℤ) ≤ toSignificant Decimal.PRECISION |x| := pow_le_toSignificant (by decide) large
      rw [zpow_zero] at least
      rcases le_total 0 x with nonneg | nonpos
      · rw [abs_of_nonneg nonneg] at least
        exact least.trans (le_abs_self _)
      · rw [abs_of_nonpos nonpos, toSignificant_neg] at least
        exact least.trans (neg_le_abs _)
    rw [zpow_zero] at large
    unfold withdrawalReconcileAmountTolerance
    constructor
    · intro below
      norm_num at below
      linarith
    · intro below
      norm_num at below
      linarith

end Amounts

section Creditable

variable {m : CaseMapping} {sha256 : List UInt8 → Digest} {network : AssetNetworkContext} {w : Withdrawal} {config : WalletConfig}
  {family : NetworkFamily} {status : ChainTransactionStatus} {amounts : List ℚ}

theorem getTransactionStatus_outputs {tx : BitcoinCustodyProvider.Transaction} {replies : BitcoinCustodyProvider.Replies}
    (found : replies.tx = some tx) :
    (BitcoinCustodyProvider.getTransactionStatus network replies).destinationAddress = none ∧
      (BitcoinCustodyProvider.getTransactionStatus network replies).destinationTag = none ∧
        (BitcoinCustodyProvider.getTransactionStatus network replies).outputs =
          some (BitcoinCustodyProvider.outputs network tx) := by
  unfold BitcoinCustodyProvider.getTransactionStatus
  cases confirmed : tx.confirmed <;> simp [found, confirmed]

theorem getTransactionStatus_delivered {tx : XrpCustodyProvider.Transaction} {replies : XrpCustodyProvider.Replies} {drops : Int}
    (found : replies.tx = .ok tx) (validated : tx.validated = true) (succeeded : tx.transactionResult = "tesSUCCESS")
    (delivered : tx.deliveredAmount.getD tx.amount = some drops)
    (reported : XrpCustodyProvider.getTransactionStatus network replies = .ok status) :
    status.destinationAddress = some tx.destination ∧ status.outputs = none ∧
      status.destinationTag = some (tx.destinationTag.map fun tag => Nat.repr tag) ∧
        status.amount = unitsToDecimal drops network.assetDecimals := by
  simp only [XrpCustodyProvider.getTransactionStatus, found, validated, succeeded, delivered, Option.map_some,
    Option.getD_some, Bool.not_true, Bool.false_eq_true, if_false, ne_eq, not_true_eq_false] at reported
  cases reported
  exact ⟨rfl, rfl, rfl, rfl⟩

theorem findChainMismatch_single {address : String} (reported : status.destinationAddress = some address)
    (matched : destinationsMatch config address w.destinationAddress = true) (outputs : status.outputs = none) :
    findChainMismatch config w status.toObservedChainTransaction = none ↔
      (∀ tag, status.destinationTag = some tag → w.destinationTag = tag) ∧
        |Decimal.minus status.amount (Decimal.minus w.amount w.fee)| ≤ withdrawalReconcileAmountTolerance := by
  unfold findChainMismatch
  simp only [reported, Option.any_some, matched, Bool.not_true, Bool.and_false, Bool.false_eq_true, if_false, observedAmount,
    outputs]
  cases tags : status.destinationTag with
  | none => simp
  | some tag => by_cases same : w.destinationTag = tag <;> simp [same]

theorem findChainMismatch_outputs {outputs : List ChainTransactionOutput} (reported : status.destinationAddress = none)
    (tagless : status.destinationTag = none) (outputs_ : status.outputs = some outputs) {paid : List ChainTransactionOutput}
    (paid_ : outputs.filter (fun output => destinationsMatch config output.address w.destinationAddress) = paid) (pays : paid ≠ []) :
    findChainMismatch config w status.toObservedChainTransaction = none ↔
      |Decimal.minus (sumAmounts (paid.map ChainTransactionOutput.amount)) (Decimal.minus w.amount w.fee)| ≤
        withdrawalReconcileAmountTolerance := by
  unfold findChainMismatch
  simp [reported, tagless, observedAmount, outputs_, paid_, pays]

theorem net_within_iff (amount : Places Decimal.SCALE w.amount) (fee : Places Decimal.SCALE w.fee) :
    |Decimal.minus (w.amount - w.fee) (Decimal.minus w.amount w.fee)| ≤ withdrawalReconcileAmountTolerance ↔
      |(w.amount - w.fee) - toSignificant Decimal.PRECISION (w.amount - w.fee)| ≤ withdrawalReconcileAmountTolerance := by
  have net : Places Decimal.SCALE (w.amount - w.fee) := amount.sub fee
  exact within_iff (net.sub (net.toSignificant _))

theorem matching_outputs {tx : BitcoinCustodyProvider.Transaction} {address : String} (given : address ≠ "")
    (matched : destinationsMatch config address w.destinationAddress = true)
    (others : ∀ output ∈ tx.vout, ∀ other, output.scriptpubkeyAddress = some other → other ≠ address →
      destinationsMatch config other w.destinationAddress = false) :
    ((BitcoinCustodyProvider.outputs network tx).filter
      fun output => destinationsMatch config output.address w.destinationAddress).map ChainTransactionOutput.amount =
        paidTo network address tx := by
  unfold BitcoinCustodyProvider.outputs paidTo
  generalize tx.vout = vout at others
  induction vout with
  | nil => rfl
  | cons output rest ih =>
    have later := ih fun output member => others output (List.mem_cons_of_mem _ member)
    have here := others output List.mem_cons_self
    cases reported : output.scriptpubkeyAddress with
    | none =>
      rw [List.filterMap_cons, List.filter_cons_of_neg (by simp [reported])]
      simpa [reported] using later
    | some other =>
      by_cases empty : other = ""
      · subst empty
        rw [List.filterMap_cons, List.filter_cons_of_neg (by simpa [reported] using Ne.symm given)]
        simpa [reported] using later
      · rw [List.filterMap_cons]
        simp only [reported, Option.bind_eq_bind, Option.bind_some, empty, if_false, pure]
        by_cases same : other = address
        · subst same
          simp only [List.filter_cons, matched, reported, decide_true, if_true, List.map_cons]
          exact congrArg _ later
        · have apart : some other ≠ some address := mt Option.some.inj same
          simp only [List.filter_cons, here other reported same, reported, apart, decide_false, Bool.false_eq_true, if_false]
          exact later

theorem canonical_given {address : String} (standard : ∀ s, ofString (config.toLowerCase s) = m.toLowerCase (ofString s))
    (canonical : Canonical m sha256 .bitcoin (ofString w.destinationAddress) (ofString address)) :
    address ≠ "" := by
  rintro rfl
  generalize recorded_ : ofString w.destinationAddress = text, reported_ : ofString "" = reported at canonical
  cases canonical with
  | legacy starts decoded =>
    rw [encode_checked decoded] at reported_
    rw [← reported_] at starts
    exact absurd starts (by decide)
  | segwit starts decoded =>
    rw [← recorded_] at decoded
    obtain ⟨-, starts', -⟩ := canonical_segwit standard decoded reported_.symm
    exact absurd starts' (by decide)

theorem tag_iff {tag : String} (valid : assertValidDestinationTag .xrpl tag = .ok ()) :
    tag = Nat.repr (Nat.ofDigitChars 10 tag.toList 0) ↔ (tag.toList.head? = some '0' → tag = "0") := by
  unfold assertValidDestinationTag at valid
  simp only [ne_eq, not_true_eq_false, if_false] at valid
  split at valid
  next accepted =>
    obtain ⟨⟨given, -, digit⟩, -⟩ := accepted
    have digits := toDigits_ofDigitChars (List.all_eq_true.mp digit) given
    rw [← String.toList_inj, Nat.toList_repr, eq_comm, digits, ← String.toList_inj]
    rfl
  next => cases valid

/-- The watcher accepts an honest payment exactly if the tag is written as the chain reports it and the net amount is not
rounded by more than the tolerance. -/
theorem honestPayout_creditable_iff (config : WalletConfig) (m : CaseMapping) (sha256 : List UInt8 → Digest)
    (standard : ∀ s, ofString (config.toLowerCase s) = m.toLowerCase (ofString s)) (network : AssetNetworkContext) (w : Withdrawal)
    (family : NetworkFamily) (status : ChainTransactionStatus) (amounts : List ℚ)
    (valid : assertValidDestinationAddress m sha256 family (ofString w.destinationAddress) = .ok ())
    (validTag : ∀ tag, w.destinationTag = some tag → assertValidDestinationTag family tag = .ok ())
    (amount : Places Decimal.SCALE w.amount) (fee : Places Decimal.SCALE w.fee)
    (payout : HonestPayout m sha256 network w family status amounts) :
    findChainMismatch config w status.toObservedChainTransaction = none ↔ TagCanonical w family ∧ AmountFits w family amounts := by
  cases payout with
  | @bitcoin tx replies address found canonical pays net others =>
    have matched := canonical_matches standard valid canonical
    have paid : _ = paidTo network address tx := matching_outputs (canonical_given standard canonical) matched
      fun output member other spelled different =>
        other_unmatched standard canonical (others output member other spelled) different
    obtain ⟨address_, tag_, outputs_⟩ := @getTransactionStatus_outputs network _ _ found
    rw [findChainMismatch_outputs address_ tag_ outputs_ rfl, paid]
    · exact (and_iff_right trivial).symm
    · intro none_
      rw [none_] at paid
      exact pays paid.symm
  | @evm tx replies receipt status blockNumber address native found mined received succeeded recipient canonical net reported =>
    have matched := canonical_matches standard valid canonical
    have succeeded_ : ∀ other, replies.receipt = some other → other.status = "0x1" := by
      intro other received'
      rw [received] at received'
      cases received'
      exact succeeded
    rw [getTransactionStatus_mined found mined succeeded_ (.native native), net, recipient] at reported
    cases reported
    rw [findChainMismatch_single rfl matched rfl, and_iff_right]
    · exact (net_within_iff amount fee).trans (and_iff_right trivial).symm
    · intro tag none_
      cases none_
  | @xrpl tx replies status drops found validated succeeded canonical tagged delivered net reported =>
    have matched := canonical_matches standard valid canonical
    obtain ⟨address_, outputs_, tag_, amount_⟩ := getTransactionStatus_delivered found validated succeeded delivered reported
    rw [findChainMismatch_single address_ matched outputs_, tag_, amount_, net]
    refine and_congr ?_ (net_within_iff amount fee)
    have tags : (∀ tag, some (tx.destinationTag.map fun tag => Nat.repr tag) = some tag → w.destinationTag = tag) ↔
        ∀ tag, w.destinationTag = some tag → tag = Nat.repr (Nat.ofDigitChars 10 tag.toList 0) := by
      rw [tagged]
      cases recorded : w.destinationTag with
      | none => simp
      | some tag => simp
    rw [tags]
    exact forall₂_congr fun tag recorded => tag_iff (validTag tag recorded)

end Creditable

section Sample

/-- What SHA-256 gives for the 21 zero bytes of `ACCOUNT_ZERO`, and for that in turn. -/
def accountZeroSha256 (bytes : List UInt8) : Digest :=
  let hash1 : Digest := #v[201, 2, 50, 88, 107, 128, 31, 149, 88, 167, 111, 47, 150, 62, 204, 216, 49, 217, 254, 103, 117,
    228, 200, 241, 68, 107, 35, 49, 170, 33, 50, 242]
  if bytes = List.replicate 21 0 then hash1
  else if bytes = hash1.toList then #v[148, 160, 9, 17, 196, 218, 39, 249, 39, 23, 39, 255, 167, 161, 77, 141, 85, 136, 252, 15,
    255, 153, 100, 52, 14, 196, 6, 95, 56, 126, 98, 43]
  else Vector.replicate 32 0

def basicConfig : WalletConfig :=
  { WalletConfig.sample with
    toLowerCase := fun s => String.ofList (s.toList.map fun c => if c.toNat = kelvin then 'k' else c.toLower) }

theorem basicConfig_standard (s : String) : ofString (basicConfig.toLowerCase s) = Bech32.basicCases.toLowerCase (ofString s) := by
  suffices from_ : ∀ before : Text, Bech32.basicCases.lowerAfter before (ofString s) =
      s.toList.map fun c => if c.toNat = kelvin then 0x6b else asciiLower c.toNat by
    rw [CaseMapping.toLowerCase, from_, ofString, basicConfig, String.toList_ofList, List.map_map]
    refine List.map_congr_left fun c _ => ?_
    by_cases sign : c.toNat = kelvin <;> simp [sign, toLower_toNat]
  unfold ofString
  induction s.toList with
  | nil => exact fun _ => rfl
  | cons c rest ih =>
    intro before
    rw [List.map_cons, CaseMapping.lowerAfter, ih, List.map_cons]
    by_cases sign : c.toNat = kelvin <;> simp [Bech32.basicCases, sign]

def xrpNetwork : AssetNetworkContext where
  assetDecimals := 6
  contractAddress := none
  isNative := true

def taggedWithdrawal (tag : String) : Withdrawal where
  userId := 1
  assetNetworkId := 0
  destinationAddress := "rrrrrrrrrrrrrrrrrrrrrhoLvTp"
  destinationTag := some tag
  amount := 3
  fee := 1
  status := .broadcast
  clientWithdrawalId := "client"
  txHash := some "AB"
  custodyReference := none
  broadcastByAdminId := none
  broadcastAt := some 0
  confirmedAt := none
  failureReason := none
  complianceDecision := .pass
  complianceNote := none
  createdAt := 0

def taggedTransaction : XrpCustodyProvider.Transaction where
  destination := "rrrrrrrrrrrrrrrrrrrrrhoLvTp"
  amount := some 2000000
  deliveredAmount := none
  destinationTag := some 7
  transactionResult := "tesSUCCESS"
  validated := true
  ledgerIndex := 100

def taggedPayment : ChainTransactionStatus where
  status := .confirmed
  confirmations := 6
  amount := unitsToDecimal 2000000 6
  destinationAddress := some "rrrrrrrrrrrrrrrrrrrrrhoLvTp"
  outputs := none
  destinationTag := some (some "7")

theorem taggedPayment_honest {tag : String} (seven : Nat.ofDigitChars 10 tag.toList 0 = 7) :
    HonestPayout Bech32.basicCases accountZeroSha256 xrpNetwork (taggedWithdrawal tag) .xrpl taggedPayment [3 - 1] := by
  have decoded : decodeBase58Check accountZeroSha256 (ofString "rrrrrrrrrrrrrrrrrrrrrhoLvTp") .xrpl =
      some (List.replicate 21 0) := by
    decide +kernel
  have canonical := Canonical.xrpl (m := Bech32.basicCases) decoded
  rw [encode_checked decoded] at canonical
  refine @HonestPayout.xrpl _ _ _ _ taggedTransaction ⟨.ok taggedTransaction, some 105⟩ _ 2000000 rfl rfl rfl canonical ?_ rfl ?_ ?_
  · change some 7 = some (Nat.ofDigitChars 10 tag.toList 0)
    rw [seven]
  · change unitsToDecimal 2000000 6 = 3 - 1
    norm_num [unitsToDecimal]
  · decide +kernel

/-- The tag `007` is accepted, and the payment that carries it is taken for one to another tag. -/
theorem zeroTag_mismatched : assertValidDestinationTag .xrpl "007" = .ok () ∧
    assertValidDestinationAddress Bech32.basicCases accountZeroSha256 .xrpl (ofString "rrrrrrrrrrrrrrrrrrrrrhoLvTp") = .ok () ∧
    HonestPayout Bech32.basicCases accountZeroSha256 xrpNetwork (taggedWithdrawal "007") .xrpl taggedPayment [3 - 1] ∧
    findChainMismatch basicConfig (taggedWithdrawal "007") taggedPayment.toObservedChainTransaction = some .destinationTag :=
  ⟨by decide +kernel, by decide +kernel, taggedPayment_honest (by decide +kernel), by decide +kernel⟩

/-- A fee of 18 digits can move the net amount by more than the tolerance. -/
example : ¬ AmountFits { taggedWithdrawal "7" with amount := 12345, fee := 123456789012345678 / 10 ^ 18 } .evm [] := by
  change ¬ |((12345 : ℚ) - 123456789012345678 / 10 ^ 18) -
    toSignificant Decimal.PRECISION (12345 - 123456789012345678 / 10 ^ 18)| ≤ withdrawalReconcileAmountTolerance
  decide +kernel

theorem sevenTag_creditable :
    findChainMismatch basicConfig (taggedWithdrawal "7") taggedPayment.toObservedChainTransaction = none := by
  apply (honestPayout_creditable_iff basicConfig Bech32.basicCases accountZeroSha256 basicConfig_standard xrpNetwork
    (taggedWithdrawal "7") .xrpl taggedPayment [3 - 1] (by decide +kernel) ?_ ⟨3 * 10 ^ 18, ?_⟩ ⟨10 ^ 18, ?_⟩
    (taggedPayment_honest (by decide +kernel))).mpr
  · refine ⟨?_, ?_⟩
    · intro tag recorded zero
      cases recorded
      exact absurd zero (by decide)
    · change |((3 : ℚ) - 1) - toSignificant Decimal.PRECISION (3 - 1)| ≤ withdrawalReconcileAmountTolerance
      decide +kernel
  · intro tag recorded
    cases recorded
    decide +kernel
  · norm_num [taggedWithdrawal, Decimal.SCALE]
  · norm_num [taggedWithdrawal, Decimal.SCALE]

end Sample

end VerdictVaut.Rounded
