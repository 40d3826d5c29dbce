import VerdictVaut.Wallet.Base58
import VerdictVaut.Wallet.Bech32
import VerdictVaut.Wallet.Withdrawals

set_option autoImplicit false

-- `destination-address.validator.ts`, and how the accepted addresses compare with what a chain reports
namespace VerdictVaut.DestinationAddress

open CodePoints CaseMapping Base58 Bech32 WithdrawalsService

section Validators

variable (m : CaseMapping) (sha256 : List UInt8 → Digest)

def looksInvalid (family : NetworkFamily) : Fault :=
  .badRequest ("Destination address does not look like a valid " ++ NetworkFamily.text family ++ " address")

/-- `/^(1|3)/` -/
def startsLegacy (address : Text) : Bool :=
  [some 0x31, some 0x33].contains address.head?

/-- `/^(bc1|tb1)/i` -/
def startsSegwit (address : Text) : Bool :=
  [ofString "bc1", ofString "tb1"].contains ((address.take 3).map asciiLower)

def assertValidBitcoinAddress (address : Text) : Except Fault Unit :=
  if startsLegacy address then
    let payload := decodeBase58Check sha256 address .bitcoin
    if payload.any fun payload => decide (payload.length = 21) then .ok () else .error (looksInvalid .bitcoin)
  else if startsSegwit address then
    -- the two code units that the pattern has matched
    let hrp := m.toLowerCase (address.take 2)
    if (decodeSegwitAddress m address hrp).isSome then .ok () else .error (looksInvalid .bitcoin)
  else .error (looksInvalid .bitcoin)

def assertValidSolanaAddress (address : Text) : Except Fault Unit :=
  let decoded := decodeBase58 address .bitcoin
  if decoded.any fun decoded => decide (decoded.length = 32) then .ok () else .error (looksInvalid .solana)

def assertValidXrplAddress (address : Text) : Except Fault Unit :=
  if address.head? ≠ some 0x72 then .error (looksInvalid .xrpl)
  else
    let payload := decodeBase58Check sha256 address .xrpl
    if payload.any fun payload => decide (payload.length = 21) && decide (payload.head? = some 0x00) then .ok ()
    else .error (looksInvalid .xrpl)

def isHexDigit (char : ℕ) : Bool :=
  (decide (0x61 ≤ char) && decide (char ≤ 0x66)) || (decide (0x41 ≤ char) && decide (char ≤ 0x46)) ||
    (decide (0x30 ≤ char) && decide (char ≤ 0x39))

/-- `/^0x[a-fA-F0-9]{40}$/` -/
def EVM_PATTERN (address : Text) : Bool :=
  decide (address.take 2 = ofString "0x") && decide ((address.drop 2).length = 40) && (address.drop 2).all isHexDigit

def assertValidEvmAddress (address : Text) : Except Fault Unit :=
  if EVM_PATTERN address then .ok () else .error (looksInvalid .evm)

def XRPL_MAX_DESTINATION_TAG : ℕ := 4294967295

def assertValidDestinationTag (family : NetworkFamily) (tag : String) : Except Fault Unit :=
  if family ≠ .xrpl then .ok ()
  else if (tag.toList ≠ [] ∧ tag.toList.length ≤ 10 ∧ tag.toList.all Char.isDigit) ∧
      Nat.ofDigitChars 10 tag.toList 0 ≤ XRPL_MAX_DESTINATION_TAG then .ok ()
  else .error (.badRequest "XRPL destination tag must be a whole number between 0 and 4294967295")

def assertValidDestinationAddress (family : NetworkFamily) (address : Text) : Except Fault Unit :=
  if address = [] then .error (looksInvalid family)
  else
    match family with
    | .bitcoin => assertValidBitcoinAddress m sha256 address
    | .evm => assertValidEvmAddress address
    | .solana => assertValidSolanaAddress address
    | .xrpl => assertValidXrplAddress sha256 address

inductive Canonical : NetworkFamily → Text → Text → Prop
  -- the spelling in which a chain reports the address that a text stands for
  | legacy {address : Text} {payload : List UInt8} (starts : startsLegacy address = true)
      (decoded : decodeBase58Check sha256 address .bitcoin = some payload) :
      Canonical .bitcoin address (encodeBase58 (payload ++ checksum sha256 payload) .bitcoin)
  | segwit {address : Text} {hrp : Hrp} {d : DecodedSegwitAddress} (starts : startsSegwit address = true)
      (decoded : decodeSegwitAddress m address hrp.text = some d) :
      Canonical .bitcoin address (Bip173.encode d.hrp d.witnessVersion d.program)
  | evm {address : Text} : Canonical .evm address (address.map asciiLower)
  | xrpl {address : Text} {payload : List UInt8} (decoded : decodeBase58Check sha256 address .xrpl = some payload) :
      Canonical .xrpl address (encodeBase58 (payload ++ checksum sha256 payload) .xrpl)

end Validators

section Spelling

variable {m : CaseMapping} {sha256 : List UInt8 → Digest} {address canonical : Text} {family : NetworkFamily}

theorem toLowerCase_small {t : Text} (small : ∀ char ∈ t, Small char) : m.toLowerCase t = t := by
  have plain : Plain t := fun char member => .inl (small char member).1
  rw [m.toLowerCase_plain plain]
  refine (List.map_congr_left fun char member => ?_).trans (List.map_id _)
  have other : char ≠ kelvin := by
    have ascii := (small char member).1
    unfold kelvin
    omega
  rw [lowerPlain, if_neg other, (small char member).lower]
  rfl

theorem toLowerCase_ascii {t : Text} (ascii : ∀ char ∈ t, char < 0x80) : m.toLowerCase t = t.map asciiLower := by
  rw [m.toLowerCase_plain fun char member => .inl (ascii char member)]
  refine List.map_congr_left fun char member => ?_
  have other : char ≠ kelvin := by
    have small := ascii char member
    unfold kelvin
    omega
  exact if_neg other

theorem pattern_ascii (matches_ : EVM_PATTERN address = true) : ∀ char ∈ address, char < 0x80 := by
  simp only [EVM_PATTERN, Bool.and_eq_true, decide_eq_true_eq, List.all_eq_true] at matches_
  obtain ⟨⟨mark, -⟩, hex⟩ := matches_
  intro char member
  rw [← List.take_append_drop 2 address, mark] at member
  rcases List.mem_append.mp member with first | digit
  · have all : ∀ char ∈ ofString "0x", char < 0x80 := by decide
    exact all char first
  · have inside := hex char digit
    simp only [isHexDigit, Bool.or_eq_true, Bool.and_eq_true, decide_eq_true_eq] at inside
    omega

theorem asciiLower_lower (char : ℕ) : asciiLower (asciiLower char) = asciiLower char := by
  unfold asciiLower
  repeat' split
  all_goals omega

theorem asciiLower_ascii {char : ℕ} (ascii : char < 0x80) : asciiLower char < 0x80 := by
  unfold asciiLower
  split <;> omega

theorem decoded_small {hrp : Hrp} {d : DecodedSegwitAddress} (decoded : decodeSegwitAddress m address hrp.text = some d) :
    ∀ char ∈ m.toLowerCase address, Small char := by
  obtain ⟨-, -, words, checksum, pad, lower, segwit⟩ := (decodeSegwitAddress_parts m hrp address).mp decoded
  rw [lower]
  exact text_small hrp (segwit_valid segwit)

theorem decodeBase58Check_ne_nil {alphabet : Base58Alphabet} {payload : List UInt8}
    (decoded : decodeBase58Check sha256 address alphabet = some payload) : payload ≠ [] := by
  unfold decodeBase58Check at decoded
  cases bytes : decodeBase58 address alphabet with
  | none => simp [bytes] at decoded
  | some bytes_ =>
    simp only [bytes, Option.bind_eq_bind, Option.bind_some] at decoded
    split at decoded
    next => cases decoded
    next long =>
      split at decoded
      next =>
        cases decoded
        rw [Ne, List.take_eq_nil_iff]
        rintro (zero | empty)
        · omega
        · simp [empty] at long
      next => cases decoded

theorem encode_checked {alphabet : Base58Alphabet} {payload : List UInt8}
    (decoded : decodeBase58Check sha256 address alphabet = some payload) :
    encodeBase58 (payload ++ checksum sha256 payload) alphabet = address :=
  (encode_decode ((decodeBase58Check_eq_some (decodeBase58Check_ne_nil decoded)).mp decoded)).symm

end Spelling

section Matching

variable {m : CaseMapping} {sha256 : List UInt8 → Digest} {config : WalletConfig} {observed recorded s t : String}
  {family : NetworkFamily}

theorem toNat_injective : Function.Injective Char.toNat := fun _ _ => Char.toNat_inj.mp

theorem ofString_injective (same : ofString s = ofString t) : s = t := by
  apply String.toList_injective
  exact List.map_injective_iff.mpr toNat_injective same

theorem toLower_toNat (c : Char) : c.toLower.toNat = asciiLower c.toNat := by
  unfold Char.toLower asciiLower
  have value : c.toNat = c.val.toNat := rfl
  split
  next upper =>
    have inside : 65 ≤ c.val.toNat ∧ c.val.toNat ≤ 90 := ⟨UInt32.le_iff_toNat_le.mp upper.1, UInt32.le_iff_toNat_le.mp upper.2⟩
    rw [if_pos (by omega)]
    change (c.val + 32).toNat = _
    rw [UInt32.toNat_add]
    change (c.val.toNat + 32) % 2 ^ 32 = _
    omega
  next other =>
    rw [if_neg]
    rintro ⟨low, high⟩
    exact other ⟨UInt32.le_iff_toNat_le.mpr low, UInt32.le_iff_toNat_le.mpr high⟩

theorem isBech32_iff : isBech32 s = true ↔
    ∃ hrp ∈ ["bc1", "tb1", "bcrt1"], ((ofString s).take hrp.toList.length).map asciiLower = ofString hrp := by
  have chars : ∀ hrp : String, (s.toList.take hrp.length).map Char.toLower = hrp.toList ↔
      ((ofString s).take hrp.toList.length).map asciiLower = ofString hrp := by
    intro hrp
    rw [← (List.map_injective_iff.mpr toNat_injective).eq_iff, String.length_toList]
    simp [ofString, List.map_take, toLower_toNat, Function.comp_def]
  simp only [isBech32, List.any_eq_true, decide_eq_true_eq, chars]

theorem destinationsMatch_self : destinationsMatch config s s = true := by
  simp [destinationsMatch]

def Caseless (s t : String) : Prop :=
  (['0', 'x'] <+: s.toList ∧ ['0', 'x'] <+: t.toList) ∨ (isBech32 s = true ∧ isBech32 t = true)

theorem destinationsMatch_iff : destinationsMatch config observed recorded = true ↔
    (Caseless observed recorded ∧ config.toLowerCase observed = config.toLowerCase recorded) ∨ observed = recorded := by
  unfold destinationsMatch
  by_cases caseless : Caseless observed recorded
  · have either : ((observed.startsWith "0x" && recorded.startsWith "0x") || (isBech32 observed && isBech32 recorded)) = true := by
      simpa [Caseless] using caseless
    rw [if_pos either, decide_eq_true_eq]
    constructor
    · exact fun same => .inl ⟨caseless, same⟩
    · rintro (⟨-, same⟩ | rfl)
      · exact same
      · rfl
  · have neither : ¬ ((observed.startsWith "0x" && recorded.startsWith "0x") || (isBech32 observed && isBech32 recorded)) = true := by
      simpa [Caseless] using caseless
    rw [if_neg neither, decide_eq_true_eq]
    constructor
    · exact .inr
    · rintro (⟨yes, -⟩ | same)
      · exact absurd yes caseless
      · exact same

theorem prefix_iff : ['0', 'x'] <+: s.toList ↔ (ofString s).take 2 = ofString "0x" := by
  rw [List.prefix_iff_eq_take, ← (List.map_injective_iff.mpr toNat_injective).eq_iff, List.map_take]
  exact eq_comm

theorem head_of_start {text : Text} {n : ℕ} (same : (text.take n).map asciiLower = ofString s) (some_ : s ≠ "") :
    text.head?.map asciiLower = (ofString s).head? := by
  -- the first character of a text, in lower case, from the prefix that it matches
  cases text with
  | nil =>
    rw [← same, List.take_nil]
    rfl
  | cons char rest =>
    cases n with
    | zero =>
      refine absurd (ofString_injective (t := "") ?_) some_
      rw [← same]
      rfl
    | succ n =>
      rw [← same]
      rfl

theorem head_of_hexMark {text : Text} (same : text.take 2 = ofString "0x") : text.head? = some 0x30 := by
  cases text with
  | nil => exact absurd same (by decide)
  | cons char rest => exact congrArg List.head? same

theorem legacy_plain (starts : startsLegacy (ofString s) = true) : isBech32 s = false ∧ ¬ ['0', 'x'] <+: s.toList := by
  have first : (ofString s).head? = some 0x31 ∨ (ofString s).head? = some 0x33 := by simpa [startsLegacy] using starts
  have lower : (ofString s).head?.map asciiLower = some 0x31 ∨ (ofString s).head?.map asciiLower = some 0x33 := by
    rcases first with first | first
    · exact .inl (by rw [first]; rfl)
    · exact .inr (by rw [first]; rfl)
  constructor
  · rw [← Bool.not_eq_true, isBech32_iff]
    rintro ⟨hrp, member, same⟩
    have known : hrp = "bc1" ∨ hrp = "tb1" ∨ hrp = "bcrt1" := by simpa using member
    have head := head_of_start same (by rcases known with rfl | rfl | rfl <;> decide)
    rw [head] at lower
    rcases known with rfl | rfl | rfl <;> exact absurd lower (by decide)
  · rw [prefix_iff]
    intro same
    rw [head_of_hexMark same] at first
    exact absurd first (by decide)

theorem segwit_bech32 (starts : startsSegwit (ofString s) = true) : isBech32 s = true ∧ ¬ ['0', 'x'] <+: s.toList := by
  have chars : ((ofString s).take 3).map asciiLower = ofString "bc1" ∨ ((ofString s).take 3).map asciiLower = ofString "tb1" := by
    simpa [startsSegwit] using starts
  constructor
  · apply isBech32_iff.mpr
    rcases chars with same | same
    · exact ⟨"bc1", by simp, same⟩
    · exact ⟨"tb1", by simp, same⟩
  · rw [prefix_iff]
    intro same
    have zero := head_of_hexMark same
    rcases chars with same | same
    · exact absurd (head_of_start same (by decide)) (by rw [zero]; decide)
    · exact absurd (head_of_start same (by decide)) (by rw [zero]; decide)

section Reported

variable (standard : ∀ s, ofString (config.toLowerCase s) = m.toLowerCase (ofString s))

include standard

theorem toLowerCase_eq_iff : config.toLowerCase s = config.toLowerCase t ↔ m.toLowerCase (ofString s) = m.toLowerCase (ofString t) := by
  rw [← standard, ← standard]
  exact ⟨congrArg ofString, ofString_injective⟩

theorem canonical_segwit {hrp : Hrp} {d : DecodedSegwitAddress} (decoded : decodeSegwitAddress m (ofString recorded) hrp.text = some d)
    (spelled : Bip173.encode d.hrp d.witnessVersion d.program = ofString observed) :
    ofString observed = m.toLowerCase (ofString recorded) ∧ startsSegwit (ofString observed) = true ∧
      config.toLowerCase observed = config.toLowerCase recorded := by
  have lower : ofString observed = m.toLowerCase (ofString recorded) := by rw [← spelled, decoded_encodes decoded]
  have small := decoded_small decoded
  refine ⟨lower, ?_, ?_⟩
  · obtain ⟨-, -, words, checksum, pad, text, -⟩ := (decodeSegwitAddress_parts m hrp _).mp decoded
    rw [lower, text]
    cases hrp <;> rfl
  · rw [toLowerCase_eq_iff standard, lower, toLowerCase_small small]

theorem canonical_matches (valid : assertValidDestinationAddress m sha256 family (ofString recorded) = .ok ())
    (canonical : Canonical m sha256 family (ofString recorded) (ofString observed)) :
    destinationsMatch config observed recorded = true := by
  generalize recorded_ : ofString recorded = address, observed_ : ofString observed = spelled at canonical
  cases canonical with
  | legacy starts decoded =>
    rw [encode_checked decoded, ← recorded_] at observed_
    rw [ofString_injective observed_]
    exact destinationsMatch_self
  | xrpl decoded =>
    rw [encode_checked decoded, ← recorded_] at observed_
    rw [ofString_injective observed_]
    exact destinationsMatch_self
  | segwit starts decoded =>
    subst recorded_
    obtain ⟨-, starts', same⟩ := canonical_segwit standard decoded observed_.symm
    exact destinationsMatch_iff.mpr (.inl ⟨.inr ⟨(segwit_bech32 starts').1, (segwit_bech32 starts).1⟩, same⟩)
  | evm =>
    subst recorded_
    have matches_ : EVM_PATTERN (ofString recorded) = true := by
      unfold assertValidDestinationAddress assertValidEvmAddress at valid
      split at valid
      next => cases valid
      next =>
        by_contra other
        rw [if_neg other] at valid
        cases valid
    have ascii := pattern_ascii matches_
    have mark : (ofString recorded).take 2 = ofString "0x" := by
      simp only [EVM_PATTERN, Bool.and_eq_true, decide_eq_true_eq] at matches_
      exact matches_.1.1
    have mark' : (ofString observed).take 2 = ofString "0x" := by
      rw [observed_, ← List.map_take, mark]
      rfl
    refine destinationsMatch_iff.mpr (.inl ⟨.inl ⟨prefix_iff.mpr mark', prefix_iff.mpr mark⟩, ?_⟩)
    have ascii' : ∀ char ∈ (ofString recorded).map asciiLower, char < 0x80 := by
      intro char member
      obtain ⟨letter, used, rfl⟩ := List.mem_map.mp member
      exact asciiLower_ascii (ascii letter used)
    rw [toLowerCase_eq_iff standard, observed_, toLowerCase_ascii ascii, toLowerCase_ascii ascii', List.map_map]
    exact List.map_congr_left fun char _ => asciiLower_lower char

theorem other_unmatched {address other : String} (canonical : Canonical m sha256 .bitcoin (ofString recorded) (ofString address))
    (spelled : isBech32 other = true → m.toLowerCase (ofString other) = ofString other) (different : other ≠ address) :
    destinationsMatch config other recorded = false := by
  -- an output to another address does not match, if it is spelled as the chain does: bech32 in lower case
  rw [← Bool.not_eq_true, destinationsMatch_iff]
  intro matched
  generalize recorded_ : ofString recorded = text, address_ : ofString address = reported at canonical
  cases canonical with
  | legacy starts decoded =>
    rw [encode_checked decoded, ← recorded_] at address_
    obtain rfl := ofString_injective address_
    subst recorded_
    obtain ⟨notBech32, notHex⟩ := legacy_plain starts
    rcases matched with ⟨⟨-, hex⟩ | ⟨-, bech32⟩, -⟩ | same
    · exact notHex hex
    · simp [notBech32] at bech32
    · exact different same
  | segwit starts decoded =>
    subst recorded_
    obtain ⟨lower, -, -⟩ := canonical_segwit standard decoded address_.symm
    obtain ⟨bech32, notHex⟩ := segwit_bech32 starts
    rcases matched with ⟨⟨-, hex⟩ | ⟨bech32', -⟩, same⟩ | rfl
    · exact notHex hex
    · rw [toLowerCase_eq_iff standard, spelled bech32', ← lower] at same
      exact different (ofString_injective same)
    · rw [spelled bech32] at lower
      exact different (ofString_injective lower.symm)

end Reported

end Matching

end VerdictVaut.DestinationAddress
