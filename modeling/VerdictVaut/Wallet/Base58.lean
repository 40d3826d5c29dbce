import VerdictVaut.Shared.CodePoints
import VerdictVaut.Shared.Radix

set_option autoImplicit false

-- `address-checksums/base58.util.ts`
namespace VerdictVaut.Base58

open CodePoints Radix

def BITCOIN_ALPHABET : Text := ofString "123456789ABCDEFGHJKLMNPQRSTUVWXYZabcdefghijkmnopqrstuvwxyz"

def XRPL_ALPHABET : Text := ofString "rpshnaf39wBUDNEGHJKLM4PQRST7VWXYZ2bcdeCg65jkm8oFqi1tuvAxyz"

inductive Base58Alphabet
  | bitcoin
  | xrpl

def alphabetFor : Base58Alphabet → Text
  | .bitcoin => BITCOIN_ALPHABET
  | .xrpl => XRPL_ALPHABET

def unshiftBytes (value : ℕ) (bytes : List UInt8) : List UInt8 :=
  -- the big-endian bytes of a number, put in front of the bytes that are there
  if value = 0 then bytes else unshiftBytes (value / 256) (UInt8.ofNat (value % 256) :: bytes)

def decodeBase58 (input : Text) (alphabet : Base58Alphabet) : Option (List UInt8) :=
  let chars := alphabetFor alphabet
  if CodePoints.length input = 0 then none
  else do
    let value ← input.foldlM (fun value char => (indexOf? chars char).map fun digit => value * 58 + digit) 0
    let zeroChar := chars.getD 0 0
    let leadingZeros := (input.takeWhile fun char => decide (char = zeroChar)).length
    pure (List.replicate leadingZeros 0 ++ unshiftBytes value [])

abbrev Digest := Vector UInt8 32

def checksum (sha256 : List UInt8 → Digest) (payload : List UInt8) : List UInt8 :=
  (sha256 (sha256 payload).toList).toList.take 4

def decodeBase58Check (sha256 : List UInt8 → Digest) (input : Text) (alphabet : Base58Alphabet) : Option (List UInt8) := do
  let decoded ← decodeBase58 input alphabet
  if decoded.length < 5 then none
  else
    let payload := decoded.take (decoded.length - 4)
    let checksum := decoded.drop (decoded.length - 4)
    let hash1 := sha256 payload
    let hash2 := sha256 hash1.toList
    let expectedChecksum := hash2.toList.take 4
    if checksum = expectedChecksum then some payload else none

section Decoding

variable {chars input : Text} {alphabet : Base58Alphabet} {value start : ℕ} {bytes : List UInt8}

theorem unshiftBytes_eq (value : ℕ) (bytes : List UInt8) :
    unshiftBytes value bytes = (Nat.digits 256 value).reverse.map UInt8.ofNat ++ bytes := by
  fun_induction unshiftBytes value bytes with
  | case1 => simp
  | case2 value bytes positive ih =>
    rw [ih, Nat.digits_def' (by decide) (Nat.pos_of_ne_zero positive)]
    simp

theorem indexOf?_eq (known : ∀ char ∈ input, char ∈ chars) :
    input.foldlM (fun value char => (indexOf? chars char).map fun digit => value * 58 + digit) start =
      some ((input.map chars.idxOf).foldl (fun value digit => value * 58 + digit) start) := by
  induction input generalizing start with
  | nil => rfl
  | cons char input ih =>
    have mine : indexOf? chars char = some (chars.idxOf char) := if_pos (known char List.mem_cons_self)
    rw [List.foldlM_cons, mine]
    exact ih fun c member => known c (List.mem_cons_of_mem _ member)

theorem indexOf?_none {char : ℕ} (member : char ∈ input) (unknown : char ∉ chars) :
    input.foldlM (fun value char => (indexOf? chars char).map fun digit => value * 58 + digit) start = none := by
  induction input generalizing start with
  | nil => cases member
  | cons first input ih =>
    rw [List.foldlM_cons]
    rcases List.mem_cons.mp member with rfl | later
    · rw [show indexOf? chars char = none from if_neg unknown]
      rfl
    · cases indexOf? chars first with
      | none => rfl
      | some digit => exact ih later

theorem alphabet_length (alphabet : Base58Alphabet) : (alphabetFor alphabet).length = 58 := by
  cases alphabet <;> decide +kernel

theorem alphabet_nodup (alphabet : Base58Alphabet) : (alphabetFor alphabet).Nodup := by
  cases alphabet <;> decide +kernel

def digitsOf (alphabet : Base58Alphabet) (input : Text) : List ℕ :=
  -- the digits of a text, and the text of digits
  input.map (alphabetFor alphabet).idxOf

def textOf (alphabet : Base58Alphabet) (digits : List ℕ) : Text :=
  digits.map fun digit => (alphabetFor alphabet).getD digit 0

theorem valid_digitsOf (known : ∀ char ∈ input, char ∈ alphabetFor alphabet) : Valid 58 (digitsOf alphabet input) := by
  intro digit member
  obtain ⟨char, used, rfl⟩ := List.mem_map.mp member
  rw [← alphabet_length alphabet]
  exact List.idxOf_lt_length_of_mem (known char used)

theorem textOf_digitsOf (known : ∀ char ∈ input, char ∈ alphabetFor alphabet) :
    textOf alphabet (digitsOf alphabet input) = input := by
  rw [textOf, digitsOf, List.map_map]
  refine (List.map_congr_left fun char used => ?_).trans (List.map_id _)
  exact getD_idxOf (known char used)

theorem digitsOf_textOf {digits : List ℕ} (valid : Valid 58 digits) : digitsOf alphabet (textOf alphabet digits) = digits := by
  rw [textOf, digitsOf, List.map_map]
  refine (List.map_congr_left fun digit used => ?_).trans (List.map_id _)
  have inside : digit < (alphabetFor alphabet).length := by
    rw [alphabet_length]
    exact valid digit used
  exact idxOf_getD (alphabet_nodup alphabet) inside

theorem textOf_known {digits : List ℕ} (valid : Valid 58 digits) : ∀ char ∈ textOf alphabet digits, char ∈ alphabetFor alphabet := by
  intro char member
  obtain ⟨digit, used, rfl⟩ := List.mem_map.mp member
  have inside : digit < (alphabetFor alphabet).length := by
    rw [alphabet_length]
    exact valid digit used
  exact getD_mem inside

theorem leadingZeros_eq (known : ∀ char ∈ input, char ∈ alphabetFor alphabet) :
    (input.takeWhile fun char => decide (char = (alphabetFor alphabet).getD 0 0)).length =
      leading (digitsOf alphabet input) := by
  have some_ : alphabetFor alphabet ≠ [] := List.ne_nil_of_length_eq_add_one (alphabet_length alphabet)
  have first : (alphabetFor alphabet).getD 0 0 = (alphabetFor alphabet).head some_ := by
    rw [List.head_eq_getElem]
    simp [List.getD, alphabet_length]
  induction input with
  | nil => rfl
  | cons char input ih =>
    have here : char = (alphabetFor alphabet).getD 0 0 ↔ (alphabetFor alphabet).idxOf char = 0 := by
      rw [List.idxOf_eq_zero_iff_head_eq some_, first]
      exact eq_comm
    have rest := ih fun c member => known c (List.mem_cons_of_mem _ member)
    by_cases zero : char = (alphabetFor alphabet).getD 0 0
    · have zero' := here.mp zero
      simp only [leading, digitsOf, List.map_cons] at rest ⊢
      rw [List.takeWhile_cons_of_pos (by simp [zero]), List.takeWhile_cons_of_pos (by simp [zero']), List.length_cons, rest,
        List.length_cons]
    · have zero' := mt here.mpr zero
      simp only [leading, digitsOf, List.map_cons]
      rw [List.takeWhile_cons_of_neg (by simpa using zero), List.takeWhile_cons_of_neg (by simpa using zero')]

theorem length_eq_zero : CodePoints.length input = 0 ↔ input = [] := by
  cases input with
  | nil => exact iff_of_true rfl rfl
  | cons char input =>
    refine iff_of_false ?_ (List.cons_ne_nil _ _)
    rw [CodePoints.length]
    split <;> omega

theorem decodeBase58_eq (some_ : input ≠ []) (known : ∀ char ∈ input, char ∈ alphabetFor alphabet) :
    decodeBase58 input alphabet = some ((convert 58 256 (digitsOf alphabet input)).map UInt8.ofNat) := by
  unfold decodeBase58
  simp only []
  rw [if_neg (mt length_eq_zero.mp some_), indexOf?_eq known]
  change some _ = _
  rw [unshiftBytes_eq, leadingZeros_eq known, List.append_nil, convert, spell, List.map_append, List.map_replicate]
  rfl

theorem decodeBase58_none : decodeBase58 input alphabet = none ↔
    input = [] ∨ ∃ char ∈ input, char ∉ alphabetFor alphabet := by
  by_cases empty : input = []
  · exact iff_of_true (by rw [empty]; rfl) (.inl empty)
  by_cases known : ∀ char ∈ input, char ∈ alphabetFor alphabet
  · rw [decodeBase58_eq empty known]
    refine iff_of_false (by simp) ?_
    rintro (nil | ⟨char, member, unknown⟩)
    · exact empty nil
    · exact unknown (known char member)
  · simp only [not_forall] at known
    obtain ⟨char, member, unknown⟩ := known
    refine iff_of_true ?_ (.inr ⟨char, member, unknown⟩)
    unfold decodeBase58
    simp only []
    rw [if_neg (mt length_eq_zero.mp empty), indexOf?_none member unknown]
    rfl

def encodeBase58 (bytes : List UInt8) (alphabet : Base58Alphabet) : Text :=
  textOf alphabet (convert 256 58 (bytes.map UInt8.toNat))

theorem decode_encode (some_ : bytes ≠ []) : decodeBase58 (encodeBase58 bytes alphabet) alphabet = some bytes := by
  have valid : Valid 58 (convert 256 58 (bytes.map UInt8.toNat)) := valid_convert (by decide)
  have spelled : encodeBase58 bytes alphabet ≠ [] := by
    rw [encodeBase58, textOf, Ne, List.map_eq_nil_iff, convert_eq_nil (by decide) (valid_bytes bytes), List.map_eq_nil_iff]
    exact some_
  rw [decodeBase58_eq spelled (textOf_known valid), encodeBase58, digitsOf_textOf valid,
    convert_convert (by decide) (valid_bytes bytes), ofNat_toNat]

theorem decode_known (decoded : decodeBase58 input alphabet = some bytes) :
    input ≠ [] ∧ ∀ char ∈ input, char ∈ alphabetFor alphabet := by
  have accepted : ¬ (input = [] ∨ ∃ char ∈ input, char ∉ alphabetFor alphabet) := by
    rw [← decodeBase58_none, decoded]
    simp
  simpa only [not_or, not_exists, not_and, not_not] using accepted

theorem encode_decode (decoded : decodeBase58 input alphabet = some bytes) : input = encodeBase58 bytes alphabet := by
  obtain ⟨some_, known⟩ := decode_known decoded
  rw [decodeBase58_eq some_ known] at decoded
  cases decoded
  rw [encodeBase58, toNat_ofNat (valid_convert (by decide)), convert_convert (by decide) (valid_digitsOf known),
    textOf_digitsOf known]

theorem leading_bytes (bytes : List UInt8) :
    (bytes.takeWhile fun byte => decide (byte = 0)).length = leading (bytes.map UInt8.toNat) := by
  have same : ∀ byte : UInt8, byte = 0 ↔ byte.toNat = 0 := fun byte => UInt8.toNat_inj.symm
  rw [leading, List.takeWhile_map, List.length_map]
  simp only [same, Function.comp_def]

theorem leading_decoded (decoded : decodeBase58 input alphabet = some bytes) :
    (bytes.takeWhile fun byte => decide (byte = 0)).length =
      (input.takeWhile fun char => decide (char = (alphabetFor alphabet).getD 0 0)).length := by
  obtain ⟨some_, known⟩ := decode_known decoded
  rw [decodeBase58_eq some_ known] at decoded
  cases decoded
  rw [leading_bytes, leadingZeros_eq known, toNat_ofNat (valid_convert (by decide)), leading_convert]

theorem length_checksum (sha256 : List UInt8 → Digest) (payload : List UInt8) : (checksum sha256 payload).length = 4 := by
  simp [checksum]

theorem decodeBase58Check_eq_some {sha256 : List UInt8 → Digest} {payload : List UInt8} (some_ : payload ≠ []) :
    decodeBase58Check sha256 input alphabet = some payload ↔
      decodeBase58 input alphabet = some (payload ++ checksum sha256 payload) := by
  -- a payload of at least one byte is accepted with its checksum behind it, and with nothing else
  have four := length_checksum sha256 payload
  have one := List.length_pos_iff.mpr some_
  unfold decodeBase58Check
  cases decodeBase58 input alphabet with
  | none => simp
  | some decoded =>
    change (if decoded.length < 5 then none else if decoded.drop (decoded.length - 4) =
      checksum sha256 (decoded.take (decoded.length - 4)) then some (decoded.take (decoded.length - 4)) else none) = some payload ↔ _
    constructor
    · intro accepted
      split at accepted
      · cases accepted
      split at accepted
      next checks =>
        cases accepted
        rw [← checks, List.take_append_drop]
      · cases accepted
    · intro spelled
      cases spelled
      have length : (payload ++ checksum sha256 payload).length - 4 = payload.length := by
        rw [List.length_append, four]
        omega
      rw [if_neg (by rw [List.length_append, four]; omega), length, List.take_left, List.drop_left, if_pos rfl]

theorem base58_bijective (alphabet : Base58Alphabet) (sha256 : List UInt8 → Digest) :
    (∀ input, decodeBase58 input alphabet = none ↔ input = [] ∨ ∃ char ∈ input, char ∉ alphabetFor alphabet) ∧
    (∀ input input' bytes, decodeBase58 input alphabet = some bytes → decodeBase58 input' alphabet = some bytes →
      input = input') ∧
    (∀ bytes, (∃ input, decodeBase58 input alphabet = some bytes) ↔ bytes ≠ []) ∧
    (∀ bytes, bytes ≠ [] → ∃! input, decodeBase58 input alphabet = some bytes) ∧
    (∀ input bytes, decodeBase58 input alphabet = some bytes →
      (bytes.takeWhile fun byte => decide (byte = 0)).length =
        (input.takeWhile fun char => decide (char = (alphabetFor alphabet).getD 0 0)).length) ∧
    ∀ input payload, payload ≠ [] → (decodeBase58Check sha256 input alphabet = some payload ↔
      input = encodeBase58 (payload ++ checksum sha256 payload) alphabet) := by
  have injective : ∀ {input input' bytes}, decodeBase58 input alphabet = some bytes → decodeBase58 input' alphabet = some bytes →
      input = input' := fun first second => (encode_decode first).trans (encode_decode second).symm
  refine ⟨fun input => decodeBase58_none, fun input input' bytes => injective, fun bytes => ⟨?_, fun some_ => ?_⟩, ?_, ?_, ?_⟩
  · rintro ⟨input, decoded⟩ rfl
    have empty := encode_decode decoded
    rw [encodeBase58, List.map_nil, convert_nil] at empty
    exact (decode_known decoded).1 empty
  · exact ⟨_, decode_encode some_⟩
  · exact fun bytes some_ => ⟨_, decode_encode some_, fun input decoded => encode_decode decoded⟩
  · exact fun input bytes => leading_decoded
  · intro input payload some_
    rw [decodeBase58Check_eq_some some_]
    refine ⟨encode_decode, ?_⟩
    rintro rfl
    exact decode_encode (List.append_ne_nil_of_left_ne_nil some_ _)

example : decodeBase58 (ofString "112g") .bitcoin = some [0, 0, 0x61] := by decide +kernel

end Decoding

end VerdictVaut.Base58
