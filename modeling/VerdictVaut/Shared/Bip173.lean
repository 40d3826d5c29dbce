import VerdictVaut.Shared.CodePoints
import VerdictVaut.Shared.Radix

set_option autoImplicit false

-- BIP-173 and BIP-350: the checksum of a text with a human-readable part, and the segwit addresses
namespace Bip173

open CodePoints Radix

def charset : Text := ofString "qpzry9x8gf2tvdw0s3jn54khce6mua7l"

def generator : List ℕ := [0x3b6a57b2, 0x26508e6d, 0x1ea119fa, 0x3d4233dd, 0x2a1462b3]

def feedback (top chk : ℕ) : ℕ :=
  (List.range 5).foldl (fun chk i => chk ^^^ if top.testBit i then generator.getD i 0 else 0) chk

def step (chk v : ℕ) : ℕ :=
  feedback (chk >>> 25) ((chk &&& 0x1ffffff) <<< 5 ^^^ v)

def polymod (values : List ℕ) : ℕ :=
  values.foldl step 1

def hrpExpand (hrp : Text) : List ℕ :=
  hrp.map (fun char => char >>> 5) ++ 0 :: hrp.map fun char => char &&& 31

def constant (version : ℕ) : ℕ :=
  -- the checksum constant of a witness version: bech32 for version 0, bech32m for the others
  if version = 0 then 1 else 0x2bc830a3

section Checksum

variable {chk v w : ℕ} {values digits : List ℕ}

theorem feedback_xor (top chk w : ℕ) : feedback top (chk ^^^ w) = feedback top chk ^^^ w := by
  unfold feedback
  generalize List.range 5 = places
  induction places generalizing chk with
  | nil => rfl
  | cons i places ih =>
    rw [List.foldl_cons, List.foldl_cons, Nat.xor_assoc, Nat.xor_comm w, ← Nat.xor_assoc, ih]

theorem xor_digit {digit : ℕ} (below : digit < 2 ^ 5) (n : ℕ) : n <<< 5 ^^^ digit = n * 32 + digit := by
  refine Nat.eq_of_testBit_eq fun i => ?_
  rw [Nat.mul_comm, show 32 = 2 ^ 5 from rfl, Nat.testBit_two_pow_mul_add n below, Nat.testBit_xor, Nat.testBit_shiftLeft]
  split
  next low => simp [Nat.not_le.mpr low]
  next high =>
    have above : digit.testBit i = false :=
      Nat.testBit_lt_two_pow (Nat.lt_of_lt_of_le below (Nat.pow_le_pow_right (by decide) (Nat.le_of_not_lt high)))
    simp [above, Nat.le_of_not_lt high]

theorem step_eq (chk v : ℕ) : step chk v = step chk 0 ^^^ v := by
  rw [step, step, Nat.xor_zero, feedback_xor]

theorem step_low (low : w < 2 ^ 25) : step (chk ^^^ w) 0 = step chk 0 ^^^ w <<< 5 := by
  have top : (chk ^^^ w) >>> 25 = chk >>> 25 := by
    rw [Nat.shiftRight_xor_distrib, Nat.shiftRight_eq_div_pow w, Nat.div_eq_of_lt low, Nat.xor_zero]
  have rest : (chk ^^^ w) &&& 0x1ffffff = (chk &&& 0x1ffffff) ^^^ w := by
    rw [Nat.and_xor_distrib_right]
    congr 1
    rw [show 0x1ffffff = 2 ^ 25 - 1 from rfl, Nat.and_two_pow_sub_one_eq_mod, Nat.mod_eq_of_lt low]
  rw [step, step, top, rest, Nat.shiftLeft_xor_distrib, Nat.xor_zero, Nat.xor_zero, feedback_xor]

theorem foldl_step (chk : ℕ) (valid : Valid 32 digits) (short : digits.length ≤ 6) :
    digits.foldl step chk = (List.replicate digits.length 0).foldl step chk ^^^ value 32 digits := by
  induction digits using List.reverseRecOn with
  | nil => exact (Nat.xor_zero _).symm
  | append_singleton digits digit ih =>
    have below : digit < 32 := valid digit (by simp)
    have higher : Valid 32 digits := fun d member => valid d (List.mem_append_left _ member)
    rw [List.length_append, List.length_singleton] at short
    have low : value 32 digits < 2 ^ 25 := by
      calc value 32 digits < 32 ^ digits.length := value_lt higher
        _ ≤ 32 ^ 5 := Nat.pow_le_pow_right (by decide) (by omega)
    have digits' : value 32 (digits ++ [digit]) = value 32 digits <<< 5 ^^^ digit := by
      rw [value_append, xor_digit below]
    rw [List.foldl_append, List.foldl_cons, List.foldl_nil, ih higher (by omega), step_eq, step_low low, Nat.xor_assoc,
      ← digits', List.length_append, List.length_singleton, List.replicate_add, List.foldl_append]
    rfl

def createChecksum (values : List ℕ) (constant : ℕ) : List ℕ :=
  -- the six digits behind the values that bring their checksum to the constant
  lowest 32 6 (polymod (values ++ List.replicate 6 0) ^^^ constant)

theorem eq_createChecksum {constant : ℕ} (valid : Valid 32 digits) (six : digits.length = 6)
    (checks : polymod (values ++ digits) = constant) : digits = createChecksum values constant := by
  have reached : polymod (values ++ List.replicate 6 0) ^^^ value 32 digits = constant := by
    rw [← checks, polymod, polymod, List.foldl_append, List.foldl_append, foldl_step _ valid (Nat.le_of_eq six), six]
  have number : polymod (values ++ List.replicate 6 0) ^^^ constant = value 32 digits := by
    rw [← reached, ← Nat.xor_assoc, Nat.xor_self, Nat.zero_xor]
  rw [createChecksum, number, ← six, lowest_value valid]

end Checksum

section Addresses

def separator : ℕ := 0x31

def text (hrp : Text) (values : List ℕ) : Text :=
  hrp ++ separator :: values.map fun value => charset.getD value 0

/-- The words of a segwit address of a version and a program: at most 90 characters, the checksum of the version, and fewer
than five zero bits behind the bytes of the program. -/
structure Segwit (hrp : Text) (version : ℕ) (program : List UInt8) (words checksum : List ℕ) (pad : ℕ) : Prop where
  short : (text hrp (version :: words ++ checksum)).length ≤ 90
  validWords : Valid 32 words
  validChecksum : Valid 32 checksum
  six : checksum.length = 6
  checks : polymod (hrpExpand hrp ++ (version :: words ++ checksum)) = constant version
  known : version ≤ 16
  length : 5 * words.length = 8 * program.length + pad
  few : pad < 5
  bits : value 32 words = value 256 (program.map UInt8.toNat) * 2 ^ pad
  size : 2 ≤ program.length ∧ program.length ≤ 40
  versionZero : version = 0 → program.length = 20 ∨ program.length = 32

def IsSegwitAddress (hrp s : Text) (version : ℕ) (program : List UInt8) : Prop :=
  -- an address is in lower case or in upper case
  ∃ words checksum pad, Segwit hrp version program words checksum pad ∧
    (s = text hrp (version :: words ++ checksum) ∨ s = (text hrp (version :: words ++ checksum)).map asciiUpper)

def encode (hrp : Text) (version : ℕ) (program : List UInt8) : Text :=
  let count := (8 * program.length + 4) / 5
  let words := lowest 32 count (value 256 (program.map UInt8.toNat) * 2 ^ (5 * count - 8 * program.length))
  text hrp (version :: words ++ createChecksum (hrpExpand hrp ++ version :: words) (constant version))

theorem Segwit.encode_eq {hrp : Text} {version pad : ℕ} {program : List UInt8} {words checksum : List ℕ}
    (segwit : Segwit hrp version program words checksum pad) :
    encode hrp version program = text hrp (version :: words ++ checksum) := by
  have length := segwit.length
  have few := segwit.few
  have count : (8 * program.length + 4) / 5 = words.length := by omega
  have pads : 5 * words.length - 8 * program.length = pad := by omega
  have checks := segwit.checks
  rw [← List.append_assoc] at checks
  unfold encode
  simp only []
  rw [count, pads, ← segwit.bits, lowest_value segwit.validWords, ← eq_createChecksum segwit.validChecksum segwit.six checks]

end Addresses

end Bip173
