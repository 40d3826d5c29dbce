import VerdictVaut.Shared.Bip173
import Mathlib.Data.List.TakeWhile

set_option autoImplicit false

-- `address-checksums/bech32.util.ts`
namespace VerdictVaut.Bech32

open CodePoints Radix

def CHARSET : Text := ofString "qpzry9x8gf2tvdw0s3jn54khce6mua7l"

def GENERATOR : List (BitVec 32) := [0x3b6a57b2, 0x26508e6d, 0x1ea119fa, 0x3d4233dd, 0x2a1462b3]

def BECH32_CONST : BitVec 32 := 1#32

def BECH32M_CONST : BitVec 32 := 0x2bc830a3#32

-- a JavaScript number is its 32 bits in these operations
def polymod (values : List ℕ) : BitVec 32 :=
  values.foldl (fun (chk : BitVec 32) (v : ℕ) =>
    let top := chk >>> 25
    (List.range 5).foldl (fun (chk : BitVec 32) (i : ℕ) =>
      if (top >>> i) &&& 1#32 ≠ 0#32 then chk ^^^ GENERATOR.getD i 0#32 else chk)
      ((chk &&& 0x1ffffff#32) <<< 5 ^^^ BitVec.ofNat 32 v)) 1#32

/-- `charCodeAt(0)` is the high surrogate of a character that takes two code units. -/
def charCode (char : ℕ) : ℕ :=
  if char < 0x10000 then char else 0xd800 + (char - 0x10000) / 0x400

def hrpExpand (hrp : Text) : List ℕ :=
  hrp.map (fun char => charCode char >>> 5) ++ 0 :: hrp.map fun char => charCode char &&& 31

structure Regrouping where
  acc : BitVec 32
  bits : ℕ
  result : List ℕ

def maxV (toBits : ℕ) : BitVec 32 := BitVec.ofNat 32 (2 ^ toBits - 1)

/-- `while (bits >= toBits)` -/
def Regrouping.drain (toBits : ℕ) (state : Regrouping) : Regrouping :=
  if 0 < toBits ∧ toBits ≤ state.bits then
    let bits := state.bits - toBits
    Regrouping.drain toBits
      { acc := state.acc, bits := bits, result := state.result ++ [((state.acc >>> bits) &&& maxV toBits).toNat] }
  else state
termination_by state.bits

def Regrouping.take (fromBits toBits : ℕ) (state : Regrouping) (value : ℕ) : Option Regrouping :=
  if BitVec.ofNat 32 value >>> fromBits ≠ 0#32 then none
  else some (Regrouping.drain toBits
    { state with acc := state.acc <<< fromBits ||| BitVec.ofNat 32 value, bits := state.bits + fromBits })

def convertBits (data : List ℕ) (fromBits toBits : ℕ) (pad : Bool) : Option (List ℕ) := do
  let state ← data.foldlM (Regrouping.take fromBits toBits) { acc := 0#32, bits := 0, result := [] }
  let rest := (state.acc <<< (toBits - state.bits)) &&& maxV toBits
  if pad then
    pure (if 0 < state.bits then state.result ++ [rest.toNat] else state.result)
  else if fromBits ≤ state.bits ∨ rest ≠ 0#32 then none
  else pure state.result

structure DecodedSegwitAddress where
  hrp : Text
  witnessVersion : ℕ
  program : List UInt8
  deriving DecidableEq

/-- The two sides of `lastIndexOf(char)`. -/
def splitLast (char : ℕ) (s : Text) : Option (Text × Text) :=
  if char ∈ s then
    some ((s.reverse.dropWhile fun c => decide (c ≠ char)).tail.reverse, (s.reverse.takeWhile fun c => decide (c ≠ char)).reverse)
  else none

/-- What is left of `decodeSegwitAddress` once the address is in lower case. -/
def decodeLower (lower expectedHrp : Text) : Option DecodedSegwitAddress := do
  let (hrp, dataPart) ← splitLast 0x31 lower
  let separator := CodePoints.length hrp
  if separator < 1 ∨ CodePoints.length lower < separator + 7 ∨ 90 < CodePoints.length lower then none
  else if hrp ≠ expectedHrp then none
  else do
    let values ← dataPart.mapM (indexOf? CHARSET)
    let checksum := polymod (hrpExpand hrp ++ values)
    let isBech32 := decide (checksum = BECH32_CONST)
    let isBech32m := decide (checksum = BECH32M_CONST)
    if !isBech32 && !isBech32m then none
    else do
      let witnessVersion := values.getD 0 0
      let programWords := (values.take (values.length - 6)).drop 1
      let program ← convertBits programWords 5 8 false
      if program.length < 2 ∨ 40 < program.length then none
      else if 16 < witnessVersion then none
      else if witnessVersion = 0 ∧ !isBech32 then none
      else if witnessVersion ≠ 0 ∧ !isBech32m then none
      else if witnessVersion = 0 ∧ program.length ≠ 20 ∧ program.length ≠ 32 then none
      else pure { hrp := hrp, witnessVersion := witnessVersion, program := program.map UInt8.ofNat }

def decodeSegwitAddress (m : CaseMapping) (address expectedHrp : Text) : Option DecodedSegwitAddress :=
  if address ≠ m.toLowerCase address ∧ address ≠ m.toUpperCase address then none
  else decodeLower (m.toLowerCase address) (m.toLowerCase expectedHrp)

example : decodeLower (ofString "bc1qw508d6qejxtdg4y5r3zarvary0c5xw7kv8f3t4") (ofString "bc") =
    some { hrp := ofString "bc", witnessVersion := 0,
           program := [0x75, 0x1e, 0x76, 0xe8, 0x19, 0x91, 0x96, 0xd4, 0x54, 0x94, 0x1c, 0x45, 0xd1, 0xb3, 0xa3, 0x23,
             0xf1, 0x43, 0x3b, 0xd6] } := by decide +kernel

section Checksum

theorem generator_toNat (i : ℕ) : (GENERATOR.getD i 0#32).toNat = Bip173.generator.getD i 0 := by
  rw [show Bip173.generator = GENERATOR.map BitVec.toNat from rfl, List.getD, List.getD, List.getElem?_map]
  cases GENERATOR[i]? <;> rfl

theorem feedback_toNat (top chk : BitVec 32) : ((List.range 5).foldl (fun (chk : BitVec 32) (i : ℕ) =>
    if (top >>> i) &&& 1#32 ≠ 0#32 then chk ^^^ GENERATOR.getD i 0#32 else chk) chk).toNat =
      Bip173.feedback top.toNat chk.toNat := by
  unfold Bip173.feedback
  generalize List.range 5 = places
  induction places generalizing chk with
  | nil => rfl
  | cons i places ih =>
    have bit : (top >>> i) &&& 1#32 ≠ 0#32 ↔ top.toNat.testBit i = true := by
      rw [Nat.testBit, bne_iff_ne, Nat.and_comm, Ne, Ne, ← BitVec.toNat_inj, BitVec.toNat_and, BitVec.toNat_ushiftRight]
      rfl
    rw [List.foldl_cons, List.foldl_cons, ih]
    congr 1
    by_cases set : top.toNat.testBit i = true
    · rw [if_pos (bit.mpr set), if_pos set, BitVec.toNat_xor, generator_toNat]
    · rw [if_neg (mt bit.mp set), if_neg set, Nat.xor_zero]

theorem step_toNat (chk : BitVec 32) {v : ℕ} (small : v < 2 ^ 32) :
    ((chk &&& 0x1ffffff#32) <<< 5 ^^^ BitVec.ofNat 32 v).toNat = (chk.toNat &&& 0x1ffffff) <<< 5 ^^^ v := by
  have low : chk.toNat &&& 0x1ffffff ≤ 0x1ffffff := Nat.and_le_right
  have room : (chk.toNat &&& 0x1ffffff) <<< 5 < 2 ^ 32 := by
    rw [Nat.shiftLeft_eq]
    omega
  rw [BitVec.toNat_xor, BitVec.toNat_shiftLeft, BitVec.toNat_and, BitVec.toNat_ofNat v, Nat.mod_eq_of_lt small]
  congr 1
  exact Nat.mod_eq_of_lt room

theorem polymod_toNat {values : List ℕ} (small : ∀ v ∈ values, v < 2 ^ 32) : (polymod values).toNat = Bip173.polymod values := by
  -- the register never gets to its highest bits, so that the signs of JavaScript's bit operations do not matter
  unfold polymod Bip173.polymod
  suffices from_ : ∀ chk : BitVec 32, (values.foldl (fun (chk : BitVec 32) (v : ℕ) =>
      let top := chk >>> 25
      (List.range 5).foldl (fun (chk : BitVec 32) (i : ℕ) =>
        if (top >>> i) &&& 1#32 ≠ 0#32 then chk ^^^ GENERATOR.getD i 0#32 else chk)
        ((chk &&& 0x1ffffff#32) <<< 5 ^^^ BitVec.ofNat 32 v)) chk).toNat = values.foldl Bip173.step chk.toNat from from_ 1#32
  induction values with
  | nil => exact fun _ => rfl
  | cons v values ih =>
    intro chk
    rw [List.foldl_cons, List.foldl_cons, ih fun v' member => small v' (List.mem_cons_of_mem _ member)]
    congr 1
    rw [feedback_toNat, step_toNat chk (small v List.mem_cons_self), BitVec.toNat_ushiftRight]
    rfl

end Checksum

section Regrouping

variable {words result : List ℕ} {state : Regrouping} {v pad : ℕ}

/-- The words so far are the bytes so far and then the bits that are left in the accumulator, whatever its higher bits are. -/
structure Regrouped (words : List ℕ) (state : Regrouping) : Prop where
  value : value 32 words = value 256 state.result * 2 ^ state.bits + state.acc.toNat % 2 ^ state.bits
  length : 5 * words.length = 8 * state.result.length + state.bits
  bytes : Valid 256 state.result

theorem byte_toNat (acc : BitVec 32) (bits : ℕ) : ((acc >>> bits) &&& maxV 8).toNat = acc.toNat / 2 ^ bits % 2 ^ 8 := by
  rw [BitVec.toNat_and, BitVec.toNat_ushiftRight, Nat.shiftRight_eq_div_pow]
  exact Nat.and_two_pow_sub_one_eq_mod _ 8

theorem Regrouped.drain (regrouped : Regrouped words state) : Regrouped words (state.drain 8) ∧ (state.drain 8).bits < 8 := by
  fun_induction Regrouping.drain 8 state with
  | case1 state more bits ih =>
    refine ih ?_
    have all : state.bits = bits + 8 := by omega
    constructor
    case value =>
      rw [regrouped.value, value_append, byte_toNat, all, Nat.pow_add, Nat.mod_mul]
      ring
    case length =>
      change _ = 8 * (state.result ++ _).length + bits
      rw [List.length_append, List.length_singleton, regrouped.length]
      omega
    case bytes =>
      refine List.forall_mem_append.mpr ⟨regrouped.bytes, List.forall_mem_singleton.mpr ?_⟩
      rw [byte_toNat]
      exact Nat.mod_lt _ (by decide)
  | case2 state done => exact ⟨regrouped, by omega⟩

theorem acc_toNat {acc : BitVec 32} {bits : ℕ} (small : v < 32) (room : bits ≤ 27) :
    (acc <<< 5 ||| BitVec.ofNat 32 v).toNat % 2 ^ (bits + 5) = acc.toNat % 2 ^ bits * 32 + v := by
  -- the accumulator is shifted beyond its 32 bits, but not the bits that are still to be read
  have word : (acc <<< 5 ||| BitVec.ofNat 32 v).toNat = acc.toNat % 2 ^ 27 * 32 + v := by
    have shifted : acc.toNat <<< 5 % 2 ^ 32 = (acc.toNat % 2 ^ 27) <<< 5 := by
      rw [Nat.shiftLeft_eq, Nat.shiftLeft_eq]
      omega
    rw [BitVec.toNat_or, BitVec.toNat_shiftLeft, BitVec.toNat_ofNat, Nat.mod_eq_of_lt (show v < 2 ^ 32 by omega), shifted,
      ← Nat.shiftLeft_add_eq_or_of_lt (show v < 2 ^ 5 from small), Nat.shiftLeft_eq]
  have lower : acc.toNat % 2 ^ 27 % 2 ^ bits = acc.toNat % 2 ^ bits := Nat.mod_mod_of_dvd _ (Nat.pow_dvd_pow 2 room)
  have digit : (acc.toNat % 2 ^ 27 * 32 + v) % 2 ^ 5 = v := by omega
  have rest : (acc.toNat % 2 ^ 27 * 32 + v) / 2 ^ 5 = acc.toNat % 2 ^ 27 := by omega
  rw [word, Nat.pow_add, Nat.mul_comm (2 ^ bits), Nat.mod_mul, digit, rest, lower]
  ring

theorem Regrouped.take (regrouped : Regrouped words state) (low : state.bits < 8) (small : v < 32) :
    ∃ state', Regrouping.take 5 8 state v = some state' ∧ Regrouped (words ++ [v]) state' ∧ state'.bits < 8 := by
  have inside : BitVec.ofNat 32 v >>> 5 = 0#32 := by
    rw [← BitVec.toNat_inj, BitVec.toNat_ushiftRight, BitVec.toNat_ofNat, Nat.mod_eq_of_lt (by omega), Nat.shiftRight_eq_div_pow]
    exact Nat.div_eq_of_lt small
  unfold Regrouping.take
  rw [if_neg (not_not.mpr inside)]
  refine ⟨_, rfl, Regrouped.drain ?_⟩
  constructor
  case value =>
    rw [value_append, regrouped.value, acc_toNat small (by omega), Nat.pow_add]
    ring
  case length =>
    change _ = 8 * state.result.length + (state.bits + 5)
    rw [List.length_append, List.length_singleton, Nat.mul_add, regrouped.length]
    omega
  case bytes => exact regrouped.bytes

theorem regrouped_all (valid : Valid 32 words) : ∃ state,
    words.foldlM (Regrouping.take 5 8) { acc := 0#32, bits := 0, result := [] } = some state ∧
      Regrouped words state ∧ state.bits < 8 := by
  induction words using List.reverseRecOn with
  | nil => exact ⟨_, rfl, ⟨rfl, rfl, List.forall_mem_nil _⟩, by decide⟩
  | append_singleton words v ih =>
    obtain ⟨state, reached, regrouped, low⟩ := ih fun d member => valid d (List.mem_append_left _ member)
    obtain ⟨state', taken, next⟩ := regrouped.take low (valid v (by simp))
    refine ⟨state', ?_, next⟩
    rw [List.foldlM_append, reached]
    change (Regrouping.take 5 8 state v).bind _ = _
    rw [taken]
    rfl

theorem rest_eq_zero {acc : BitVec 32} {bits : ℕ} (low : bits < 8) :
    (acc <<< (8 - bits)) &&& maxV 8 = 0#32 ↔ acc.toNat % 2 ^ bits = 0 := by
  have rest : ((acc <<< (8 - bits)) &&& maxV 8).toNat = acc.toNat % 2 ^ bits * 2 ^ (8 - bits) := by
    rw [BitVec.toNat_and, BitVec.toNat_shiftLeft, Nat.shiftLeft_eq]
    refine (Nat.and_two_pow_sub_one_eq_mod _ 8).trans ?_
    rw [Nat.mod_mod_of_dvd _ (Nat.pow_dvd_pow 2 (by decide)), ← Nat.mul_mod_mul_right, ← Nat.pow_add,
      Nat.add_sub_cancel' (Nat.le_of_lt low)]
  rw [← BitVec.toNat_inj, rest]
  change _ = 0 ↔ _
  rw [Nat.mul_eq_zero]
  exact or_iff_left (Nat.two_pow_pos _).ne'

/-- What the conversion gives, and that it gives nothing else: the bytes whose bits, with fewer than five zeros behind them, are
the bits of the words. -/
theorem convertBits_eq_some (valid : Valid 32 words) : convertBits words 5 8 false = some result ↔
    ∃ pad, 5 * words.length = 8 * result.length + pad ∧ pad < 5 ∧ Valid 256 result ∧
      value 32 words = value 256 result * 2 ^ pad := by
  obtain ⟨state, reached, regrouped, low⟩ := regrouped_all valid
  have length := regrouped.length
  have converted : convertBits words 5 8 false =
      if 5 ≤ state.bits ∨ (state.acc <<< (8 - state.bits)) &&& maxV 8 ≠ 0#32 then none else some state.result := by
    unfold convertBits
    rw [reached]
    rfl
  simp only [converted, ne_eq, rest_eq_zero low]
  constructor
  · intro given
    split at given
    · cases given
    next kept =>
      cases given
      rw [not_or, not_not] at kept
      refine ⟨state.bits, length, by omega, regrouped.bytes, ?_⟩
      rw [regrouped.value, kept.2, Nat.add_zero]
  · rintro ⟨pad, length', few, bytes, bits⟩
    have same : state.bits = pad ∧ state.result.length = result.length := by omega
    obtain ⟨rfl, lengths⟩ := same
    have total := regrouped.value.symm.trans bits
    have below : state.acc.toNat % 2 ^ state.bits < 2 ^ state.bits := Nat.mod_lt _ (Nat.two_pow_pos _)
    have zero : state.acc.toNat % 2 ^ state.bits = 0 := by
      have modulo := congrArg (· % 2 ^ state.bits) total
      simpa [Nat.mul_add_mod', Nat.mod_eq_of_lt below] using modulo
    have values : value 256 state.result = value 256 result := by
      rw [zero, Nat.add_zero] at total
      exact Nat.eq_of_mul_eq_mul_right (Nat.two_pow_pos _) total
    rw [if_neg (by simp [zero]; omega), eq_of_value regrouped.bytes bytes lengths values]

end Regrouping

section Splitting

variable {char : ℕ} {s hrp dataPart : Text} {digits : List ℕ}

theorem splitLast_eq_some : splitLast char s = some (hrp, dataPart) ↔ s = hrp ++ char :: dataPart ∧ char ∉ dataPart := by
  unfold splitLast
  constructor
  · intro split
    split at split
    next known =>
      cases split
      have parts : s.reverse.takeWhile (fun c => decide (c ≠ char)) ++ s.reverse.dropWhile (fun c => decide (c ≠ char)) = s.reverse :=
        List.takeWhile_append_dropWhile
      have before : char ∉ s.reverse.takeWhile fun c => decide (c ≠ char) := by
        intro member
        simpa using List.mem_takeWhile_imp member
      have stopped := List.head?_dropWhile_not (fun c => decide (c ≠ char)) s.reverse
      generalize s.reverse.takeWhile (fun c => decide (c ≠ char)) = data at parts before
      generalize s.reverse.dropWhile (fun c => decide (c ≠ char)) = rest at parts stopped
      cases rest with
      | nil =>
        rw [List.append_nil] at parts
        exact absurd (parts ▸ List.mem_reverse.mpr known) before
      | cons c rest =>
        have found : c = char := by simpa using stopped
        refine ⟨?_, fun member => before (List.mem_reverse.mp member)⟩
        rw [← List.reverse_reverse s, ← parts, found]
        simp
    · cases split
  · rintro ⟨rfl, last⟩
    have passes : ∀ c ∈ dataPart.reverse, decide (c ≠ char) = true := by
      intro c member
      rw [decide_eq_true_eq]
      rintro rfl
      exact last (List.mem_reverse.mp member)
    have turned : (hrp ++ char :: dataPart).reverse = dataPart.reverse ++ char :: hrp.reverse := by simp
    rw [if_pos (by simp), turned, List.takeWhile_append_of_pos passes, List.dropWhile_append_of_pos passes,
      List.takeWhile_cons_of_neg (by simp), List.dropWhile_cons_of_neg (by simp)]
    simp

theorem charset_nodup : CHARSET.Nodup := by decide +kernel

theorem charset_length : CHARSET.length = 32 := by decide +kernel

theorem mapM_indexOf? : s.mapM (indexOf? CHARSET) = some digits ↔
    Valid 32 digits ∧ s = digits.map fun digit => CHARSET.getD digit 0 := by
  induction s generalizing digits with
  | nil =>
    rw [List.mapM_nil]
    constructor
    · intro empty
      cases empty
      exact ⟨List.forall_mem_nil _, rfl⟩
    · rintro ⟨-, empty⟩
      rw [List.map_eq_nil_iff.mp empty.symm]
      rfl
  | cons char s ih =>
    have each : ∀ digit, indexOf? CHARSET char = some digit ↔ digit < 32 ∧ char = CHARSET.getD digit 0 := by
      intro digit
      rw [indexOf?_eq_some charset_nodup, charset_length]
    rw [List.mapM_cons]
    constructor
    · intro given
      obtain ⟨digit, first, rest⟩ := Option.bind_eq_some_iff.mp given
      obtain ⟨digits', others, last⟩ := Option.bind_eq_some_iff.mp rest
      cases last
      obtain ⟨valid, rfl⟩ := ih.mp others
      obtain ⟨small, rfl⟩ := (each digit).mp first
      exact ⟨List.forall_mem_cons.mpr ⟨small, valid⟩, rfl⟩
    · rintro ⟨valid, spelled⟩
      cases digits with
      | nil => cases spelled
      | cons digit digits =>
        obtain ⟨first, others⟩ := List.cons.inj spelled
        obtain ⟨small, valid⟩ := List.forall_mem_cons.mp valid
        rw [(each digit).mpr ⟨small, first⟩, ih.mpr ⟨valid, others⟩]
        rfl

end Splitting

section Decoding

variable {lower hrp : Text} {values words checksum : List ℕ} {d : DecodedSegwitAddress} {version pad : ℕ} {program : List UInt8}

theorem charset_ascii {digit : ℕ} (small : digit < 32) : CHARSET.getD digit 0 < 0x80 ∧ CHARSET.getD digit 0 ≠ 0x31 := by
  have all : ∀ char ∈ CHARSET, char < 0x80 ∧ char ≠ 0x31 := by decide +kernel
  exact all _ (getD_mem (charset_length ▸ small))

theorem dataPart_ascii (valid : Valid 32 values) : ∀ char ∈ values.map fun digit => CHARSET.getD digit 0, char < 0x80 := by
  intro char member
  obtain ⟨digit, used, rfl⟩ := List.mem_map.mp member
  exact (charset_ascii (valid digit used)).1

theorem no_separator (valid : Valid 32 values) : 0x31 ∉ values.map fun digit => CHARSET.getD digit 0 := by
  intro member
  obtain ⟨digit, used, same⟩ := List.mem_map.mp member
  exact (charset_ascii (valid digit used)).2 same

theorem hrpExpand_eq (ascii : ∀ char ∈ hrp, char < 0x80) : hrpExpand hrp = Bip173.hrpExpand hrp := by
  have code : ∀ char ∈ hrp, charCode char = char := by
    intro char member
    have small := ascii char member
    exact if_pos (by omega)
  have high : hrp.map (fun char => charCode char >>> 5) = hrp.map fun char => char >>> 5 :=
    List.map_congr_left fun char member => congrArg (· >>> 5) (code char member)
  have low : hrp.map (fun char => charCode char &&& 31) = hrp.map fun char => char &&& 31 :=
    List.map_congr_left fun char member => congrArg (· &&& 31) (code char member)
  rw [hrpExpand, Bip173.hrpExpand, high, low]

theorem checksum_eq (ascii : ∀ char ∈ hrp, char < 0x80) (valid : Valid 32 values) :
    (polymod (hrpExpand hrp ++ values)).toNat = Bip173.polymod (Bip173.hrpExpand hrp ++ values) := by
  rw [polymod_toNat, hrpExpand_eq ascii]
  intro v member
  rcases List.mem_append.mp member with expanded | data
  · rw [hrpExpand_eq ascii, Bip173.hrpExpand, List.mem_append, List.mem_cons] at expanded
    rcases expanded with high | rfl | low
    · obtain ⟨char, used, rfl⟩ := List.mem_map.mp high
      have small := ascii char used
      rw [Nat.shiftRight_eq_div_pow]
      omega
    · decide
    · obtain ⟨char, used, rfl⟩ := List.mem_map.mp low
      have small : char &&& 31 ≤ 31 := Nat.and_le_right
      omega
  · have small := valid v data
    omega

theorem constant_iff {checksum : BitVec 32} {version : ℕ} : (¬ (!decide (checksum = BECH32_CONST) && !decide (checksum = BECH32M_CONST)) = true ∧
    ¬ (version = 0 ∧ (!decide (checksum = BECH32_CONST)) = true) ∧ ¬ (version ≠ 0 ∧ (!decide (checksum = BECH32M_CONST)) = true)) ↔
      checksum.toNat = Bip173.constant version := by
  have first : checksum = BECH32_CONST ↔ checksum.toNat = 1 := BitVec.toNat_inj.symm
  have second : checksum = BECH32M_CONST ↔ checksum.toNat = 0x2bc830a3 := BitVec.toNat_inj.symm
  simp only [first, second, Bip173.constant]
  split <;> simp_all

theorem take_apart (long : 6 < values.length) : values =
    values.getD 0 0 :: (values.take (values.length - 6)).drop 1 ++ values.drop (values.length - 6) := by
  cases values with
  | nil => cases long
  | cons v rest =>
    have least : 6 ≤ rest.length := Nat.le_of_lt_succ long
    have count : (v :: rest).length - 6 = rest.length - 6 + 1 := by
      rw [List.length_cons]
      omega
    rw [count, List.take_succ_cons, List.drop_succ_cons]
    simp

theorem decodeLower_eq_some (ascii : ∀ char ∈ hrp, char < 0x80) (some_ : hrp ≠ []) : decodeLower lower hrp = some d ↔
    d.hrp = hrp ∧ ∃ words checksum pad, lower = Bip173.text hrp (d.witnessVersion :: words ++ checksum) ∧
      Bip173.Segwit hrp d.witnessVersion d.program words checksum pad := by
  have spelledAscii : ∀ {values}, Valid 32 values → ∀ char ∈ Bip173.text hrp values, char < 0x80 := by
    intro values valid
    refine List.forall_mem_append.mpr ⟨ascii, List.forall_mem_cons.mpr ⟨by decide, dataPart_ascii valid⟩⟩
  simp only [decodeLower, Option.bind_eq_bind, Option.bind_eq_some_iff, Option.ite_none_left_eq_some, Option.pure_def,
    Option.some.injEq, Prod.exists]
  constructor
  · rintro ⟨a, b, split, bounds, same, values, digits, one, result, converted, size, high, zero, other, twenty, rfl⟩
    obtain rfl := not_not.mp same
    obtain ⟨rfl, -⟩ := splitLast_eq_some.mp split
    obtain ⟨valid, rfl⟩ := mapM_indexOf?.mp digits
    have validWords : Valid 32 ((values.take (values.length - 6)).drop 1) := fun v member =>
      valid v (List.mem_of_mem_take (List.mem_of_mem_drop member))
    obtain ⟨pad, length, few, bytes, bits⟩ := (convertBits_eq_some validWords).mp converted
    have apart : values = values.getD 0 0 :: (values.take (values.length - 6)).drop 1 ++ values.drop (values.length - 6) := by
      refine take_apart ?_
      rw [List.length_drop, List.length_take] at length
      omega
    have long : 6 < values.length := by
      rw [List.length_drop, List.length_take] at length
      omega
    refine ⟨rfl, _, _, pad, by rw [← apart]; rfl, ?_⟩
    exact
      { short := by
          rw [← apart, ← length_ascii (spelledAscii valid)]
          exact Nat.not_lt.mp fun beyond => bounds (.inr (.inr beyond))
        validWords := validWords
        validChecksum := fun v member => valid v (List.mem_of_mem_drop member)
        six := by
          rw [List.length_drop]
          omega
        checks := by
          rw [← apart, ← checksum_eq ascii valid]
          exact constant_iff.mp ⟨one, zero, other⟩
        known := Nat.not_lt.mp high
        length := by rwa [List.length_map]
        few := few
        bits := by rwa [toNat_ofNat bytes]
        size := by
          rw [List.length_map]
          omega
        versionZero := by
          intro v0
          rw [List.length_map]
          by_contra neither
          exact twenty ⟨v0, by omega, by omega⟩ }
  · rintro ⟨rfl, words, checksum, pad, rfl, segwit⟩
    have small : d.witnessVersion < 32 := Nat.lt_of_le_of_lt segwit.known (by decide)
    have valid : Valid 32 (d.witnessVersion :: words ++ checksum) :=
      List.forall_mem_append.mpr ⟨List.forall_mem_cons.mpr ⟨small, segwit.validWords⟩, segwit.validChecksum⟩
    have short := segwit.short
    rw [← length_ascii (spelledAscii valid)] at short
    have six := segwit.six
    have count : (d.witnessVersion :: words ++ checksum).length - 6 = (d.witnessVersion :: words).length := by
      rw [List.length_append, six]
      omega
    have inner : (List.take ((d.witnessVersion :: words ++ checksum).length - 6) (d.witnessVersion :: words ++ checksum)).drop 1 =
        words := by
      rw [count, List.take_left]
      rfl
    have positive : 0 < d.hrp.length := List.length_pos_iff.mpr some_
    have size := segwit.size
    have checks := segwit.checks
    rw [← checksum_eq ascii valid] at checks
    obtain ⟨one, zero, other⟩ := constant_iff.mpr checks
    refine ⟨d.hrp, _, splitLast_eq_some.mpr ⟨rfl, no_separator valid⟩, ?_, not_not.mpr rfl, d.witnessVersion :: words ++ checksum,
      mapM_indexOf?.mpr ⟨valid, rfl⟩, one, d.program.map UInt8.toNat, ?_, ?_, ?_, zero, other, ?_, ?_⟩
    · have total := length_ascii (spelledAscii valid)
      have long : (Bip173.text d.hrp (d.witnessVersion :: words ++ checksum)).length = d.hrp.length + (words.length + 1 + 6 + 1) := by
        rw [Bip173.text, List.length_append, List.length_cons, List.length_map, List.length_append, six, List.length_cons]
      rw [length_ascii ascii]
      omega
    · rw [inner]
      refine (convertBits_eq_some segwit.validWords).mpr ⟨pad, ?_, segwit.few, valid_bytes _, segwit.bits⟩
      rw [List.length_map]
      exact segwit.length
    · rw [List.length_map]
      omega
    · exact Nat.not_lt.mpr segwit.known
    · rintro ⟨v0, not20, not32⟩
      rw [List.length_map] at not20 not32
      exact (segwit.versionZero v0).elim not20 not32
    · rw [ofNat_toNat]
      rfl

end Decoding

section Cases

open CaseMapping

variable {m : CaseMapping} {s t : Text} {d : DecodedSegwitAddress} {char : ℕ}

def Small (char : ℕ) : Prop := char < 0x80 ∧ ¬ (0x41 ≤ char ∧ char ≤ 0x5a)

def readKelvin (char : ℕ) : ℕ :=
  if char = kelvin then 0x4b else char

def withoutKelvin (s : Text) : Text :=
  -- the text with each Kelvin sign read as a K
  s.map readKelvin

theorem lowerPlain_eq (char : ℕ) : lowerPlain char = asciiLower (readKelvin char) := by
  unfold lowerPlain readKelvin
  split <;> rfl

theorem Small.lower (small : Small char) : asciiLower char = char := if_neg small.2

theorem Small.lower_upper (small : Small char) : asciiLower (asciiUpper char) = char := by
  have letter := small.2
  unfold asciiLower asciiUpper
  repeat' split
  all_goals omega

theorem asciiUpper_lower (fixed : asciiUpper char = char) : asciiUpper (asciiLower char) = char := by
  unfold asciiLower asciiUpper at *
  split at fixed
  next => omega
  next =>
    repeat' split
    all_goals omega

theorem asciiUpper_upper (char : ℕ) : asciiUpper (asciiUpper char) = asciiUpper char := by
  unfold asciiUpper
  repeat' split
  all_goals omega

theorem Small.upper_ascii (small : Small char) : asciiUpper char < 0x80 := by
  have ascii := small.1
  unfold asciiUpper
  split <;> omega

/-- A text of one case whose lower case is `t`, once its Kelvin signs are read. -/
theorem oneCase_iff (small : ∀ char ∈ t, Small char) :
    (¬ (s ≠ m.toLowerCase s ∧ s ≠ m.toUpperCase s) ∧ m.toLowerCase s = t) ↔
      (withoutKelvin s = t ∨ withoutKelvin s = t.map asciiUpper) := by
  have untouched : (∀ char ∈ s, char ≠ kelvin) → withoutKelvin s = s := fun none =>
    (List.map_congr_left fun char member => if_neg (none char member)).trans (List.map_id s)
  constructor
  · rintro ⟨oneCase, rfl⟩
    have plain : Plain s := m.plain_of_lower fun char member => (small char member).1
    by_cases same : s = m.toLowerCase s
    · left
      rw [← same]
      refine untouched ?_
      rintro char member rfl
      have ascii := (small kelvin (same ▸ member)).1
      unfold kelvin at ascii
      omega
    · right
      have upper : s = m.toUpperCase s := by
        by_contra differs
        exact oneCase ⟨same, differs⟩
      rw [m.toUpperCase_plain plain] at upper
      rw [m.toLowerCase_plain plain, withoutKelvin, List.map_map]
      refine List.map_congr_left fun char member => ?_
      have fixed : upperPlain char = char := by
        have all := (List.map_id s).trans upper
        exact (List.map_inj_left.mp all char member).symm
      rw [Function.comp_apply, lowerPlain_eq]
      unfold upperPlain at fixed
      unfold readKelvin
      split at fixed
      next is =>
        rw [if_pos is]
        rfl
      next other => rw [if_neg other, asciiUpper_lower fixed]
  · rintro (lower | upper)
    · have none : ∀ char ∈ s, char ≠ kelvin := by
        rintro char member rfl
        have read : readKelvin kelvin ∈ withoutKelvin s := List.mem_map_of_mem member
        have letter := (small _ (lower ▸ read)).2
        exact letter ⟨by decide, by decide⟩
      have same : s = t := (untouched none).symm.trans lower
      subst same
      have plain : Plain s := fun char member => .inl (small char member).1
      have fixed : m.toLowerCase s = s := by
        rw [m.toLowerCase_plain plain]
        refine (List.map_congr_left fun char member => ?_).trans (List.map_id s)
        rw [lowerPlain_eq, readKelvin, if_neg (none char member), (small char member).lower]
        rfl
      exact ⟨fun differs => differs.1 fixed.symm, fixed⟩
    · have each : ∀ char ∈ s, ∃ c ∈ t, asciiUpper c = readKelvin char := by
        intro char member
        have read : readKelvin char ∈ withoutKelvin s := List.mem_map_of_mem member
        rw [upper] at read
        exact List.mem_map.mp read
      have plain : Plain s := by
        intro char member
        obtain ⟨c, used, same⟩ := each char member
        have ascii := (small c used).upper_ascii
        rw [same] at ascii
        unfold readKelvin at ascii
        split at ascii
        next is => exact .inr is
        next => exact .inl ascii
      have lowered : m.toLowerCase s = t := by
        rw [m.toLowerCase_plain plain]
        calc s.map lowerPlain = (withoutKelvin s).map asciiLower := by
              rw [withoutKelvin, List.map_map]
              exact List.map_congr_left fun char _ => lowerPlain_eq char
          _ = (t.map asciiUpper).map asciiLower := by rw [upper]
          _ = t := by
              rw [List.map_map]
              exact (List.map_congr_left fun char member => (small char member).lower_upper).trans (List.map_id t)
      refine ⟨fun differs => differs.2 ?_, lowered⟩
      rw [m.toUpperCase_plain plain]
      refine (List.map_id s).symm.trans (List.map_congr_left fun char member => ?_)
      obtain ⟨c, -, same⟩ := each char member
      unfold upperPlain
      unfold readKelvin at same
      split
      next is => exact is
      next other =>
        rw [if_neg other] at same
        rw [← same, asciiUpper_upper]
        rfl

/-- `bc` or `tb` -/
inductive Hrp
  | bc
  | tb
  deriving DecidableEq

def Hrp.text : Hrp → Text
  | .bc => ofString "bc"
  | .tb => ofString "tb"

theorem Hrp.small (hrp : Hrp) : ∀ char ∈ hrp.text, Small char := by
  cases hrp <;> simp only [Small] <;> decide +kernel

theorem charset_small : ∀ char ∈ CHARSET, Small char := by
  simp only [Small]
  decide +kernel

theorem text_small {values : List ℕ} (hrp : Hrp) (valid : Valid 32 values) : ∀ char ∈ Bip173.text hrp.text values, Small char := by
  refine List.forall_mem_append.mpr ⟨hrp.small, List.forall_mem_cons.mpr ⟨⟨by decide, by decide⟩, ?_⟩⟩
  intro char member
  obtain ⟨digit, used, rfl⟩ := List.mem_map.mp member
  exact charset_small _ (getD_mem (charset_length ▸ valid digit used))

theorem segwit_valid {version pad : ℕ} {program : List UInt8} {words checksum : List ℕ}
    {hrp : Text} (segwit : Bip173.Segwit hrp version program words checksum pad) : Valid 32 (version :: words ++ checksum) :=
  List.forall_mem_append.mpr ⟨List.forall_mem_cons.mpr ⟨Nat.lt_of_le_of_lt segwit.known (by decide), segwit.validWords⟩,
    segwit.validChecksum⟩

theorem decodeSegwitAddress_parts (m : CaseMapping) (hrp : Hrp) (s : Text) : decodeSegwitAddress m s hrp.text = some d ↔
    ¬ (s ≠ m.toLowerCase s ∧ s ≠ m.toUpperCase s) ∧ d.hrp = hrp.text ∧ ∃ words checksum pad,
      m.toLowerCase s = Bip173.text hrp.text (d.witnessVersion :: words ++ checksum) ∧
        Bip173.Segwit hrp.text d.witnessVersion d.program words checksum pad := by
  have plain : Plain hrp.text := fun char member => .inl (hrp.small char member).1
  have expected : m.toLowerCase hrp.text = hrp.text := by
    cases hrp <;> rw [m.toLowerCase_plain plain] <;> decide +kernel
  have some_ : hrp.text ≠ [] := by cases hrp <;> decide +kernel
  unfold decodeSegwitAddress
  rw [expected, Option.ite_none_left_eq_some, decodeLower_eq_some (fun char member => (hrp.small char member).1) some_]

theorem decodeSegwitAddress_eq_some (m : CaseMapping) (hrp : Hrp) (s : Text) : decodeSegwitAddress m s hrp.text = some d ↔
    d.hrp = hrp.text ∧ Bip173.IsSegwitAddress hrp.text (withoutKelvin s) d.witnessVersion d.program := by
  -- the decoder accepts what is an address once the Kelvin signs are read, and gives its version and program
  rw [decodeSegwitAddress_parts]
  constructor
  · rintro ⟨oneCase, same, words, checksum, pad, lower, segwit⟩
    exact ⟨same, words, checksum, pad, segwit, (oneCase_iff (text_small hrp (segwit_valid segwit))).mp ⟨oneCase, lower⟩⟩
  · rintro ⟨same, words, checksum, pad, segwit, read⟩
    obtain ⟨oneCase, lower⟩ := (@oneCase_iff m s _ (text_small hrp (segwit_valid segwit))).mpr read
    exact ⟨oneCase, same, words, checksum, pad, lower, segwit⟩

theorem decoded_encodes {hrp : Hrp} (decoded : decodeSegwitAddress m s hrp.text = some d) :
    Bip173.encode d.hrp d.witnessVersion d.program = m.toLowerCase s := by
  obtain ⟨-, same, words, checksum, pad, lower, segwit⟩ := (decodeSegwitAddress_parts m hrp s).mp decoded
  rw [same, segwit.encode_eq, lower]

theorem accepted_iff (m : CaseMapping) (hrp : Hrp) (s : Text) : (decodeSegwitAddress m s hrp.text).isSome ↔
    ∃ version program, Bip173.IsSegwitAddress hrp.text (withoutKelvin s) version program := by
  rw [Option.isSome_iff_exists]
  constructor
  · rintro ⟨d, decoded⟩
    exact ⟨_, _, ((decodeSegwitAddress_eq_some m hrp s).mp decoded).2⟩
  · rintro ⟨version, program, address⟩
    exact ⟨⟨hrp.text, version, program⟩, (decodeSegwitAddress_eq_some m hrp s).mpr ⟨rfl, address⟩⟩

theorem address_no_kelvin {hrp : Hrp} {version : ℕ} {program : List UInt8}
    (address : Bip173.IsSegwitAddress hrp.text s version program) : kelvin ∉ s := by
  obtain ⟨words, checksum, pad, segwit, spelled⟩ := address
  have small := text_small hrp (segwit_valid segwit)
  intro member
  rcases spelled with rfl | rfl
  · exact absurd (small _ member).1 (by decide)
  · obtain ⟨char, used, same⟩ := List.mem_map.mp member
    have ascii := (small char used).upper_ascii
    rw [same] at ascii
    exact absurd ascii (by decide)

theorem withoutKelvin_eq (none : kelvin ∉ s) : withoutKelvin s = s := by
  refine (List.map_congr_left fun char member => if_neg ?_).trans (List.map_id s)
  rintro rfl
  exact none member

def DecodesExactly (m : CaseMapping) (hrp : Hrp) (s : Text) : Prop :=
  -- accepting exactly the valid addresses, and giving what they encode
  ((decodeSegwitAddress m s hrp.text).isSome ↔ ∃ version program, Bip173.IsSegwitAddress hrp.text s version program) ∧
    ∀ d, decodeSegwitAddress m s hrp.text = some d → Bip173.encode d.hrp d.witnessVersion d.program = m.toLowerCase s

/-- A text with a Kelvin sign is taken for the address that has a K there; no other text is decoded amiss. -/
theorem decodeSegwitAddress_exact_iff (m : CaseMapping) (hrp : Hrp) (s : Text) : DecodesExactly m hrp s ↔
    ¬ (kelvin ∈ s ∧ ∃ version program, Bip173.IsSegwitAddress hrp.text (withoutKelvin s) version program) := by
  unfold DecodesExactly
  rw [accepted_iff]
  constructor
  · rintro ⟨exact_, -⟩ ⟨kelvins, read⟩
    obtain ⟨version, program, address⟩ := exact_.mp read
    exact address_no_kelvin address kelvins
  · intro condition
    refine ⟨?_, fun d => decoded_encodes⟩
    by_cases kelvins : kelvin ∈ s
    · refine iff_of_false (fun read => condition ⟨kelvins, read⟩) ?_
      rintro ⟨version, program, address⟩
      exact address_no_kelvin address kelvins
    · rw [withoutKelvin_eq kelvins]

def basicCases : CaseMapping where
  -- a case mapping that is right about the characters of the address below
  lower _ char _ := if char = kelvin then [0x6b] else [asciiLower char]
  upper char := [asciiUpper char]
  lower_ascii _ char _ ascii := if_neg (by unfold kelvin; omega)
  lower_kelvin _ _ := if_pos rfl
  lower_other _ char _ high other := by
    rw [if_neg other]
    refine ⟨_, List.mem_singleton_self _, ?_⟩
    unfold asciiLower
    split <;> omega
  upper_ascii _ _ := rfl
  upper_kelvin := rfl

def kelvinAddress : Text :=
  -- an address of BIP-173 with U+212A for its K
  ofString "BC1QW508D6QEJXTDG4Y5R3ZARVARY0C5XW7\u212aV8F3T4"

theorem kelvinAddress_decoded : ¬ DecodesExactly basicCases .bc kelvinAddress := by
  rintro ⟨exact_, -⟩
  obtain ⟨version, program, address⟩ := exact_.mp (by decide +kernel)
  exact address_no_kelvin address (by decide +kernel)

end Cases

end VerdictVaut.Bech32
