import Mathlib.Algebra.Order.Field.Power
import Mathlib.Algebra.Order.Round
import Mathlib.Data.Int.Log
import Mathlib.Data.Rat.Floor
import Mathlib.Tactic.FieldSimp
import Mathlib.Tactic.Linarith
import Mathlib.Tactic.Positivity
import Mathlib.Tactic.Ring

set_option autoImplicit false

namespace Decimals

def roundHalfAway (x : ℚ) : ℤ :=
  -- the nearest integer; a tie goes away from zero
  if 0 ≤ x then round x else -round (-x)

/-- `x` at this many decimal places. -/
def toPlaces (places : ℕ) (x : ℚ) : ℚ :=
  roundHalfAway (x * 10 ^ places) / 10 ^ places

/-- One unit in the last of the significant digits of `x`. -/
def quantum (digits : ℕ) (x : ℚ) : ℚ :=
  10 ^ (Int.log 10 |x| + 1 - digits)

/-- `x` at this many significant digits. -/
def toSignificant (digits : ℕ) (x : ℚ) : ℚ :=
  roundHalfAway (x / quantum digits x) * quantum digits x

def Places (places : ℕ) (x : ℚ) : Prop :=
  ∃ units : ℤ, x = units / 10 ^ places

def Significant (digits : ℕ) (x : ℚ) : Prop :=
  ∃ m e : ℤ, |m| < 10 ^ digits ∧ x = m * 10 ^ e

section Nearest

variable {x : ℚ}

@[simp] theorem roundHalfAway_intCast (n : ℤ) : roundHalfAway n = n := by
  unfold roundHalfAway
  split
  · exact round_intCast n
  · rw [← Int.cast_neg, round_intCast, neg_neg]

@[simp] theorem roundHalfAway_zero : roundHalfAway 0 = 0 := by
  simpa using roundHalfAway_intCast 0

theorem roundHalfAway_of_nonneg (nonneg : 0 ≤ x) : roundHalfAway x = ⌊x + 1 / 2⌋ := by
  rw [roundHalfAway, if_pos nonneg, round_eq]

theorem roundHalfAway_neg (x : ℚ) : roundHalfAway (-x) = -roundHalfAway x := by
  unfold roundHalfAway
  rcases lt_trichotomy x 0 with negative | rfl | positive
  · rw [if_pos (by linarith), if_neg (not_le.mpr negative), neg_neg]
  · simp
  · rw [if_neg (by linarith), if_pos positive.le, neg_neg]

theorem abs_sub_roundHalfAway (x : ℚ) : |x - roundHalfAway x| ≤ 1 / 2 := by
  unfold roundHalfAway
  split
  · exact abs_sub_round x
  · have bound := abs_sub_round (-x)
    rwa [← abs_neg, neg_sub, sub_neg_eq_add, add_comm, ← sub_neg_eq_add, ← Int.cast_neg] at bound

theorem roundHalfAway_intCast_add {n : ℤ} (whole : 0 ≤ n) (nonneg : 0 ≤ x) :
    roundHalfAway (n + x) = n + roundHalfAway x := by
  have sum : (0 : ℚ) ≤ n + x := add_nonneg (by exact_mod_cast whole) nonneg
  rw [roundHalfAway_of_nonneg sum, roundHalfAway_of_nonneg nonneg, add_assoc, Int.floor_intCast_add]

theorem roundHalfAway_nonneg (nonneg : 0 ≤ x) : 0 ≤ roundHalfAway x := by
  rw [roundHalfAway_of_nonneg nonneg]
  exact Int.floor_nonneg.mpr (by linarith)

theorem roundHalfAway_mono {y : ℚ} (le : x ≤ y) : roundHalfAway x ≤ roundHalfAway y := by
  rcases le_total 0 x with nonneg | negative
  next =>
    rw [roundHalfAway_of_nonneg nonneg, roundHalfAway_of_nonneg (nonneg.trans le)]
    exact Int.floor_mono (by linarith)
  next =>
    have below : roundHalfAway x = -roundHalfAway (-x) := by rw [roundHalfAway_neg, neg_neg]
    have down := roundHalfAway_nonneg (neg_nonneg.mpr negative)
    rcases le_total 0 y with nonneg | negative'
    next =>
      have up := roundHalfAway_nonneg nonneg
      omega
    next =>
      have above : roundHalfAway y = -roundHalfAway (-y) := by rw [roundHalfAway_neg, neg_neg]
      rw [below, above, roundHalfAway_of_nonneg (neg_nonneg.mpr negative),
        roundHalfAway_of_nonneg (neg_nonneg.mpr negative')]
      exact neg_le_neg (Int.floor_mono (by linarith))

end Nearest

section Columns

variable {places : ℕ} {x y : ℚ}

theorem Places.add (left : Places places x) (right : Places places y) : Places places (x + y) := by
  obtain ⟨m, rfl⟩ := left
  obtain ⟨n, rfl⟩ := right
  exact ⟨m + n, by push_cast; ring⟩

theorem Places.neg (fits : Places places x) : Places places (-x) := by
  obtain ⟨m, rfl⟩ := fits
  exact ⟨-m, by push_cast; ring⟩

theorem Places.sub (left : Places places x) (right : Places places y) : Places places (x - y) := by
  rw [sub_eq_add_neg]
  exact left.add right.neg

theorem Places.finer {more : ℕ} (fits : Places places x) (le : places ≤ more) : Places more x := by
  obtain ⟨units, rfl⟩ := fits
  refine ⟨units * 10 ^ (more - places), ?_⟩
  rw [← Nat.add_sub_cancel' le, pow_add, Nat.add_sub_cancel_left]
  push_cast
  rw [mul_div_mul_right _ _ (by positivity)]

theorem Places.toPlaces (x : ℚ) : Places places (toPlaces places x) := ⟨_, rfl⟩

theorem toPlaces_units (places : ℕ) (units : ℚ) :
    toPlaces places (units / 10 ^ places) = roundHalfAway units / 10 ^ places := by
  rw [toPlaces, div_mul_cancel₀ units (by positivity)]

theorem toPlaces_eq_self_iff : toPlaces places x = x ↔ Places places x := by
  constructor
  · intro same
    exact ⟨_, same.symm⟩
  · rintro ⟨units, rfl⟩
    rw [toPlaces_units, roundHalfAway_intCast]

theorem toPlaces_mono (places : ℕ) (le : x ≤ y) : toPlaces places x ≤ toPlaces places y := by
  have rounded : roundHalfAway (x * 10 ^ places) ≤ roundHalfAway (y * 10 ^ places) :=
    roundHalfAway_mono (mul_le_mul_of_nonneg_right le (by positivity))
  unfold toPlaces
  gcongr

theorem abs_sub_toPlaces (places : ℕ) (x : ℚ) : |x - toPlaces places x| ≤ 1 / 2 / 10 ^ places := by
  have scale : (0 : ℚ) < 10 ^ places := by positivity
  have units : x - toPlaces places x = (x * 10 ^ places - roundHalfAway (x * 10 ^ places)) / 10 ^ places := by
    unfold toPlaces
    field_simp
  rw [units, abs_div, abs_of_pos scale]
  exact div_le_div_of_nonneg_right (abs_sub_roundHalfAway _) scale.le

theorem toPlaces_neg (places : ℕ) (x : ℚ) : toPlaces places (-x) = -toPlaces places x := by
  rw [toPlaces, neg_mul, roundHalfAway_neg, toPlaces]
  push_cast
  ring

end Columns

section Digits

variable {digits : ℕ} {x : ℚ}

theorem quantum_pos (digits : ℕ) (x : ℚ) : 0 < quantum digits x := by
  unfold quantum
  positivity

theorem quantum_neg (digits : ℕ) (x : ℚ) : quantum digits (-x) = quantum digits x := by
  rw [quantum, abs_neg, quantum]

theorem toSignificant_neg (digits : ℕ) (x : ℚ) : toSignificant digits (-x) = -toSignificant digits x := by
  rw [toSignificant, quantum_neg, neg_div, roundHalfAway_neg, toSignificant]
  push_cast
  ring

@[simp] theorem toSignificant_zero (digits : ℕ) : toSignificant digits 0 = 0 := by
  simp [toSignificant]

theorem abs_lt_quantum_mul (digits : ℕ) (x : ℚ) : |x| < quantum digits x * 10 ^ digits := by
  have below := Int.lt_zpow_succ_log_self (by norm_num : 1 < 10) |x|
  have scale : quantum digits x * 10 ^ digits = 10 ^ (Int.log 10 |x| + 1) := by
    rw [quantum, ← zpow_natCast, ← zpow_add₀ (by norm_num)]
    congr 1
    omega
  rw [scale]
  exact_mod_cast below

theorem quantum_le_abs (kept : 0 < digits) (some : x ≠ 0) : quantum digits x ≤ |x| := by
  refine le_trans ?_ (Int.zpow_log_le_self (by norm_num : 1 < 10) (abs_pos.mpr some))
  rw [quantum]
  push_cast
  exact zpow_le_zpow_right₀ (by norm_num) (by omega)

theorem quantum_mul_le_abs (kept : 0 < digits) (some : x ≠ 0) : quantum digits x * 10 ^ (digits - 1) ≤ |x| := by
  have least := Int.zpow_log_le_self (by norm_num : 1 < 10) (abs_pos.mpr some)
  have leading : quantum digits x * 10 ^ (digits - 1) = 10 ^ Int.log 10 |x| := by
    rw [quantum, ← zpow_natCast, ← zpow_add₀ (by norm_num)]
    congr 1
    omega
  rw [leading]
  exact_mod_cast least

theorem abs_toSignificant_le (kept : 0 < digits) (x : ℚ) : |toSignificant digits x| ≤ 2 * |x| := by
  by_cases zero : x = 0
  · simp [zero]
  have unit := quantum_pos digits x
  have small := quantum_le_abs kept zero
  have nearest := abs_sub_roundHalfAway (x / quantum digits x)
  have apart : x - toSignificant digits x =
      (x / quantum digits x - roundHalfAway (x / quantum digits x)) * quantum digits x := by
    rw [toSignificant, sub_mul, div_mul_cancel₀ _ unit.ne']
  have moved : |x - toSignificant digits x| ≤ 1 / 2 * quantum digits x := by
    rw [apart, abs_mul, abs_of_pos unit]
    exact mul_le_mul_of_nonneg_right nearest unit.le
  have close := abs_sub_abs_le_abs_sub (toSignificant digits x) x
  rw [abs_sub_comm] at close
  linarith

theorem pow_le_toSignificant (kept : 0 < digits) {k : ℤ} (above : (10 : ℚ) ^ k ≤ x) :
    (10 : ℚ) ^ k ≤ toSignificant digits x := by
  have positive : 0 < x := lt_of_lt_of_le (by positivity) above
  have unit := quantum_pos digits x
  have leading : (10 : ℚ) ^ Int.log 10 |x| ≤ x := by
    have least := Int.zpow_log_le_self (by norm_num : 1 < 10) (abs_pos.mpr positive.ne')
    rw [abs_of_pos positive] at least ⊢
    exact_mod_cast least
  have order : k ≤ Int.log 10 |x| := by
    rw [abs_of_pos positive]
    exact (Int.zpow_le_iff_le_log (by norm_num) positive).mp (by exact_mod_cast above)
  have scale : (10 : ℚ) ^ Int.log 10 |x| = ((10 ^ (digits - 1) : ℤ) : ℚ) * quantum digits x := by
    push_cast
    rw [quantum, ← zpow_natCast, ← zpow_add₀ (by norm_num)]
    congr 1
    omega
  have rounded : 10 ^ (digits - 1) ≤ roundHalfAway (x / quantum digits x) := by
    rw [← roundHalfAway_intCast (10 ^ (digits - 1))]
    apply roundHalfAway_mono
    rw [le_div_iff₀ unit, ← scale]
    exact leading
  calc (10 : ℚ) ^ k ≤ 10 ^ Int.log 10 |x| := zpow_le_zpow_right₀ (by norm_num) order
    _ = ((10 ^ (digits - 1) : ℤ) : ℚ) * quantum digits x := scale
    _ ≤ toSignificant digits x := mul_le_mul_of_nonneg_right (by exact_mod_cast rounded) unit.le

theorem toSignificant_le_pow {k : ℤ} (nonneg : 0 ≤ x) (below : x < 10 ^ k) : toSignificant digits x ≤ 10 ^ k := by
  rcases nonneg.eq_or_lt with rfl | positive
  · rw [toSignificant_zero]
    positivity
  have unit := quantum_pos digits x
  have order : Int.log 10 |x| + 1 ≤ k := by
    rw [abs_of_pos positive]
    exact (Int.lt_zpow_iff_log_lt (by norm_num) positive).mp (by exact_mod_cast below)
  have small : x / quantum digits x ≤ ((10 ^ digits : ℤ) : ℚ) := by
    rw [div_le_iff₀ unit, mul_comm]
    push_cast
    exact (le_abs_self x).trans (abs_lt_quantum_mul digits x).le
  have rounded := roundHalfAway_mono small
  rw [roundHalfAway_intCast] at rounded
  calc toSignificant digits x ≤ ((10 ^ digits : ℤ) : ℚ) * quantum digits x :=
        mul_le_mul_of_nonneg_right (by exact_mod_cast rounded) unit.le
    _ = 10 ^ (Int.log 10 |x| + 1) := by
        push_cast
        rw [quantum, ← zpow_natCast, ← zpow_add₀ (by norm_num)]
        congr 1
        omega
    _ ≤ 10 ^ k := zpow_le_zpow_right₀ (by norm_num) order

theorem toSignificant_mono (kept : 0 < digits) {y : ℚ} (nonneg : 0 ≤ x) (le : x ≤ y) :
    toSignificant digits x ≤ toSignificant digits y := by
  -- two values between the same powers of ten have one unit, any others a power of ten between them
  rcases nonneg.eq_or_lt with rfl | positive
  · rw [toSignificant_zero, toSignificant]
    have rounded := roundHalfAway_nonneg (div_nonneg le (quantum_pos digits y).le)
    exact mul_nonneg (by exact_mod_cast rounded) (quantum_pos digits y).le
  have order : Int.log 10 |x| ≤ Int.log 10 |y| := by
    rw [abs_of_pos positive, abs_of_pos (positive.trans_le le)]
    exact Int.log_mono_right positive le
  rcases order.eq_or_lt with same | apart
  · have unit := quantum_pos digits y
    have equal : quantum digits x = quantum digits y := by rw [quantum, same, quantum]
    rw [toSignificant, toSignificant, equal]
    have rounded := roundHalfAway_mono (div_le_div_of_nonneg_right le unit.le)
    exact mul_le_mul_of_nonneg_right (by exact_mod_cast rounded) unit.le
  · have least := Int.zpow_log_le_self (by norm_num : 1 < 10) (positive.trans_le le)
    have next := Int.lt_zpow_succ_log_self (by norm_num : 1 < 10) x
    rw [abs_of_pos positive, abs_of_pos (positive.trans_le le)] at apart
    refine (toSignificant_le_pow nonneg (by exact_mod_cast next)).trans ?_
    refine pow_le_toSignificant kept (le_trans ?_ (by exact_mod_cast least : (10 : ℚ) ^ Int.log 10 y ≤ y))
    exact zpow_le_zpow_right₀ (by norm_num) apart

theorem toSignificant_eq_self_iff : toSignificant digits x = x ↔ Significant digits x := by
  -- rounding keeps exactly the values that have no more digits than are kept
  have unit := quantum_pos digits x
  constructor
  · intro same
    refine ⟨roundHalfAway (x / quantum digits x), Int.log 10 |x| + 1 - digits, ?_, same.symm⟩
    have small := abs_lt_quantum_mul digits x
    nth_rewrite 1 [← same] at small
    rw [toSignificant, abs_mul, abs_of_pos unit, mul_comm] at small
    exact_mod_cast lt_of_mul_lt_mul_left small unit.le
  · rintro ⟨m, e, small, rfl⟩
    by_cases zero : m = 0
    · simp [zero]
    -- the digits that the value has start no lower than the last digit that is kept
    have positive : 0 < |(m : ℚ) * 10 ^ e| := abs_pos.mpr (by positivity)
    have below : Int.log 10 |(m : ℚ) * 10 ^ e| < digits + e := by
      refine (Int.lt_zpow_iff_log_lt (by norm_num) positive).mp ?_
      rw [abs_mul, abs_of_pos (by positivity : (0 : ℚ) < 10 ^ e)]
      push_cast
      rw [zpow_add₀ (by norm_num), zpow_natCast]
      exact mul_lt_mul_of_pos_right (by exact_mod_cast small) (by positivity)
    obtain ⟨k, shift⟩ : ∃ k : ℕ, e = Int.log 10 |(m : ℚ) * 10 ^ e| + 1 - digits + k :=
      ⟨(e - (Int.log 10 |(m : ℚ) * 10 ^ e| + 1 - digits)).toNat, by omega⟩
    have whole : (m : ℚ) * 10 ^ e / quantum digits ((m : ℚ) * 10 ^ e) = ((m * 10 ^ k : ℤ) : ℚ) := by
      rw [div_eq_iff unit.ne', quantum]
      nth_rewrite 1 [shift]
      rw [zpow_add₀ (by norm_num), zpow_natCast]
      push_cast
      ring
    rw [toSignificant, whole, roundHalfAway_intCast, ← whole, div_mul_cancel₀ _ unit.ne']

instance : Decidable (Significant digits x) := decidable_of_iff _ toSignificant_eq_self_iff

theorem toSignificant_eq_zero_iff (kept : 0 < digits) : toSignificant digits x = 0 ↔ x = 0 := by
  constructor
  · intro zero
    by_contra given
    have unit := quantum_pos digits x
    have least : (10 : ℚ) ^ Int.log 10 |x| ≤ |x| := by
      exact_mod_cast Int.zpow_log_le_self (by norm_num : 1 < 10) (abs_pos.mpr given)
    have scale : quantum digits x ≤ 10 ^ Int.log 10 |x| := zpow_le_zpow_right₀ (by norm_num) (by omega)
    have rounded : roundHalfAway (x / quantum digits x) = 0 := by
      rcases mul_eq_zero.mp zero with whole | none
      · exact_mod_cast whole
      · exact absurd none unit.ne'
    have near := abs_sub_roundHalfAway (x / quantum digits x)
    rw [rounded, Int.cast_zero, sub_zero, abs_div, abs_of_pos unit, div_le_iff₀ unit] at near
    linarith
  · rintro rfl
    exact toSignificant_zero digits

theorem Places.significant {places : ℕ} (fits : Places places x) (kept : 0 < digits)
    (small : |x| * 10 ^ places ≤ 10 ^ digits) : Significant digits x := by
  -- up to this size every value with so many decimal places has few enough digits
  obtain ⟨units, rfl⟩ := fits
  rw [abs_div, abs_of_pos (by positivity : (0 : ℚ) < 10 ^ places), div_mul_cancel₀ _ (by positivity)] at small
  have bounded : |units| ≤ 10 ^ digits := by exact_mod_cast small
  rcases bounded.lt_or_eq with below | top
  · exact ⟨units, -places, below, by rw [zpow_neg, zpow_natCast, div_eq_mul_inv]⟩
  · -- one followed by zeros is a single digit
    have one : (1 : ℤ) < 10 ^ digits := one_lt_pow₀ (by norm_num) kept.ne'
    have scale : (10 : ℚ) ^ ((digits : ℤ) - places) = 10 ^ digits / 10 ^ places := by
      rw [zpow_sub₀ (by norm_num), zpow_natCast, zpow_natCast]
    rcases abs_eq (by positivity) |>.mp top with rfl | rfl
    · exact ⟨1, digits - places, by simpa using one, by rw [scale]; push_cast; ring⟩
    · exact ⟨-1, digits - places, by simpa using one, by rw [scale]; push_cast; ring⟩

theorem Places.toSignificant {places : ℕ} (fits : Places places x) (digits : ℕ) :
    Places places (toSignificant digits x) := by
  have unit := quantum_pos digits x
  rcases le_total 0 (Int.log 10 |x| + 1 - digits + places) with above | below
  · obtain ⟨k, shift⟩ := Int.eq_ofNat_of_zero_le above
    refine ⟨roundHalfAway (x / quantum digits x) * 10 ^ k, ?_⟩
    have power : quantum digits x = 10 ^ k / 10 ^ places := by
      rw [quantum, show Int.log 10 |x| + 1 - digits = (k : ℤ) - places by omega, zpow_sub₀ (by norm_num), zpow_natCast,
        zpow_natCast]
    rw [Decimals.toSignificant, power]
    push_cast
    ring
  · -- the last digit that is kept lies beyond the places that the value has
    obtain ⟨k, shift⟩ := Int.eq_ofNat_of_zero_le (neg_nonneg.mpr below)
    obtain ⟨units, same⟩ := fits
    have whole : x / quantum digits x = ((units * 10 ^ k : ℤ) : ℚ) := by
      rw [div_eq_iff unit.ne', quantum, show Int.log 10 |x| + 1 - digits = -(places : ℤ) - k by omega,
        zpow_sub₀ (by norm_num), zpow_neg, zpow_natCast, zpow_natCast]
      nth_rewrite 1 [same]
      push_cast
      field_simp
    rw [Decimals.toSignificant, whole, roundHalfAway_intCast, ← whole, div_mul_cancel₀ _ unit.ne']
    exact ⟨units, same⟩

theorem Significant.dvd_ten {places : ℕ} {units : ℤ} (fits : Significant digits ((units : ℚ) / 10 ^ places))
    (long : 10 ^ digits ≤ |units|) : (10 : ℤ) ∣ units := by
  -- a value with this many digits or more before its last decimal place is a multiple of the next power of ten
  obtain ⟨m, e, small, same⟩ := fits
  have whole : (units : ℚ) = m * 10 ^ (e + places) := by
    rw [zpow_add₀ (by norm_num), zpow_natCast, ← mul_assoc, ← same, div_mul_cancel₀ _ (by positivity)]
  have shifted : 0 < e + places := by
    by_contra low
    have most : |(units : ℚ)| ≤ |(m : ℚ)| := by
      rw [whole, abs_mul, abs_of_pos (by positivity : (0 : ℚ) < 10 ^ (e + places))]
      exact mul_le_of_le_one_right (abs_nonneg _) (zpow_le_one_of_nonpos₀ (by norm_num) (by omega))
    have most' : |units| ≤ |m| := by exact_mod_cast most
    omega
  obtain ⟨k, shift⟩ : ∃ k : ℕ, e + places = k + 1 := ⟨(e + places - 1).toNat, by omega⟩
  refine ⟨m * 10 ^ k, ?_⟩
  have power : (units : ℚ) = ((10 * (m * 10 ^ k) : ℤ) : ℚ) := by
    rw [whole, shift, zpow_add₀ (by norm_num), zpow_natCast, zpow_one]
    push_cast
    ring
  exact_mod_cast power

end Digits

end Decimals
