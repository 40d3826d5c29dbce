import VerdictVaut.Shared.Rounding

set_option autoImplicit false

-- a value that is rounded to significant digits first and to decimal places then
namespace Decimals

/-- `x` at so many significant digits, and what that leaves at so many places. -/
def stored (digits places : ℕ) (x : ℚ) : ℚ := toPlaces places (toSignificant digits x)

/-- One unit in the last digit of `x` that both roundings keep. -/
def unit (digits places : ℕ) (x : ℚ) : ℚ := max (quantum digits x) (1 / 10 ^ places)

/-- By how much less than a half a value is rounded up, when the first rounding keeps more places than the second. -/
def lead (digits places : ℕ) (x : ℚ) : ℚ :=
  if quantum digits x < 1 / 10 ^ places then quantum digits x * 10 ^ places else 0

/-- What is left of `x` below its unit is enough for it to be rounded up. -/
def RoundsUp (digits places : ℕ) (x : ℚ) : Prop :=
  (1 - lead digits places x) / 2 ≤ Int.fract (x / unit digits places x)

/-- `x` lies so close to a multiple of `step`, in its own units, that it is rounded to it. -/
def Near (digits places : ℕ) (step x : ℚ) : Prop :=
  ∃ c : ℤ, -((1 + lead digits places x) / 2) ≤ (x - c * step) / unit digits places x ∧
    (x - c * step) / unit digits places x < (1 - lead digits places x) / 2

section Units

variable {digits places : ℕ} {x y : ℚ}

theorem unit_eq (digits places : ℕ) (x : ℚ) :
    unit digits places x = 10 ^ max (Int.log 10 |x| + 1 - digits) (-(places : ℤ)) := by
  have mono : Monotone fun e : ℤ => (10 : ℚ) ^ e := zpow_right_mono₀ (by norm_num)
  rw [mono.map_max, unit, quantum, zpow_neg, zpow_natCast, one_div]

theorem unit_pos (digits places : ℕ) (x : ℚ) : 0 < unit digits places x := by
  rw [unit_eq]
  positivity

theorem place_le_unit (digits places : ℕ) (x : ℚ) : 1 / 10 ^ places ≤ unit digits places x := le_max_right _ _

theorem unit_dvd (le : unit digits places x ≤ unit digits places y) :
    ∃ k : ℕ, unit digits places y = 10 ^ k * unit digits places x := by
  rw [unit_eq, unit_eq] at le ⊢
  have order := (zpow_le_zpow_iff_right₀ (by norm_num : (1 : ℚ) < 10)).mp le
  obtain ⟨k, shift⟩ := Int.eq_ofNat_of_zero_le (sub_nonneg.mpr order)
  refine ⟨k, ?_⟩
  rw [← zpow_natCast, ← zpow_add₀ (by norm_num), ← shift]
  congr 1
  ring

theorem quantum_lt_place : quantum digits x < 1 / 10 ^ places ↔ Int.log 10 |x| + 1 - digits < -(places : ℤ) := by
  rw [quantum, one_div, ← zpow_natCast, ← zpow_neg]
  exact zpow_lt_zpow_iff_right₀ (by norm_num)

theorem unit_of_coarse (coarse : ¬ quantum digits x < 1 / 10 ^ places) : unit digits places x = quantum digits x :=
  max_eq_left (not_lt.mp coarse)

theorem unit_of_fine (fine : quantum digits x < 1 / 10 ^ places) : unit digits places x = 1 / 10 ^ places :=
  max_eq_right fine.le

theorem lead_nonneg (digits places : ℕ) (x : ℚ) : 0 ≤ lead digits places x := by
  unfold lead
  split
  next => exact mul_nonneg (quantum_pos digits x).le (by positivity)
  next => exact le_rfl

theorem lead_of_coarse (coarse : ¬ quantum digits x < 1 / 10 ^ places) : lead digits places x = 0 := if_neg coarse

theorem quantum_of_fine (fine : quantum digits x < 1 / 10 ^ places) :
    ∃ k : ℕ, quantum digits x = 1 / 10 ^ places / (10 * 10 ^ k) := by
  have order := quantum_lt_place.mp fine
  obtain ⟨k, shift⟩ := Int.eq_ofNat_of_zero_le (Int.sub_nonneg.mpr (Int.add_one_le_iff.mpr order))
  refine ⟨k, ?_⟩
  have exponent : Int.log 10 |x| + 1 - digits = -(places : ℤ) - 1 - k := by omega
  rw [quantum, exponent, zpow_sub₀ (by norm_num), zpow_sub₀ (by norm_num), zpow_neg, zpow_natCast, zpow_natCast, zpow_one]
  field_simp

theorem lead_le (digits places : ℕ) (x : ℚ) : lead digits places x ≤ 1 / 10 := by
  unfold lead
  split
  next fine =>
    obtain ⟨k, same⟩ := quantum_of_fine fine
    have more : (1 : ℚ) ≤ 10 ^ k := one_le_pow₀ (by norm_num)
    have scaled : 1 / 10 ^ places / (10 * 10 ^ k) * 10 ^ places = (1 : ℚ) / (10 * 10 ^ k) := by field_simp
    rw [same, scaled]
    exact one_div_le_one_div_of_le (by norm_num) (by linarith)
  next => norm_num

theorem quantum_of_coarse (coarse : ¬ quantum digits x < 1 / 10 ^ places) :
    ∃ k : ℕ, quantum digits x = 10 ^ k / 10 ^ places := by
  have order := not_lt.mp (mt quantum_lt_place.mpr coarse)
  obtain ⟨k, shift⟩ := Int.eq_ofNat_of_zero_le (Int.sub_nonneg.mpr order)
  refine ⟨k, ?_⟩
  have exponent : Int.log 10 |x| + 1 - digits = (k : ℤ) - places := by omega
  rw [quantum, exponent, zpow_sub₀ (by norm_num), zpow_natCast, zpow_natCast]

end Units

section Stored

variable {digits places : ℕ} {x y : ℚ}

theorem floor_floor_div (a : ℚ) {n : ℕ} (positive : 0 < n) : ⌊((⌊a⌋ : ℤ) : ℚ) / n⌋ = ⌊a / n⌋ := by
  have scale : (0 : ℚ) < n := by exact_mod_cast positive
  refine Int.floor_eq_iff.mpr ⟨?_, ?_⟩
  · rw [le_div_iff₀ scale]
    have below : (⌊a / n⌋ * n : ℤ) ≤ ⌊a⌋ := by
      rw [Int.le_floor]
      push_cast
      exact (le_div_iff₀ scale).mp (Int.floor_le _)
    exact_mod_cast below
  · exact (div_le_div_of_nonneg_right (Int.floor_le a) scale.le).trans_lt (Int.lt_floor_add_one _)

theorem stored_of_coarse (coarse : ¬ quantum digits x < 1 / 10 ^ places) : stored digits places x = toSignificant digits x := by
  obtain ⟨k, same⟩ := quantum_of_coarse coarse
  refine toPlaces_eq_self_iff.mpr ⟨roundHalfAway (x / quantum digits x) * 10 ^ k, ?_⟩
  rw [toSignificant]
  nth_rewrite 2 [same]
  push_cast
  ring

theorem stored_of_nonneg (nonneg : 0 ≤ x) : stored digits places x =
    ⌊x / unit digits places x + (1 + lead digits places x) / 2⌋ * unit digits places x := by
  have positive := quantum_pos digits x
  have quotient : 0 ≤ x / quantum digits x := div_nonneg nonneg positive.le
  by_cases fine : quantum digits x < 1 / 10 ^ places
  next =>
    obtain ⟨k, same⟩ := quantum_of_fine fine
    -- half a place is a whole number of the finer units
    have scaled : toSignificant digits x * 10 ^ places = (⌊x / quantum digits x + 1 / 2⌋ : ℚ) / (10 * 10 ^ k) := by
      rw [toSignificant, roundHalfAway_of_nonneg quotient]
      generalize ⌊x / quantum digits x + 1 / 2⌋ = n
      rw [same]
      field_simp
    have whole : (⌊x / quantum digits x + 1 / 2⌋ : ℚ) / (10 * 10 ^ k) + 1 / 2 =
        ((⌊x / quantum digits x + 1 / 2 + ((5 * 10 ^ k : ℤ) : ℚ)⌋ : ℤ) : ℚ) / ((10 * 10 ^ k : ℕ) : ℚ) := by
      rw [Int.floor_add_intCast]
      push_cast
      field_simp
      ring
    have rounded : (0 : ℚ) ≤ (⌊x / quantum digits x + 1 / 2⌋ : ℚ) / (10 * 10 ^ k) := by
      have floor : 0 ≤ ⌊x / quantum digits x + 1 / 2⌋ := Int.floor_nonneg.mpr (by linarith)
      have floor' : (0 : ℚ) ≤ (⌊x / quantum digits x + 1 / 2⌋ : ℚ) := by exact_mod_cast floor
      positivity
    rw [stored, toPlaces, scaled, roundHalfAway_of_nonneg rounded, whole, floor_floor_div _ (by positivity),
      unit_of_fine fine, lead, if_pos fine, ← mul_one_div]
    congr 3
    rw [same]
    push_cast
    field_simp
    ring
  next =>
    rw [stored_of_coarse fine, toSignificant, roundHalfAway_of_nonneg quotient, unit_of_coarse fine, lead_of_coarse fine,
      add_zero]

theorem stored_nonneg (nonneg : 0 ≤ x) : 0 ≤ stored digits places x := by
  have positive := unit_pos digits places x
  have least := lead_nonneg digits places x
  have quotient : 0 ≤ x / unit digits places x := div_nonneg nonneg positive.le
  have floor : 0 ≤ ⌊x / unit digits places x + (1 + lead digits places x) / 2⌋ := Int.floor_nonneg.mpr (by linarith)
  rw [stored_of_nonneg nonneg]
  exact mul_nonneg (by exact_mod_cast floor) positive.le

theorem stored_le (nonneg : 0 ≤ x) : stored digits places x ≤ x + (quantum digits x + 1 / 10 ^ places) := by
  have positive := unit_pos digits places x
  have most := lead_le digits places x
  have large : unit digits places x ≤ quantum digits x + 1 / 10 ^ places :=
    max_le (by linarith [show (0 : ℚ) < 1 / 10 ^ places by positivity]) (by linarith [quantum_pos digits x])
  have below := Int.floor_le (x / unit digits places x + (1 + lead digits places x) / 2)
  have scaled := mul_le_mul_of_nonneg_right below positive.le
  rw [add_mul, div_mul_cancel₀ _ positive.ne'] at scaled
  have part : (1 + lead digits places x) / 2 * unit digits places x ≤ 1 * unit digits places x :=
    mul_le_mul_of_nonneg_right (by linarith) positive.le
  rw [stored_of_nonneg nonneg]
  linarith

end Stored

section Splitting

variable {digits places : ℕ} {w z : ℚ}

theorem stored_eq_mul_iff (nonneg : 0 ≤ z) (n : ℤ) : stored digits places z = n * unit digits places z ↔
    -((1 + lead digits places z) / 2) ≤ z / unit digits places z - n ∧
      z / unit digits places z - n < (1 - lead digits places z) / 2 := by
  -- the nearest multiple of the unit, a value with so little left counting for the next one
  have positive := unit_pos digits places z
  rw [stored_of_nonneg nonneg, mul_left_inj' positive.ne', Int.cast_inj, Int.floor_eq_iff]
  constructor
  · rintro ⟨below, above⟩
    exact ⟨by linarith, by linarith⟩
  · rintro ⟨below, above⟩
    exact ⟨by linarith, by linarith⟩

theorem near_iff (nonneg : 0 ≤ z) {step : ℚ} {k : ℕ} (coarser : step = 10 ^ k * unit digits places z) :
    Near digits places step z ↔ ∃ c : ℤ, stored digits places z = c * step := by
  -- a value near a multiple of a coarser unit is the one that is rounded to it
  have positive := unit_pos digits places z
  have multiple (c : ℤ) : (z - c * step) / unit digits places z = z / unit digits places z - ((c * 10 ^ k : ℤ) : ℚ) := by
    rw [coarser, sub_div]
    push_cast
    field_simp
  have product (c : ℤ) : (c : ℚ) * step = ((c * 10 ^ k : ℤ) : ℚ) * unit digits places z := by
    rw [coarser]
    push_cast
    ring
  refine exists_congr fun c => ?_
  rw [multiple, product, stored_eq_mul_iff nonneg]

theorem lt_stored_of_roundsUp (nonneg : 0 ≤ z) (up : RoundsUp digits places z) : z < stored digits places z := by
  have positive := unit_pos digits places z
  have most := lead_le digits places z
  have split := Int.floor_add_fract (z / unit digits places z)
  have part := Int.fract_lt_one (z / unit digits places z)
  have least := lead_nonneg digits places z
  unfold RoundsUp at up
  have next : stored digits places z = ((⌊z / unit digits places z⌋ + 1 : ℤ) : ℚ) * unit digits places z := by
    rw [stored_eq_mul_iff nonneg]
    push_cast
    constructor <;> linarith
  have below : z / unit digits places z < ((⌊z / unit digits places z⌋ + 1 : ℤ) : ℚ) := by
    push_cast
    linarith
  rw [next]
  exact (div_lt_iff₀ positive).mp below

/-- Two parts of a multiple of the coarser one of their units are stored as parts of it, exactly when the finer one is
near a multiple of that unit and not both are rounded up. -/
theorem stored_add_eq_iff_of_le (left : 0 ≤ w) (right : 0 ≤ z) (finer : unit digits places z ≤ unit digits places w)
    {n : ℤ} (whole : w + z = n * unit digits places w) :
    stored digits places w + stored digits places z = w + z ↔
      Near digits places (unit digits places w) z ∧ ¬ (RoundsUp digits places w ∧ RoundsUp digits places z) := by
  obtain ⟨k, power⟩ := unit_dvd finer
  have positive := unit_pos digits places w
  have positive' := unit_pos digits places z
  have least := lead_nonneg digits places w
  have least' := lead_nonneg digits places z
  have most := lead_le digits places w
  have most' := lead_le digits places z
  constructor
  · intro sum
    refine ⟨(near_iff right power).mpr ?_, fun up => ?_⟩
    · rw [stored_of_nonneg left, whole] at sum
      refine ⟨n - ⌊w / unit digits places w + (1 + lead digits places w) / 2⌋, ?_⟩
      push_cast
      linarith
    · have up₁ := lt_stored_of_roundsUp left up.1
      have up₂ := lt_stored_of_roundsUp right up.2
      linarith
  · rintro ⟨⟨c, low, high⟩, notBoth⟩
    -- `w` is as far from its multiple as `z` is from this one, in units that may be larger
    obtain ⟨e, error⟩ : ∃ e, e = (z - c * unit digits places w) / unit digits places z := ⟨_, rfl⟩
    rw [← error] at low high
    have value : z = c * unit digits places w + e * unit digits places z := by
      rw [error, div_mul_cancel₀ _ positive'.ne']
      ring
    have stored_z : stored digits places z = c * unit digits places w := by
      have multiple : (c : ℚ) * unit digits places w = ((c * 10 ^ k : ℤ) : ℚ) * unit digits places z := by
        nth_rewrite 1 [power]
        push_cast
        ring
      rw [multiple, stored_eq_mul_iff right]
      have ratio : z / unit digits places z - ((c * 10 ^ k : ℤ) : ℚ) = e := by
        rw [error, sub_div, multiple, mul_div_cancel_right₀ _ positive'.ne']
      rw [ratio]
      exact ⟨low, high⟩
    have other : w / unit digits places w - ((n - c : ℤ) : ℚ) = -(e / 10 ^ k) := by
      have rest : w = ((n - c : ℤ) : ℚ) * unit digits places w - e * unit digits places z := by
        push_cast
        linarith
      nth_rewrite 1 [rest]
      rw [sub_div, mul_div_cancel_right₀ _ positive.ne', sub_sub_cancel_left, power]
      field_simp
    have stored_w : stored digits places w = ((n - c : ℤ) : ℚ) * unit digits places w := by
      rw [stored_eq_mul_iff left, other]
      rcases k.eq_zero_or_pos with rfl | more
      next =>
        rw [pow_zero, div_one]
        refine ⟨by linarith, ?_⟩
        -- otherwise both would be rounded up
        by_contra far
        refine notBoth ⟨?_, ?_⟩
        · have fract : Int.fract (w / unit digits places w) = -e := by
            rw [Int.fract_eq_iff]
            refine ⟨by linarith, by linarith, n - c, ?_⟩
            rw [pow_zero, div_one] at other
            linarith
          rw [RoundsUp, fract]
          linarith
        · have fract : Int.fract (z / unit digits places z) = 1 + e := by
            rw [Int.fract_eq_iff]
            refine ⟨by linarith, by linarith, c - 1, ?_⟩
            rw [pow_zero, one_mul] at power
            have ratio : z / unit digits places z = c + e := by
              nth_rewrite 1 [value]
              rw [power, ← add_mul, mul_div_cancel_right₀ _ positive'.ne']
            rw [ratio]
            push_cast
            ring
          rw [RoundsUp, fract]
          linarith
      next =>
        have ten : (10 : ℚ) ≤ 10 ^ k := le_self_pow₀ (by norm_num) more.ne'
        have scale : (0 : ℚ) < 10 ^ k := by positivity
        have small : e / 10 ^ k ≤ 1 / 10 := by
          rw [div_le_iff₀ scale]
          linarith
        have small' : -(1 / 10) ≤ e / 10 ^ k := by
          rw [le_div_iff₀ scale]
          linarith
        constructor <;> linarith
    rw [stored_w, stored_z, whole]
    push_cast
    ring

theorem near_unit_of_le (nonneg : 0 ≤ w) (finer : unit digits places z ≤ unit digits places w) :
    Near digits places (unit digits places z) w := by
  obtain ⟨k, power⟩ := unit_dvd finer
  have positive := unit_pos digits places w
  obtain ⟨low, high⟩ := (stored_eq_mul_iff nonneg _).mp (@stored_of_nonneg digits places _ nonneg)
  refine ⟨⌊w / unit digits places w + (1 + lead digits places w) / 2⌋ * 10 ^ k, ?_⟩
  have same : (w - ((⌊w / unit digits places w + (1 + lead digits places w) / 2⌋ * 10 ^ k : ℤ) : ℚ) * unit digits places z) /
      unit digits places w = w / unit digits places w - ⌊w / unit digits places w + (1 + lead digits places w) / 2⌋ := by
    rw [sub_div]
    congr 1
    push_cast
    rw [mul_assoc, ← power, mul_div_cancel_right₀ _ positive.ne']
  rw [same]
  exact ⟨low, high⟩

theorem stored_add_eq_iff (left : 0 ≤ w) (right : 0 ≤ z)
    (wholeLeft : ∃ n : ℤ, w + z = n * unit digits places w) (wholeRight : ∃ n : ℤ, w + z = n * unit digits places z) :
    stored digits places w + stored digits places z = w + z ↔
      Near digits places (unit digits places w) z ∧ Near digits places (unit digits places z) w ∧
        ¬ (RoundsUp digits places w ∧ RoundsUp digits places z) := by
  rcases le_total (unit digits places z) (unit digits places w) with finer | finer
  · obtain ⟨n, whole⟩ := wholeLeft
    rw [stored_add_eq_iff_of_le left right finer whole, iff_true_intro (near_unit_of_le left finer), true_and]
  · obtain ⟨n, whole⟩ := wholeRight
    rw [add_comm w z] at whole
    rw [add_comm, add_comm w z, stored_add_eq_iff_of_le right left finer whole,
      iff_true_intro (near_unit_of_le right finer), true_and, and_comm (a := RoundsUp digits places z)]

end Splitting

section Sums

variable {digits places : ℕ} {x y q w z : ℚ}

theorem quantum_mono (some : x ≠ 0) (le : |x| ≤ |y|) : quantum digits x ≤ quantum digits y := by
  have order : Int.log 10 |x| ≤ Int.log 10 |y| := Int.log_mono_right (abs_pos.mpr some) le
  exact zpow_le_zpow_right₀ (by norm_num) (by omega)

theorem unit_mono (some : x ≠ 0) (le : |x| ≤ |y|) : unit digits places x ≤ unit digits places y :=
  max_le_max_right _ (quantum_mono some le)

theorem whole_of_significant (few : Significant digits q) (fits : Places places q) :
    ∃ n : ℤ, q = n * unit digits places q := by
  by_cases fine : quantum digits q < 1 / 10 ^ places
  next =>
    obtain ⟨n, same⟩ := fits
    exact ⟨n, by rw [unit_of_fine fine, mul_one_div, ← same]⟩
  next => exact ⟨roundHalfAway (q / quantum digits q), by rw [unit_of_coarse fine]; exact (toSignificant_eq_self_iff.mpr few).symm⟩

theorem whole_of_unit_le (few : Significant digits q) (fits : Places places q)
    (finer : unit digits places x ≤ unit digits places q) : ∃ n : ℤ, q = n * unit digits places x := by
  obtain ⟨n, same⟩ := whole_of_significant few fits
  obtain ⟨k, power⟩ := unit_dvd finer
  refine ⟨n * 10 ^ k, ?_⟩
  nth_rewrite 1 [same]
  rw [power]
  push_cast
  ring

/-- A value less than a place above `q` has no coarser unit than `q` is a multiple of. -/
theorem whole_of_near (kept : 0 < digits) (positive : 0 < q) (few : Significant digits q) (fits : Places places q)
    (some : 0 < y) (close : y - q < 1 / 10 ^ places) : ∃ n : ℤ, q = n * unit digits places y := by
  rcases le_or_gt (unit digits places y) (unit digits places q) with finer | coarser
  · exact whole_of_unit_le few fits finer
  -- otherwise a power of ten lies between the two
  exfalso
  have above : quantum digits y = unit digits places y := by
    refine (unit_of_coarse fun fine => ?_).symm
    rw [unit_of_fine fine] at coarser
    exact absurd (place_le_unit digits places q) (not_le.mpr coarser)
  have order : Int.log 10 |q| + 1 ≤ Int.log 10 |y| := by
    have less : quantum digits q < quantum digits y := (le_max_left _ _).trans_lt (above ▸ coarser)
    have exponents := (zpow_lt_zpow_iff_right₀ (by norm_num : (1 : ℚ) < 10)).mp less
    omega
  have power : (10 : ℚ) ^ Int.log 10 |y| = ((10 ^ (digits - 1) : ℤ) : ℚ) * unit digits places y := by
    push_cast
    rw [← above, quantum, ← zpow_natCast, ← zpow_add₀ (by norm_num)]
    congr 1
    omega
  obtain ⟨k, shift⟩ := unit_dvd coarser.le
  obtain ⟨n, same⟩ := whole_of_significant few fits
  have below : q < 10 ^ Int.log 10 |y| := by
    have next := Int.lt_zpow_succ_log_self (by norm_num : 1 < 10) |q|
    rw [abs_of_pos positive] at next order
    exact next.trans_le (by exact_mod_cast zpow_le_zpow_right₀ (by norm_num : (1 : ℚ) ≤ 10) order)
  have top : (10 : ℚ) ^ Int.log 10 |y| ≤ y := by
    have least := Int.zpow_log_le_self (by norm_num : 1 < 10) (abs_pos.mpr some.ne')
    rw [abs_of_pos some] at least ⊢
    exact_mod_cast least
  -- two multiples of the unit of `q` are at least that unit apart
  have unit_q := unit_pos digits places q
  have multiple : (10 : ℚ) ^ Int.log 10 |y| = ((10 ^ (digits - 1) * 10 ^ k : ℤ) : ℚ) * unit digits places q := by
    rw [power, shift]
    push_cast
    ring
  have apart : n + 1 ≤ 10 ^ (digits - 1) * 10 ^ k := by
    have less : (n : ℚ) < ((10 ^ (digits - 1) * 10 ^ k : ℤ) : ℚ) := by
      refine lt_of_mul_lt_mul_right ?_ unit_q.le
      rw [← same, ← multiple]
      exact below
    exact Int.add_one_le_iff.mpr (Int.cast_lt.mp less)
  have apart' : q + unit digits places q ≤ 10 ^ Int.log 10 |y| := by
    rw [multiple]
    nth_rewrite 1 [same]
    rw [← add_one_mul]
    refine mul_le_mul_of_nonneg_right ?_ unit_q.le
    have cast := Int.cast_le (R := ℚ).mpr apart
    rwa [Int.cast_add, Int.cast_one] at cast
  have place := place_le_unit digits places q
  linarith

theorem stored_of_near (kept : 0 < digits) (positive : 0 < q) (few : Significant digits q) (fits : Places places q)
    (some : 0 < y) (low : -(1 / 10 ^ places / 2) ≤ y - q) (high : y - q < 1 / 10 ^ places / 2)
    (fine : quantum digits y < 1 / 10 ^ places → y - q ≤ 1 / 10 ^ places / 10) : stored digits places y = q := by
  have place : (0 : ℚ) < 1 / 10 ^ places := by positivity
  obtain ⟨n, whole⟩ := whole_of_near kept positive few fits some (by linarith)
  have unit_y := unit_pos digits places y
  have least := lead_nonneg digits places y
  have large := place_le_unit digits places y
  nth_rewrite 1 [whole]
  rw [stored_eq_mul_iff some.le]
  have quotient : y / unit digits places y - n = (y - q) / unit digits places y := by
    rw [sub_div]
    congr 1
    nth_rewrite 1 [whole]
    rw [mul_div_cancel_right₀ _ unit_y.ne']
  rw [quotient, le_div_iff₀ unit_y, div_lt_iff₀ unit_y]
  constructor
  next => nlinarith
  next =>
    by_cases finer : quantum digits y < 1 / 10 ^ places
    next =>
      have most := lead_le digits places y
      have close := fine finer
      rw [unit_of_fine finer]
      nlinarith
    next =>
      rw [lead_of_coarse finer]
      linarith

theorem toSignificant_pos (kept : 0 < digits) (some : 0 < x) : 0 < toSignificant digits x := by
  have least := Int.zpow_log_le_self (by norm_num : 1 < 10) some
  exact lt_of_lt_of_le (by positivity) (pow_le_toSignificant kept (by exact_mod_cast least))

theorem abs_sub_toSignificant (digits : ℕ) (x : ℚ) : |x - toSignificant digits x| ≤ quantum digits x / 2 := by
  have unit := quantum_pos digits x
  have apart : x - toSignificant digits x =
      (x / quantum digits x - roundHalfAway (x / quantum digits x)) * quantum digits x := by
    rw [toSignificant, sub_mul, div_mul_cancel₀ _ unit.ne']
  rw [apart, abs_mul, abs_of_pos unit]
  have nearest := abs_sub_roundHalfAway (x / quantum digits x)
  nlinarith

theorem toSignificant_sub_stored (kept : 0 < digits) (some : 0 < x) :
    -(1 / 10 ^ places / 2) ≤ toSignificant digits x - stored digits places x ∧
      toSignificant digits x - stored digits places x < 1 / 10 ^ places / 2 := by
  have first := toSignificant_pos kept some
  have scale : (0 : ℚ) < 10 ^ places := by positivity
  have rounded : stored digits places x = (⌊toSignificant digits x * 10 ^ places + 1 / 2⌋ : ℚ) / 10 ^ places := by
    rw [stored, toPlaces, roundHalfAway_of_nonneg (by positivity)]
  have below := Int.floor_le (toSignificant digits x * 10 ^ places + 1 / 2)
  have above := Int.lt_floor_add_one (toSignificant digits x * 10 ^ places + 1 / 2)
  have scaled : (toSignificant digits x - stored digits places x) * 10 ^ places =
      toSignificant digits x * 10 ^ places - (⌊toSignificant digits x * 10 ^ places + 1 / 2⌋ : ℚ) := by
    rw [rounded, sub_mul, div_mul_cancel₀ _ scale.ne']
  have half : 1 / (10 : ℚ) ^ places / 2 * 10 ^ places = 1 / 2 := by field_simp
  constructor
  · refine le_of_mul_le_mul_right ?_ scale
    rw [scaled, neg_mul, half]
    linarith
  · refine lt_of_mul_lt_mul_right ?_ scale.le
    rw [scaled, half]
    linarith

theorem abs_sub_toSignificant_of_fine (fine : quantum digits x < 1 / 10 ^ places) :
    |x - toSignificant digits x| ≤ 1 / 10 ^ places / 20 := by
  -- when the first rounding is the finer one it moves a value by a twentieth of a place at most
  refine (abs_sub_toSignificant digits x).trans ?_
  obtain ⟨k, same⟩ := quantum_of_fine fine
  have place : (0 : ℚ) < 1 / 10 ^ places := by positivity
  have more : (1 : ℚ) ≤ 10 ^ k := one_le_pow₀ (by norm_num)
  have small : quantum digits x ≤ 1 / 10 ^ places / 10 := by
    rw [same]
    exact div_le_div_of_nonneg_left place.le (by norm_num) (by linarith)
  linarith

theorem not_fine_of_toSignificant (kept : 0 < digits) (some : 0 < x) (coarse : ¬ quantum digits x < 1 / 10 ^ places)
    (above : toSignificant digits x ≤ y) : ¬ quantum digits y < 1 / 10 ^ places := by
  have least := Int.zpow_log_le_self (by norm_num : 1 < 10) some
  have leading : (10 : ℚ) ^ Int.log 10 x ≤ y := (pow_le_toSignificant kept (by exact_mod_cast least)).trans above
  have positive : 0 < y := lt_of_lt_of_le (by positivity) leading
  have order : Int.log 10 x ≤ Int.log 10 y := (Int.zpow_le_iff_le_log (by norm_num) positive).mp (by exact_mod_cast leading)
  rw [quantum_lt_place, abs_of_pos some] at coarse
  rw [quantum_lt_place, abs_of_pos positive]
  omega

theorem stored_sum (kept : 0 < digits) (left : 0 < w) (right : 0 < z) (few : Significant digits (w + z))
    (fits : Places places (w + z)) (parts : stored digits places w + stored digits places z = w + z) :
    stored digits places (toSignificant digits w + toSignificant digits z) = w + z := by
  -- two parts that are stored as parts of their sum are added up to it as well, rounded as they are
  have some_w := toSignificant_pos kept left
  have some_z := toSignificant_pos kept right
  have place : (0 : ℚ) < 1 / 10 ^ places := by positivity
  obtain ⟨low_w, high_w⟩ := @toSignificant_sub_stored _ places _ kept left
  obtain ⟨low_z, high_z⟩ := @toSignificant_sub_stored _ places _ kept right
  have positive : 0 < toSignificant digits w + toSignificant digits z := by linarith
  by_cases fine_w : quantum digits w < 1 / 10 ^ places <;> by_cases fine_z : quantum digits z < 1 / 10 ^ places
  · have near_w := abs_le.mp (abs_sub_toSignificant_of_fine fine_w)
    have near_z := abs_le.mp (abs_sub_toSignificant_of_fine fine_z)
    exact stored_of_near kept (by linarith) few fits positive (by linarith) (by linarith) fun _ => by linarith
  · have same := stored_of_coarse fine_z
    exact stored_of_near kept (by linarith) few fits positive (by linarith) (by linarith)
      fun fine => absurd fine (not_fine_of_toSignificant kept right fine_z (by linarith))
  · have same := stored_of_coarse fine_w
    exact stored_of_near kept (by linarith) few fits positive (by linarith) (by linarith)
      fun fine => absurd fine (not_fine_of_toSignificant kept left fine_w (by linarith))
  · have same := stored_of_coarse fine_w
    have same' := stored_of_coarse fine_z
    exact stored_of_near kept (by linarith) few fits positive (by linarith) (by linarith) fun _ => by linarith

theorem significant_toSignificant (kept : 0 < digits) (x : ℚ) : Significant digits (toSignificant digits x) := by
  have unit := quantum_pos digits x
  have small := abs_lt_quantum_mul digits x
  have bounded : |roundHalfAway (x / quantum digits x)| ≤ 10 ^ digits := by
    have quotient : |x / quantum digits x| ≤ ((10 ^ digits : ℤ) : ℚ) := by
      rw [abs_div, abs_of_pos unit, div_le_iff₀ unit, mul_comm]
      push_cast
      exact small.le
    obtain ⟨below, above⟩ := abs_le.mp quotient
    rw [abs_le]
    constructor
    · have down := roundHalfAway_mono below
      rwa [← Int.cast_neg, roundHalfAway_intCast] at down
    · have up := roundHalfAway_mono above
      rwa [roundHalfAway_intCast] at up
  rcases bounded.lt_or_eq with less | top
  · exact ⟨_, _, less, rfl⟩
  · -- one followed by zeros is a single digit
    have one : (1 : ℤ) < 10 ^ digits := one_lt_pow₀ (by norm_num) kept.ne'
    have shifted : quantum digits x * 10 ^ digits = 10 ^ (Int.log 10 |x| + 1) := by
      rw [quantum, ← zpow_natCast, ← zpow_add₀ (by norm_num)]
      congr 1
      omega
    rcases abs_eq (by positivity) |>.mp top with same | same
    · exact ⟨1, Int.log 10 |x| + 1, by simpa using one, by rw [toSignificant, same, ← shifted]; push_cast; ring⟩
    · exact ⟨-1, Int.log 10 |x| + 1, by simpa using one, by rw [toSignificant, same, ← shifted]; push_cast; ring⟩

@[simp] theorem toSignificant_toSignificant (kept : 0 < digits) (x : ℚ) :
    toSignificant digits (toSignificant digits x) = toSignificant digits x :=
  toSignificant_eq_self_iff.mpr (significant_toSignificant kept x)

theorem significant_stored (kept : 0 < digits) (some : 0 < x) : Significant digits (stored digits places x) := by
  by_cases fine : quantum digits x < 1 / 10 ^ places
  next =>
    have fits : Places places (stored digits places x) := .toPlaces _
    refine fits.significant kept ?_
    have scale : (0 : ℚ) < 10 ^ places := by positivity
    have place : (1 : ℚ) / 10 ^ places * 10 ^ places = 1 := by field_simp
    obtain ⟨low, high⟩ := @toSignificant_sub_stored _ places _ kept some
    have first := toSignificant_pos kept some
    have near := abs_le.mp (abs_sub_toSignificant_of_fine fine)
    have small := abs_lt_quantum_mul digits x
    rw [abs_of_pos some] at small
    obtain ⟨k, same⟩ := quantum_of_fine fine
    have more : (1 : ℚ) ≤ 10 ^ k := one_le_pow₀ (by norm_num)
    have tenth : quantum digits x ≤ 1 / 10 ^ places / 10 := by
      rw [same]
      exact div_le_div_of_nonneg_left (by positivity) (by norm_num) (by linarith)
    have ten : (10 : ℚ) ≤ 10 ^ digits := le_self_pow₀ (by norm_num) kept.ne'
    have bound : x ≤ 1 / 10 ^ places / 10 * 10 ^ digits := small.le.trans (mul_le_mul_of_nonneg_right tenth (by positivity))
    rw [abs_of_nonneg (stored_nonneg some.le)]
    calc stored digits places x * 10 ^ places
        ≤ (x + 1 / 10 ^ places) * 10 ^ places := mul_le_mul_of_nonneg_right (by linarith) scale.le
      _ ≤ (1 / 10 ^ places / 10 * 10 ^ digits + 1 / 10 ^ places) * 10 ^ places :=
          mul_le_mul_of_nonneg_right (by linarith) scale.le
      _ = 10 ^ digits / 10 + 1 := by field_simp
      _ ≤ 10 ^ digits := by linarith
  next =>
    rw [stored_of_coarse fine]
    exact significant_toSignificant kept x

theorem units_of_significant (nonneg : 0 ≤ q) (few : Significant digits q) (fits : Places places q) :
    ∃ n : ℤ, 0 ≤ n ∧ n < 10 ^ digits ∧ q = n * unit digits places q := by
  obtain ⟨n, whole⟩ := whole_of_significant few fits
  have positive := unit_pos digits places q
  have below := (abs_lt_quantum_mul digits q).trans_le
    (mul_le_mul_of_nonneg_right (le_max_left (quantum digits q) (1 / 10 ^ places)) (by positivity))
  change |q| < unit digits places q * 10 ^ digits at below
  rw [abs_of_nonneg nonneg, mul_comm] at below
  nth_rewrite 1 [whole] at below
  refine ⟨n, ?_, by exact_mod_cast lt_of_mul_lt_mul_right below positive.le, whole⟩
  rw [whole] at nonneg
  exact_mod_cast nonneg_of_mul_nonneg_left nonneg positive

theorem significant_add_unit (kept : 0 < digits) (nonneg : 0 ≤ q) (few : Significant digits q) (fits : Places places q) :
    Significant digits (q + unit digits places q) := by
  obtain ⟨n, count, small, whole⟩ := units_of_significant nonneg few fits
  have whole' : q + unit digits places q = ((n + 1 : ℤ) : ℚ) * unit digits places q := by
    nth_rewrite 1 [whole]
    push_cast
    ring
  rw [whole', unit_eq]
  rcases (Int.add_one_le_iff.mpr small).lt_or_eq with less | top
  next => exact ⟨n + 1, _, by rwa [abs_of_nonneg (by omega)], rfl⟩
  next =>
    -- one followed by zeros is a single digit
    have one : (1 : ℤ) < 10 ^ digits := one_lt_pow₀ (by norm_num) kept.ne'
    refine ⟨1, digits + max (Int.log 10 |q| + 1 - digits) (-(places : ℤ)), by simpa using one, ?_⟩
    rw [top, zpow_add₀ (by norm_num), zpow_natCast]
    push_cast
    ring

theorem unit_add_le (nonneg : 0 ≤ q) (few : Significant digits q) (fits : Places places q) {a : ℚ} (some : 0 < q + a)
    (short : a < unit digits places q) : unit digits places (q + a) ≤ unit digits places q := by
  obtain ⟨n, count, small, whole⟩ := units_of_significant nonneg few fits
  have positive := unit_pos digits places q
  have next : (n : ℚ) + 1 ≤ 10 ^ digits := by exact_mod_cast Int.add_one_le_iff.mpr small
  have below : q + a < 10 ^ digits * unit digits places q := by
    have scaled := mul_le_mul_of_nonneg_right next positive.le
    rw [add_one_mul, ← whole] at scaled
    linarith
  rw [unit_eq digits places q, ← zpow_natCast, ← zpow_add₀ (by norm_num)] at below
  have order := (Int.lt_zpow_iff_log_lt (by norm_num : 1 < 10) some).mp (by exact_mod_cast below)
  rw [unit_eq, unit_eq, abs_of_pos some]
  exact zpow_le_zpow_right₀ (by norm_num) (by omega)

theorem places_unit (fits : Places places q) : Places places (q + unit digits places q) := by
  refine fits.add ?_
  by_cases fine : quantum digits q < 1 / 10 ^ places
  next => exact ⟨1, by rw [unit_of_fine fine]; push_cast; rfl⟩
  next =>
    obtain ⟨k, same⟩ := quantum_of_coarse fine
    exact ⟨10 ^ k, by rw [unit_of_coarse fine, same]; push_cast; rfl⟩

theorem unit_le_of_le (nonneg : 0 ≤ q) (le : q ≤ y) : unit digits places q ≤ max (unit digits places 0) (unit digits places y) := by
  rcases nonneg.eq_or_lt with rfl | positive
  next => exact le_max_left _ _
  next => exact (unit_mono positive.ne' (by rwa [abs_of_pos positive, abs_of_pos (positive.trans_le le)])).trans (le_max_right _ _)

theorem stored_add_half (kept : 0 < digits) (coarse : unit digits places 0 = 1 / 10 ^ places) (nonneg : 0 ≤ q)
    (few : Significant digits q) (fits : Places places q) {a : ℚ} (half : unit digits places q / 2 ≤ a)
    (most : a ≤ unit digits places q) : stored digits places (q + a) = q + unit digits places q := by
  -- half a unit of what is stored already, or more, is stored as a whole one
  have positive := unit_pos digits places q
  rcases most.eq_or_lt with rfl | less
  next =>
    rw [stored, toSignificant_eq_self_iff.mpr (significant_add_unit kept nonneg few fits),
      toPlaces_eq_self_iff.mpr (places_unit fits)]
  -- short of the next multiple the unit is the same
  have some : 0 < q + a := by linarith
  have same : unit digits places (q + a) = unit digits places q := by
    refine le_antisymm (unit_add_le nonneg few fits some less) ?_
    refine (unit_le_of_le nonneg (by linarith : q ≤ q + a)).trans (max_le ?_ le_rfl)
    rw [coarse]
    exact place_le_unit digits places _
  obtain ⟨n, whole⟩ := whole_of_significant few fits
  have least := lead_nonneg digits places (q + a)
  have lead := lead_le digits places (q + a)
  have whole' : q + unit digits places q = ((n + 1 : ℤ) : ℚ) * unit digits places (q + a) := by
    rw [same]
    nth_rewrite 1 [whole]
    push_cast
    ring
  rw [whole', stored_eq_mul_iff some.le, same]
  have quotient : (q + a) / unit digits places q - ((n + 1 : ℤ) : ℚ) = a / unit digits places q - 1 := by
    rw [add_div]
    nth_rewrite 1 [whole]
    rw [mul_div_cancel_right₀ _ positive.ne']
    push_cast
    ring
  have low : 1 / 2 ≤ a / unit digits places q := by
    rw [le_div_iff₀ positive]
    linarith
  have high : a / unit digits places q < 1 := (div_lt_one positive).mpr less
  rw [quotient]
  constructor <;> linarith

theorem unit_units (digits places : ℕ) (x : ℚ) : ∃ k : ℕ, unit digits places x = (10 ^ k : ℕ) / 10 ^ places := by
  by_cases fine : quantum digits x < 1 / 10 ^ places
  next => exact ⟨0, by rw [unit_of_fine fine]; norm_num⟩
  next =>
    obtain ⟨k, same⟩ := quantum_of_coarse fine
    exact ⟨k, by rw [unit_of_coarse fine, same]; push_cast; rfl⟩

theorem toSignificant_between (kept : 0 < digits) {a : ℚ} (half : unit digits places q / 2 ≤ a)
    (most : a ≤ unit digits places q) :
    unit digits places q / 2 ≤ toSignificant digits a ∧ toSignificant digits a ≤ unit digits places q := by
  have positive := unit_pos digits places q
  have ten : (10 : ℤ) ≤ 10 ^ digits := le_self_pow₀ (by norm_num) kept.ne'
  have one : Significant digits (unit digits places q) := ⟨1, _, by simp; omega, by rw [unit_eq]; push_cast; rw [one_mul]⟩
  have five : Significant digits (unit digits places q / 2) := by
    refine ⟨5, max (Int.log 10 |q| + 1 - digits) (-(places : ℤ)) - 1, by simp; omega, ?_⟩
    rw [unit_eq, zpow_sub₀ (by norm_num)]
    push_cast
    ring
  constructor
  next =>
    rw [← toSignificant_eq_self_iff.mpr five]
    exact toSignificant_mono kept (by linarith) half
  next =>
    rw [← toSignificant_eq_self_iff.mpr one]
    exact toSignificant_mono kept (by linarith) most

end Sums

end Decimals
