import VerdictVaut.Shared.Rounding

set_option autoImplicit false

namespace Decimals

theorem Places.min {places : ℕ} {x y : ℚ} (left : Places places x) (right : Places places y) : Places places (min x y) := by
  rcases min_choice x y with same | same <;> rw [same] <;> assumption

theorem Places.sum {places : ℕ} {amounts : List ℚ} (fits : ∀ amount ∈ amounts, Places places amount) :
    Places places amounts.sum := by
  induction amounts with
  | nil => exact ⟨0, by simp⟩
  | cons amount rest ih =>
    rw [List.sum_cons]
    exact (fits amount List.mem_cons_self).add (ih fun other member => fits other (List.mem_cons_of_mem _ member))

theorem places_iff {places : ℕ} {x : ℚ} : (x * 10 ^ places).den = 1 ↔ Places places x := by
  have positive : (0 : ℚ) < 10 ^ places := by positivity
  constructor
  next =>
    intro whole
    refine ⟨(x * 10 ^ places).num, ?_⟩
    rw [(Rat.den_eq_one_iff _).mp whole, mul_div_cancel_right₀ x positive.ne']
  next =>
    rintro ⟨units, rfl⟩
    rw [div_mul_cancel₀ _ positive.ne']
    exact Rat.den_intCast units

instance {places : ℕ} {x : ℚ} : Decidable (Places places x) := decidable_of_iff _ places_iff

structure Figure (places : ℕ) (most x : ℚ) : Prop where
  -- a number of so many digits after the point, no larger than this
  fits : Places places x
  small : |x| ≤ most

namespace Figure

variable {places places' digits : ℕ} {most most' x y : ℚ}

instance : Decidable (Figure places most x) :=
  decidable_of_iff (Places places x ∧ |x| ≤ most) ⟨fun both => ⟨both.1, both.2⟩, fun figure => ⟨figure.fits, figure.small⟩⟩

theorem mono (figure : Figure places most x) (le : most ≤ most') : Figure places most' x :=
  ⟨figure.fits, figure.small.trans le⟩

theorem finer (figure : Figure places most x) (le : places ≤ places') : Figure places' most x :=
  ⟨figure.fits.finer le, figure.small⟩

theorem nonneg (figure : Figure places most x) : 0 ≤ most := (abs_nonneg x).trans figure.small

theorem zero (some : 0 ≤ most) : Figure places most 0 := ⟨⟨0, by simp⟩, by rwa [abs_zero]⟩

theorem neg (figure : Figure places most x) : Figure places most (-x) :=
  ⟨figure.fits.neg, by rw [abs_neg]; exact figure.small⟩

theorem add (left : Figure places most x) (right : Figure places most' y) : Figure places (most + most') (x + y) :=
  ⟨left.fits.add right.fits, (abs_add_le x y).trans (add_le_add left.small right.small)⟩

theorem sub (left : Figure places most x) (right : Figure places most' y) : Figure places (most + most') (x - y) := by
  rw [sub_eq_add_neg]
  exact left.add right.neg

theorem sub_of_nonneg (left : Figure places most x) (right : Figure places most y) (some : 0 ≤ x) (some' : 0 ≤ y) :
    Figure places most (x - y) := by
  -- between two numbers that are not negative, the difference is no larger than they are
  refine ⟨left.fits.sub right.fits, abs_le.mpr ⟨?_, ?_⟩⟩
  next => linarith [(abs_le.mp right.small).2]
  next => linarith [(abs_le.mp left.small).2]

theorem of_le (fits : Places places x) (some : 0 ≤ x) (le : x ≤ most) : Figure places most x :=
  ⟨fits, by rwa [abs_of_nonneg some]⟩

theorem mul (left : Figure places most x) (right : Figure places' most' y) :
    Figure (places + places') (most * most') (x * y) := by
  constructor
  next =>
    obtain ⟨m, rfl⟩ := left.fits
    obtain ⟨n, rfl⟩ := right.fits
    exact ⟨m * n, by push_cast; rw [pow_add, div_mul_div_comm]⟩
  next =>
    rw [abs_mul]
    exact mul_le_mul left.small right.small (abs_nonneg y) left.nonneg

theorem significant (figure : Figure places most x) (kept : 0 < digits) (room : most * 10 ^ places ≤ 10 ^ digits) :
    Significant digits x :=
  figure.fits.significant kept ((mul_le_mul_of_nonneg_right figure.small (by positivity)).trans room)

end Figure

end Decimals
