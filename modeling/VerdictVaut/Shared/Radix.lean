import Mathlib.Data.Nat.Digits.Defs
import Mathlib.Data.Nat.Digits.Lemmas
import Mathlib.Data.List.TakeWhile

set_option autoImplicit false

-- texts of digits, the highest first: each is its number of leading zeros and the number that it stands for
namespace Radix

variable {b c z n : ℕ} {digits : List ℕ}

def Valid (b : ℕ) (digits : List ℕ) : Prop :=
  ∀ digit ∈ digits, digit < b

def value (b : ℕ) (digits : List ℕ) : ℕ :=
  digits.foldl (fun value digit => value * b + digit) 0

def leading (digits : List ℕ) : ℕ :=
  (digits.takeWhile fun digit => decide (digit = 0)).length

def spell (b z n : ℕ) : List ℕ :=
  List.replicate z 0 ++ (b.digits n).reverse

def convert (b c : ℕ) (digits : List ℕ) : List ℕ :=
  -- the digits in another base; the leading zeros are kept as they are
  spell c (leading digits) (value b digits)

theorem value_append {digit : ℕ} : value b (digits ++ [digit]) = value b digits * b + digit := by
  rw [value, List.foldl_append]
  rfl

theorem value_eq (b : ℕ) (digits : List ℕ) : value b digits = Nat.ofDigits b digits.reverse := by
  induction digits using List.reverseRecOn with
  | nil => rfl
  | append_singleton digits digit ih =>
    rw [value_append, ih, List.reverse_append, List.reverse_singleton, List.singleton_append, Nat.ofDigits_cons]
    ring

theorem value_spell : value b (spell b z n) = n := by
  rw [value_eq, spell, List.reverse_append, List.reverse_reverse, List.reverse_replicate,
    Nat.ofDigits_append_replicate_zero, Nat.ofDigits_digits]

theorem head_digits {digit : ℕ} (first : (b.digits n).reverse.head? = some digit) : digit ≠ 0 := by
  rw [List.head?_reverse, List.getLast?_eq_some_iff] at first
  obtain ⟨lower, all⟩ := first
  have nonzero : n ≠ 0 := by
    rintro rfl
    simp at all
  have last := Nat.getLast_digit_ne_zero b nonzero
  simpa [all] using last

theorem leading_zeros {rest : List ℕ} (first : ∀ digit, rest.head? = some digit → digit ≠ 0) :
    leading (List.replicate z 0 ++ rest) = z := by
  have none : rest.takeWhile (fun digit => decide (digit = 0)) = [] := by
    cases rest with
    | nil => rfl
    | cons digit rest => simp [first digit rfl]
  rw [leading, List.takeWhile_append_of_pos (by simp), none]
  simp

theorem leading_spell : leading (spell b z n) = z :=
  leading_zeros fun _ => head_digits

theorem zeros_append (digits : List ℕ) : List.replicate (leading digits) 0 ++
    digits.dropWhile (fun digit => decide (digit = 0)) = digits := by
  have zeros : digits.takeWhile (fun digit => decide (digit = 0)) = List.replicate (leading digits) 0 := by
    refine List.eq_replicate_of_mem fun digit member => ?_
    simpa using List.mem_takeWhile_imp member
  rw [← zeros]
  exact List.takeWhile_append_dropWhile

theorem spell_value (base : 1 < b) (valid : Valid b digits) : spell b (leading digits) (value b digits) = digits := by
  have parts := zeros_append digits
  have first : ∀ digit, (digits.dropWhile fun digit => decide (digit = 0)).head? = some digit → digit ≠ 0 := by
    intro digit head
    have stopped := List.head?_dropWhile_not (fun digit => decide (digit = 0)) digits
    rw [head] at stopped
    simpa using stopped
  have below : ∀ digit ∈ digits.dropWhile (fun digit => decide (digit = 0)), digit < b := fun digit member =>
    valid digit ((List.dropWhile_suffix _).subset member)
  generalize digits.dropWhile (fun digit => decide (digit = 0)) = rest at parts first below
  have number : value b digits = Nat.ofDigits b rest.reverse := by
    rw [value_eq, ← parts, List.reverse_append, List.reverse_replicate, Nat.ofDigits_append_replicate_zero]
  have back : b.digits (Nat.ofDigits b rest.reverse) = rest.reverse := by
    refine Nat.digits_ofDigits b base _ (by simpa using below) fun some_ => ?_
    rw [List.getLast_reverse]
    exact first _ (List.head?_eq_some_head _)
  rw [spell, number, back, List.reverse_reverse, parts]

theorem valid_spell (base : 1 < b) : Valid b (spell b z n) := by
  intro digit member
  rcases List.mem_append.mp member with zero | digit
  · rw [List.eq_of_mem_replicate zero]
    omega
  · exact Nat.digits_lt_base base (List.mem_reverse.mp digit)

theorem leading_convert : leading (convert b c digits) = leading digits := leading_spell

theorem value_convert : value c (convert b c digits) = value b digits := value_spell

theorem valid_convert (base : 1 < c) : Valid c (convert b c digits) := valid_spell base

theorem convert_convert (base : 1 < b) (valid : Valid b digits) : convert c b (convert b c digits) = digits := by
  rw [convert, leading_convert, value_convert, spell_value base valid]

theorem convert_nil : convert b c [] = [] := by
  simp [convert, spell, value, leading]

theorem convert_eq_nil (base : 1 < b) (valid : Valid b digits) : convert b c digits = [] ↔ digits = [] := by
  constructor
  · intro empty
    have back := @convert_convert b c digits base valid
    rw [← back, empty, convert_nil]
  · rintro rfl
    exact convert_nil

section Lowest

def lowest (b : ℕ) : ℕ → ℕ → List ℕ
  | 0, _ => []
  | count + 1, n => lowest b count (n / b) ++ [n % b]

variable {count : ℕ}

theorem lowest_value (valid : Valid b digits) : lowest b digits.length (value b digits) = digits := by
  induction digits using List.reverseRecOn with
  | nil => rfl
  | append_singleton digits digit ih =>
    have below : digit < b := valid digit (by simp)
    have higher : Valid b digits := fun d member => valid d (List.mem_append_left _ member)
    have positive : 0 < b := Nat.zero_lt_of_lt below
    rw [List.length_append, List.length_singleton, lowest, value_append, Nat.mul_comm, Nat.mul_add_div positive,
      Nat.div_eq_of_lt below, Nat.add_zero, ih higher, Nat.mul_add_mod, Nat.mod_eq_of_lt below]

theorem eq_of_value {digits' : List ℕ} (valid : Valid b digits) (valid' : Valid b digits')
    (length : digits.length = digits'.length) (same : value b digits = value b digits') : digits = digits' := by
  rw [← lowest_value valid, ← lowest_value valid', length, same]

theorem value_lt (valid : Valid b digits) : value b digits < b ^ digits.length := by
  induction digits using List.reverseRecOn with
  | nil => simp [value]
  | append_singleton digits digit ih =>
    have below : digit < b := valid digit (by simp)
    have higher := ih fun d member => valid d (List.mem_append_left _ member)
    rw [value_append, List.length_append, List.length_singleton, Nat.pow_succ]
    calc value b digits * b + digit < value b digits * b + b := Nat.add_lt_add_left below _
      _ = (value b digits + 1) * b := by ring
      _ ≤ b ^ digits.length * b := Nat.mul_le_mul_right b higher

end Lowest

section Bytes

theorem valid_bytes (bytes : List UInt8) : Valid 256 (bytes.map UInt8.toNat) := by
  intro digit member
  obtain ⟨byte, -, rfl⟩ := List.mem_map.mp member
  exact byte.toNat_lt

theorem ofNat_toNat (bytes : List UInt8) : (bytes.map UInt8.toNat).map UInt8.ofNat = bytes := by
  rw [List.map_map]
  exact (List.map_congr_left fun byte _ => UInt8.ofNat_toNat).trans (List.map_id _)

theorem toNat_ofNat {digits : List ℕ} (valid : Valid 256 digits) : (digits.map UInt8.ofNat).map UInt8.toNat = digits := by
  rw [List.map_map]
  refine (List.map_congr_left fun digit used => ?_).trans (List.map_id _)
  exact UInt8.toNat_ofNat_of_lt' (valid digit used)

end Bytes

end Radix
