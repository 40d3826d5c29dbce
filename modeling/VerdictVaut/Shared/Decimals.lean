import Mathlib.Data.List.DropRight
import Mathlib.Data.Rat.Defs
import Mathlib.Tactic.FieldSimp
import Mathlib.Tactic.Ring
import Mathlib.Tactic.NormNum
import Mathlib.Tactic.IntervalCases
import Mathlib.Tactic.Linarith
import Mathlib.Tactic.Positivity

set_option autoImplicit false

namespace Decimals

def pointValue (whole fraction : List Char) : ℚ :=
  -- the value of digits before and after the decimal point
  Nat.ofDigitChars 10 whole 0 + Nat.ofDigitChars 10 fraction 0 / 10 ^ fraction.length

def unsigned? (text : List Char) : Option ℚ :=
  let whole := text.takeWhile Char.isDigit
  match text.dropWhile Char.isDigit with
  | [] => if whole = [] then none else some (pointValue whole [])
  | '.' :: fraction =>
    if fraction.all Char.isDigit ∧ (whole ≠ [] ∨ fraction ≠ []) then some (pointValue whole fraction) else none
  | _ => none

def value? : List Char → Option ℚ
  -- the value of a decimal numeral without an exponent
  | '-' :: text => (unsigned? text).map fun q => -q
  | text => unsigned? text

section Text

variable {whole fraction digits : List Char}

theorem unsigned?_whole (digit : ∀ c ∈ whole, c.isDigit = true) (given : whole ≠ []) :
    unsigned? whole = some (pointValue whole []) := by
  simp only [unsigned?, List.takeWhile_eq_self_iff.mpr digit, List.dropWhile_eq_nil_iff.mpr digit, if_neg given]

theorem unsigned?_point (digit : ∀ c ∈ whole, c.isDigit = true) (digit' : ∀ c ∈ fraction, c.isDigit = true)
    (given : whole ≠ []) : unsigned? (whole ++ '.' :: fraction) = some (pointValue whole fraction) := by
  have taken : (whole ++ '.' :: fraction).takeWhile Char.isDigit = whole := by
    rw [List.takeWhile_append_of_pos digit, List.takeWhile_cons_of_neg (by decide), List.append_nil]
  have left : (whole ++ '.' :: fraction).dropWhile Char.isDigit = '.' :: fraction := by
    rw [List.dropWhile_append_of_pos digit, List.dropWhile_cons_of_neg (by decide)]
  simp only [unsigned?, taken, left]
  rw [if_pos ⟨List.all_eq_true.mpr digit', .inl given⟩]

def join (whole fraction : List Char) : List Char :=
  -- digits with a point only where a fraction follows
  if 0 < fraction.length then whole ++ '.' :: fraction else whole

theorem unsigned?_join (digit : ∀ c ∈ whole, c.isDigit = true) (digit' : ∀ c ∈ fraction, c.isDigit = true)
    (given : whole ≠ []) : unsigned? (join whole fraction) = some (pointValue whole fraction) := by
  by_cases some : 0 < fraction.length
  · rw [join, if_pos some, unsigned?_point digit digit' given]
  · have none : fraction = [] := List.eq_nil_of_length_eq_zero (by omega)
    rw [join, if_neg some, unsigned?_whole digit given, none]

theorem value?_of_digits (digit : ∀ c ∈ digits, c.isDigit = true) (given : digits ≠ []) (rest : List Char) :
    value? (digits ++ rest) = unsigned? (digits ++ rest) := by
  cases digits with
  | nil => exact absurd rfl given
  | cons c more =>
    have isDigit := digit c (List.mem_cons_self ..)
    by_cases minus : c = '-'
    · subst minus
      cases isDigit
    · rw [List.cons_append, value?.eq_2]
      rintro _ ⟨rfl, -⟩
      exact minus rfl

theorem value?_join (digit : ∀ c ∈ whole, c.isDigit = true) (given : whole ≠ []) :
    value? (join whole fraction) = unsigned? (join whole fraction) := by
  unfold join
  split
  · exact value?_of_digits digit given _
  · have plain := value?_of_digits digit given []
    rwa [List.append_nil] at plain

theorem pointValue_trim (split : digits = whole ++ fraction) :
    pointValue whole (fraction.rdropWhile (· == '0')) = Nat.ofDigitChars 10 digits 0 / 10 ^ fraction.length := by
  -- splitting digits and dropping final zeros of the fraction keeps the value
  obtain ⟨zeros, trimmed⟩ : ∃ n, fraction = fraction.rdropWhile (· == '0') ++ List.replicate n '0' := by
    refine ⟨(fraction.reverse.takeWhile (· == '0')).length, ?_⟩
    have all : fraction.reverse.takeWhile (· == '0') =
        List.replicate (fraction.reverse.takeWhile (· == '0')).length '0' :=
      List.eq_replicate_iff.mpr ⟨rfl, fun c member => by simpa using List.mem_takeWhile_imp member⟩
    have parts := congrArg List.reverse (List.takeWhile_append_dropWhile (p := (· == '0')) (l := fraction.reverse))
    rw [List.reverse_append, List.reverse_reverse, all, List.reverse_replicate] at parts
    simpa [List.rdropWhile] using parts.symm
  generalize fraction.rdropWhile (· == '0') = kept at trimmed ⊢
  subst trimmed split
  have digits : Nat.ofDigitChars 10 kept (Nat.ofDigitChars 10 whole 0) = _ := Nat.ofDigitChars_eq_ofDigitChars_zero
  have ten : (10 : ℚ) ^ zeros ≠ 0 := pow_ne_zero _ (by norm_num)
  have ten' : (10 : ℚ) ^ kept.length ≠ 0 := pow_ne_zero _ (by norm_num)
  rw [pointValue, ← List.append_assoc, Nat.ofDigitChars_append, Nat.ofDigitChars_append,
    Nat.ofDigitChars_replicate_zero, digits, List.length_append, List.length_replicate]
  push_cast
  field_simp
  ring

theorem pointValue_eq (whole fraction : List Char) :
    pointValue whole fraction = (Nat.ofDigitChars 10 (whole ++ fraction) 0 : ℚ) / 10 ^ fraction.length := by
  -- the digits on both sides of the point, as one number over a power of ten
  have scale : (10 : ℚ) ^ fraction.length ≠ 0 := pow_ne_zero _ (by norm_num)
  have joined : Nat.ofDigitChars 10 fraction (Nat.ofDigitChars 10 whole 0) = _ := Nat.ofDigitChars_eq_ofDigitChars_zero
  rw [pointValue, Nat.ofDigitChars_append, joined]
  push_cast
  field_simp

theorem isLeast_places (digit : ∀ c ∈ fraction, c.isDigit = true) (last : fraction.getLast? ≠ some '0') :
    IsLeast {n : ℕ | ∃ k : ℤ, pointValue whole fraction * 10 ^ n = k} fraction.length := by
  -- a fraction that ends in no zero has as many digits as the value needs places
  constructor
  · refine ⟨Nat.ofDigitChars 10 (whole ++ fraction) 0, ?_⟩
    rw [pointValue_eq, div_mul_cancel₀ _ (pow_ne_zero _ (by norm_num)), Int.cast_natCast]
  · rintro n ⟨k, whole_multiple⟩
    by_contra short
    rcases List.eq_nil_or_concat fraction with rfl | ⟨front, c, rfl⟩
    · simp at short
    -- the last digit is left over
    have final := digit c (by simp)
    have nonzero : c.toNat ≠ '0'.toNat := by
      intro same
      refine last ?_
      rw [List.concat_eq_append, List.getLast?_concat, Char.toNat_inj.mp same]
    have range : 48 ≤ c.toNat ∧ c.toNat ≤ 57 := Char.isDigit_iff_toNat.mp final
    have ten : (10 : ℚ) ^ n ≠ 0 := pow_ne_zero _ (by norm_num)
    obtain ⟨extra, places⟩ : ∃ extra, (front.concat c).length = extra + 1 + n := ⟨(front.concat c).length - n - 1, by omega⟩
    rw [pointValue_eq, places, pow_add, div_mul_eq_mul_div, mul_div_mul_right _ _ ten,
      div_eq_iff (pow_ne_zero _ (by norm_num))] at whole_multiple
    have units : (Nat.ofDigitChars 10 (whole ++ front.concat c) 0 : ℤ) = k * 10 ^ extra * 10 := by
      rw [mul_assoc, ← pow_succ]
      exact_mod_cast whole_multiple
    rw [List.concat_eq_append, ← List.append_assoc, Nat.ofDigitChars_append, Nat.ofDigitChars_cons,
      Nat.ofDigitChars_nil] at units
    have zero : '0'.toNat = 48 := rfl
    rw [zero] at units nonzero
    omega

end Text

section Rendering

/-- `units.toString().padStart(places + 1, "0")` -/
def padded (units places : ℕ) : List Char :=
  (Nat.repr units).toList.leftpad (places + 1) '0'

def render (units places : ℕ) : List Char :=
  -- so many units of the last decimal place, as a numeral without final zeros after the point
  join ((padded units places).take ((padded units places).length - places))
    (((padded units places).drop ((padded units places).length - places)).rdropWhile (· == '0'))

/-- A numeral in its shortest form: a minus only before a negative value, no zero before another digit, and neither a
bare point nor a zero at the end of a fraction. -/
def Canonical (text : List Char) : Prop :=
  ∃ sign whole fraction, text = sign ++ join whole fraction ∧
    (sign = [] ∨ sign = ['-'] ∧ ∃ q, value? text = some q ∧ q < 0) ∧
    (∀ c ∈ whole, c.isDigit = true) ∧ (∀ c ∈ fraction, c.isDigit = true) ∧ whole ≠ [] ∧
    (whole.head? = some '0' → whole = ['0']) ∧ fraction.getLast? ≠ some '0'

variable (units places : ℕ)

theorem isDigit_of_mem_padded (c : Char) (member : c ∈ padded units places) : c.isDigit = true := by
  rcases List.mem_append.mp member with pad | digit
  · rw [List.eq_of_mem_replicate pad]
    rfl
  · rw [Nat.toList_repr] at digit
    exact Nat.isDigit_of_mem_toDigits (by decide) (by decide) digit

theorem lt_length_padded : places < (padded units places).length := by
  rw [padded, List.length_leftpad]
  omega

theorem ofDigitChars_padded : Nat.ofDigitChars 10 (padded units places) 0 = units := by
  simp only [padded, List.leftpad, Nat.ofDigitChars_append, Nat.ofDigitChars_replicate_zero, Nat.mul_zero,
    Nat.toList_repr, Nat.ofDigitChars_ten_toDigits]

theorem head?_toDigits {n : ℕ} (positive : 0 < n) : (Nat.toDigits 10 n).head? ≠ some '0' := by
  induction n using Nat.strong_induction_on with
  | h n ih =>
    by_cases single : n < 10
    · rw [Nat.toDigits_of_lt_base single]
      interval_cases n <;> decide
    · rw [Nat.toDigits_of_base_le (by decide) (by omega), List.head?_append_of_ne_nil _ Nat.toDigits_ne_nil]
      exact ih (n / 10) (by omega) (by omega)

omit units places in
theorem digitChar_toNat {c : Char} (digit : c.isDigit = true) : (c.toNat - '0'.toNat).digitChar = c ∧ c.toNat - '0'.toNat < 10 := by
  simp only [Char.isDigit, Bool.and_eq_true, decide_eq_true_eq, ge_iff_le, UInt32.le_iff_toNat_le] at digit
  have low : 48 ≤ c.toNat := digit.1
  have high : c.toNat ≤ 57 := digit.2
  refine ⟨Char.toNat_inj.mp ?_, ?_⟩
  · generalize c.toNat = n at low high ⊢
    interval_cases n <;> rfl
  · change c.toNat - 48 < 10
    omega

omit units places in
theorem toDigits_ofDigitChars {digits : List Char} (digit : ∀ c ∈ digits, c.isDigit = true) (given : digits ≠ []) :
    Nat.toDigits 10 (Nat.ofDigitChars 10 digits 0) = digits ↔ (digits.head? = some '0' → digits = ['0']) := by
  -- digits are the digits of their number exactly if they start with a zero only where that is the only one
  constructor
  · intro same zero
    by_cases positive : 0 < Nat.ofDigitChars 10 digits 0
    · rw [← same] at zero
      exact absurd zero (head?_toDigits positive)
    · have none : Nat.ofDigitChars 10 digits 0 = 0 := by omega
      rw [none] at same
      exact same.symm
  · intro leading
    induction digits using List.reverseRecOn with
    | nil => exact absurd rfl given
    | append_singleton more c ih =>
      obtain ⟨char, small⟩ := digitChar_toNat (digit c (by simp))
      rw [Nat.ofDigitChars_append, Nat.ofDigitChars_cons, Nat.ofDigitChars_nil]
      by_cases first : more = []
      · rw [first, Nat.ofDigitChars_nil, Nat.mul_zero, Nat.zero_add, Nat.toDigits_of_lt_base small, char]
        rfl
      · rw [List.head?_append_of_ne_nil _ first] at leading
        have nonzero : more.head? ≠ some '0' := by
          intro zero
          have short := congrArg List.length (leading zero)
          have long := List.length_pos_iff.mpr first
          rw [List.length_append] at short
          simp only [List.length_cons, List.length_nil] at short
          omega
        have before := ih (fun c member => digit c (List.mem_append_left _ member)) first (fun zero => absurd zero nonzero)
        have positive : 0 < Nat.ofDigitChars 10 more 0 := by
          refine Nat.pos_of_ne_zero fun none => nonzero ?_
          rw [← before, none]
          rfl
        rw [← Nat.toDigits_append_toDigits (by decide) positive small, before, Nat.toDigits_of_lt_base small, char]

theorem head?_padded (whole fraction : List Char) (split : padded units places = whole ++ fraction)
    (cut : fraction.length = places) (leading : whole.head? = some '0') : whole = ['0'] := by
  -- the digits before the point start with a zero only where that is the only one
  rw [padded, List.leftpad, Nat.toList_repr] at split
  have lengths := congrArg List.length split
  rw [List.length_append, List.length_append, List.length_replicate, cut] at lengths
  by_cases pad : (Nat.toDigits 10 units).length < places + 1
  · -- the pad leaves exactly one digit before the point
    have one : whole.length = 1 := by omega
    obtain ⟨c, rfl⟩ := List.length_eq_one_iff.mp one
    rw [List.head?_cons, Option.some.injEq] at leading
    rw [leading]
  · have none : places + 1 - (Nat.toDigits 10 units).length = 0 := by omega
    rw [none, List.replicate_zero, List.nil_append] at split
    have given : whole ≠ [] := by
      rintro rfl
      cases leading
    by_cases zero : units = 0
    · subst zero
      rw [Nat.toDigits_zero] at split lengths pad
      simp only [List.length_cons, List.length_nil] at lengths pad
      have bare : fraction = [] := List.eq_nil_of_length_eq_zero (by omega)
      rw [bare, List.append_nil] at split
      exact split.symm
    · refine absurd ?_ (head?_toDigits (Nat.pos_of_ne_zero zero))
      rw [split, List.head?_append_of_ne_nil _ given, leading]

theorem getLast?_rdropWhile (fraction : List Char) : (fraction.rdropWhile (· == '0')).getLast? ≠ some '0' := by
  intro last
  have kept : fraction.rdropWhile (· == '0') ≠ [] := by
    intro none
    rw [none] at last
    cases last
  refine List.rdropWhile_last_not _ _ kept ?_
  rw [List.getLast?_eq_some_getLast kept, Option.some.injEq] at last
  rw [last]
  rfl

theorem render_parts : ∃ whole fraction, render units places = join whole fraction ∧
    (∀ c ∈ whole, c.isDigit = true) ∧ (∀ c ∈ fraction, c.isDigit = true) ∧ whole ≠ [] ∧
    (whole.head? = some '0' → whole = ['0']) ∧ fraction.getLast? ≠ some '0' ∧
    pointValue whole fraction = (units : ℚ) / 10 ^ places := by
  obtain ⟨whole, fraction, split, cut, given⟩ : ∃ whole fraction : List Char,
      padded units places = whole ++ fraction ∧ fraction.length = places ∧ whole ≠ [] := by
    have long := lt_length_padded units places
    refine ⟨_, _, (List.take_append_drop ((padded units places).length - places) _).symm, ?_, ?_⟩
    · rw [List.length_drop]
      omega
    · rw [← List.length_pos_iff, List.length_take]
      omega
  have before : (padded units places).length - places = whole.length := by
    rw [split, List.length_append]
    omega
  have digit : ∀ c ∈ whole ++ fraction, c.isDigit = true := split ▸ isDigit_of_mem_padded units places
  refine ⟨whole, fraction.rdropWhile (· == '0'), ?_, fun c member => digit c (List.mem_append_left _ member),
    fun c member => digit c (List.mem_append_right _ ((List.rdropWhile_prefix _ _).subset member)), given,
    head?_padded units places whole fraction split cut, ?_, ?_⟩
  · rw [render, before, split, List.take_left, List.drop_left]
  · exact getLast?_rdropWhile fraction
  · rw [pointValue_trim split, ofDigitChars_padded, cut]

theorem value?_render : value? (render units places) = some ((units : ℚ) / 10 ^ places) := by
  obtain ⟨whole, fraction, same, digit, digit', given, -, -, value⟩ := render_parts units places
  rw [same, value?_join digit given, unsigned?_join digit digit' given, value]

theorem value?_neg_render : value? ('-' :: render units places) = some (-((units : ℚ) / 10 ^ places)) := by
  obtain ⟨whole, fraction, same, digit, digit', given, -, -, value⟩ := render_parts units places
  rw [same, value?, unsigned?_join digit digit' given, value, Option.map_some]

theorem value?_render_int (units : ℤ) :
    value? (if units < 0 then '-' :: render units.natAbs places else render units.natAbs places) =
      some ((units : ℚ) / 10 ^ places) := by
  split
  next negative =>
    have minus : (units.natAbs : ℚ) = -units := by
      rw [← Int.cast_natCast, Int.ofNat_natAbs_of_nonpos negative.le, Int.cast_neg]
    rw [value?_neg_render, minus, neg_div, neg_neg]
  next whole =>
    have plus : (units.natAbs : ℚ) = units := by
      rw [← Int.cast_natCast, Int.natAbs_of_nonneg (by omega)]
    rw [value?_render, plus]

theorem render_zero : render 0 places = ['0'] := by
  have zeros : padded 0 places = '0' :: List.replicate places '0' := by
    rw [padded, Nat.toList_repr, Nat.toDigits_zero, List.leftpad, List.length_singleton, Nat.add_sub_cancel,
      ← List.replicate_one, ← List.replicate_add, Nat.add_comm, List.replicate_add, List.replicate_one, List.singleton_append]
  have trimmed : (List.replicate places '0').rdropWhile (· == '0') = [] := by
    rw [List.rdropWhile_eq_nil_iff]
    intro c member
    rw [List.eq_of_mem_replicate member]
    rfl
  rw [render, zeros, List.length_cons, List.length_replicate, Nat.add_sub_cancel_left, List.take_succ_cons, List.take_zero,
    List.drop_succ_cons, List.drop_zero, trimmed, join, List.length_nil, if_neg (by omega)]

theorem head?_render : ∃ c, (render units places).head? = some c ∧ c.isDigit = true := by
  obtain ⟨whole, fraction, same, digit, -, given, -⟩ := render_parts units places
  obtain ⟨c, rest, rfl⟩ := List.exists_cons_of_ne_nil given
  refine ⟨c, ?_, digit c (List.mem_cons_self ..)⟩
  rw [same, join]
  split <;> rfl

theorem canonical_render : Canonical (render units places) := by
  obtain ⟨whole, fraction, same, digit, digit', given, leading, last, -⟩ := render_parts units places
  exact ⟨[], whole, fraction, by rw [same, List.nil_append], .inl rfl, digit, digit', given, leading, last⟩

theorem canonical_neg_render (negative : 0 < units) : Canonical ('-' :: render units places) := by
  obtain ⟨whole, fraction, same, digit, digit', given, leading, last, -⟩ := render_parts units places
  refine ⟨['-'], whole, fraction, by rw [same, List.singleton_append], .inr ⟨rfl, _, value?_neg_render units places, ?_⟩,
    digit, digit', given, leading, last⟩
  have positive : (0 : ℚ) < units := by exact_mod_cast negative
  have quotient : (0 : ℚ) < units / 10 ^ places := by positivity
  linarith

end Rendering

end Decimals
