import VerdictVaut.Shared.Decimals
import Mathlib.Data.Int.Cast.Lemmas

set_option autoImplicit false

-- the decimal strings of the web client: `lib/trading/decimal.ts` and `lib/wallet/decimal.ts`, whose `parseDecimal`s are
-- the same text
namespace VerdictVaut.Web

open Decimals

/-- `BigInt` of a text of digits; it throws on a text that is no numeral. -/
def bigInt? (text : List Char) : Option ℕ :=
  if text.all Char.isDigit then some (Nat.ofDigitChars 10 text 0) else none

structure Parsed where
  negative : Bool
  digits : ℕ
  scale : ℕ
  deriving DecidableEq

def parseDecimal (value : String) : Option Parsed :=
  let negative := decide (value.toList.head? = some '-')
  let unsigned := if negative then value.toList.drop 1 else value.toList
  let parts := unsigned.splitOn '.'
  let whole := parts.getD 0 ['0']
  let fraction := parts.getD 1 []
  let text := (if whole.isEmpty then ['0'] else whole) ++ fraction
  (bigInt? (if text.isEmpty then ['0'] else text)).map fun digits =>
    { negative := negative, digits := digits, scale := fraction.length }

def digitsToString (digits scale : ℕ) : List Char :=
  -- what both functions do with the digits of their result
  let digitsStr := (Nat.repr digits).toList.leftpad (scale + 1) '0'
  let whole := if 0 < scale then digitsStr.take (digitsStr.length - scale) else digitsStr
  let fraction := if 0 < scale then digitsStr.drop (digitsStr.length - scale) else []
  let trimmedFraction := fraction.rdropWhile (· == '0')
  if trimmedFraction.isEmpty then whole else whole ++ '.' :: trimmedFraction

def multiplyDecimalStrings (a b : String) : Option String := do
  let pa ← parseDecimal a
  let pb ← parseDecimal b
  let product := pa.digits * pb.digits
  let result := digitsToString product (pa.scale + pb.scale)
  let negative := pa.negative != pb.negative && decide (product ≠ 0)
  pure (String.ofList (if negative then '-' :: result else result))

def subtractDecimalStrings (a b : String) : Option String := do
  let pa ← parseDecimal a
  let pb ← parseDecimal b
  let scale := max pa.scale pb.scale
  let scaledA := (pa.digits * 10 ^ (scale - pa.scale) : ℕ) * (if pa.negative then -1 else 1 : ℤ)
  let scaledB := (pb.digits * 10 ^ (scale - pb.scale) : ℕ) * (if pb.negative then -1 else 1 : ℤ)
  let diff := scaledA - scaledB
  let negative := decide (diff < 0)
  let absDiff := diff.natAbs
  let result := digitsToString absDiff scale
  pure (String.ofList (if negative && decide (absDiff ≠ 0) then '-' :: result else result))

/-- `/^0(\.0*)?$/` -/
def isZero (text : List Char) : Bool :=
  decide (text = ['0']) || (decide (text.take 2 = ['0', '.']) && (text.drop 2).all (· == '0'))

def compareDecimalStrings (a b : String) : Option ℤ := do
  let diff ← subtractDecimalStrings a b
  pure (if isZero diff.toList then 0 else if diff.toList.head? = some '-' then -1 else 1)

def decimalPlaces (value : String) : ℕ :=
  (((value.toList.splitOn '.').getD 1 []).rdropWhile (· == '0')).length

/-- `-?digits(.digits)?` -/
def IsDecimal (text : String) : Prop :=
  ∃ sign whole fraction, (sign = [] ∨ sign = ['-']) ∧ (∀ c ∈ whole, c.isDigit = true) ∧ whole ≠ [] ∧
    (∀ c ∈ fraction, c.isDigit = true) ∧
    (text.toList = sign ++ whole ∨ fraction ≠ [] ∧ text.toList = sign ++ whole ++ '.' :: fraction)

section Rendering

theorem digitsToString_eq_render (digits scale : ℕ) : digitsToString digits scale = render digits scale := by
  have unfolded : (Nat.repr digits).toList.leftpad (scale + 1) '0' = padded digits scale := rfl
  have whole : (if 0 < scale then (padded digits scale).take ((padded digits scale).length - scale)
      else padded digits scale) = (padded digits scale).take ((padded digits scale).length - scale) := by
    split
    next => rfl
    next none => rw [List.take_of_length_le (by omega)]
  have fraction : (if 0 < scale then (padded digits scale).drop ((padded digits scale).length - scale) else []) =
      (padded digits scale).drop ((padded digits scale).length - scale) := by
    split
    next => rfl
    next none => rw [List.drop_eq_nil_of_le (by omega)]
  simp only [digitsToString, unfolded, whole, fraction, render, join]
  -- a fraction is left out exactly where nothing of it is left
  cases (((padded digits scale).drop ((padded digits scale).length - scale)).rdropWhile (· == '0')) with
  | nil => rfl
  | cons c rest => rfl

theorem value?_signed (digits scale : ℕ) (negative : Bool) :
    value? (if negative then '-' :: digitsToString digits scale else digitsToString digits scale) =
      some ((if negative then -1 else 1) * ((digits : ℚ) / 10 ^ scale)) := by
  rw [digitsToString_eq_render]
  cases negative with
  | false => simp only [Bool.false_eq_true, if_false, one_mul, value?_render]
  | true => simp only [if_true, neg_one_mul, value?_neg_render]

end Rendering

section Parsing

def Parsed.value (p : Parsed) : ℚ :=
  (if p.negative then -1 else 1) * ((p.digits : ℚ) / 10 ^ p.scale)

structure Parts (text sign whole fraction rest : List Char) : Prop where
  -- the parts of a decimal string, with its point where there is a fraction
  same : text = sign ++ (whole ++ rest)
  signed : sign = [] ∨ sign = ['-']
  digit : ∀ c ∈ whole, c.isDigit = true
  given : whole ≠ []
  digit' : ∀ c ∈ fraction, c.isDigit = true
  tail : rest = [] ∧ fraction = [] ∨ rest = '.' :: fraction

theorem IsDecimal.parts {text : String} (decimal : IsDecimal text) :
    ∃ sign whole fraction rest, Parts text.toList sign whole fraction rest := by
  obtain ⟨sign, whole, fraction, signed, digit, given, digit', same | ⟨-, same⟩⟩ := decimal
  · exact ⟨sign, whole, [], [], by rw [same, List.append_nil], signed, digit, given, by simp, .inl ⟨rfl, rfl⟩⟩
  · exact ⟨sign, whole, fraction, '.' :: fraction, by rw [same, List.append_assoc], signed, digit, given, digit', .inr rfl⟩

variable {text sign whole fraction rest : List Char} {value : String}

theorem ne_of_isDigit {c : Char} (digit : c.isDigit = true) : c ≠ '.' ∧ c ≠ '-' := by
  constructor <;> rintro rfl <;> cases digit

theorem Parts.split (parts : Parts text sign whole fraction rest) : ((whole ++ rest).splitOn '.').getD 0 ['0'] = whole ∧
    ((whole ++ rest).splitOn '.').getD 1 [] = fraction := by
  have plain : ∀ {digits : List Char}, (∀ c ∈ digits, c.isDigit = true) → ∀ c ∈ digits, (c == '.') = false := by
    intro digits digit c member
    exact beq_eq_false_iff_ne.mpr (ne_of_isDigit (digit c member)).1
  rcases parts.tail with ⟨rfl, rfl⟩ | rfl
  · rw [List.append_nil, List.splitOn_eq_splitOnP, List.splitOnP_eq_singleton (plain parts.digit)]
    exact ⟨rfl, rfl⟩
  · rw [List.splitOn_eq_splitOnP, List.splitOnP_append_cons_of_forall_mem (plain parts.digit) _ (by decide),
      List.splitOnP_eq_singleton (plain parts.digit')]
    exact ⟨rfl, rfl⟩

theorem Parts.sign_eq (parts : Parts text sign whole fraction rest) :
    (text.head? = some '-' ↔ sign = ['-']) ∧ text.drop sign.length = whole ++ rest := by
  refine ⟨?_, by rw [parts.same, List.drop_left]⟩
  rcases parts.signed with rfl | rfl
  · rw [parts.same, List.nil_append, List.head?_append_of_ne_nil _ parts.given]
    constructor
    · intro minus
      exact absurd rfl (ne_of_isDigit (parts.digit _ (List.mem_of_mem_head? minus))).2
    · intro absurd
      cases absurd
  · simp [parts.same]

theorem Parts.parse (parts : Parts value.toList sign whole fraction rest) : parseDecimal value =
    some ⟨decide (sign = ['-']), Nat.ofDigitChars 10 (whole ++ fraction) 0, fraction.length⟩ := by
  obtain ⟨minus, unsigned⟩ := parts.sign_eq
  have negative : decide (value.toList.head? = some '-') = decide (sign = ['-']) := by simp only [minus]
  have dropped : (if decide (sign = ['-']) = true then value.toList.drop 1 else value.toList) = whole ++ rest := by
    rcases parts.signed with rfl | rfl <;> exact unsigned
  obtain ⟨before, after⟩ := parts.split
  have full : ¬ whole.isEmpty = true := by
    rw [List.isEmpty_iff]
    exact parts.given
  have full' : ¬ (whole ++ fraction).isEmpty = true := by
    rw [List.isEmpty_iff, List.append_eq_nil_iff]
    exact fun none => parts.given none.1
  have digits : (whole ++ fraction).all Char.isDigit = true :=
    List.all_eq_true.mpr (List.forall_mem_append.mpr ⟨parts.digit, parts.digit'⟩)
  simp only [parseDecimal, negative, dropped, before, after, if_neg full, if_neg full', bigInt?, if_pos digits, Option.map_some]

theorem Parts.unsigned (parts : Parts text sign whole fraction rest) :
    unsigned? (whole ++ rest) = some (pointValue whole fraction) := by
  rcases parts.tail with ⟨rfl, rfl⟩ | rfl
  · rw [List.append_nil, unsigned?_whole parts.digit parts.given]
  · rw [unsigned?_point parts.digit parts.digit' parts.given]

theorem IsDecimal.parse (decimal : IsDecimal value) :
    ∃ p, parseDecimal value = some p ∧ value? value.toList = some p.value := by
  obtain ⟨sign, whole, fraction, rest, parts⟩ := decimal.parts
  refine ⟨_, parts.parse, ?_⟩
  rw [Parsed.value, ← pointValue_eq, parts.same]
  rcases parts.signed with rfl | rfl
  · rw [List.nil_append, value?_of_digits parts.digit parts.given, parts.unsigned]
    simp
  · rw [List.singleton_append, value?, parts.unsigned]
    simp

end Parsing

section Arithmetic

variable {a b : String} {p q : Parsed}

theorem value?_multiply (parsed : parseDecimal a = some p) (parsed' : parseDecimal b = some q) :
    ∃ text, multiplyDecimalStrings a b = some text ∧ value? text.toList = some (p.value * q.value) := by
  refine ⟨_, by rw [multiplyDecimalStrings, parsed, parsed']; rfl, ?_⟩
  rw [String.toList_ofList, value?_signed, Parsed.value, Parsed.value, Option.some.injEq]
  have scale : ((p.digits * q.digits : ℕ) : ℚ) / 10 ^ (p.scale + q.scale) =
      p.digits / 10 ^ p.scale * (q.digits / 10 ^ q.scale) := by
    rw [pow_add]
    push_cast
    rw [mul_div_mul_comm]
  rw [scale]
  by_cases zero : p.digits * q.digits = 0
  · -- a product that is zero has no sign to get wrong
    have none : (p.digits : ℚ) / 10 ^ p.scale * (q.digits / 10 ^ q.scale) = 0 := by
      rw [← scale, zero, Nat.cast_zero, zero_div]
    rw [none, mul_mul_mul_comm, none, mul_zero, mul_zero]
  · cases p.negative <;> cases q.negative <;> simp [zero]

def Parsed.scaledTo (p : Parsed) (scale : ℕ) : ℤ :=
  -- the signed digits at a scale that is at least their own
  (p.digits * 10 ^ (scale - p.scale) : ℕ) * (if p.negative then -1 else 1)

theorem Parsed.scaledTo_eq {scale : ℕ} (fits : p.scale ≤ scale) : (p.scaledTo scale : ℚ) / 10 ^ scale = p.value := by
  have power : (10 : ℚ) ^ scale = 10 ^ (scale - p.scale) * 10 ^ p.scale := by
    rw [← pow_add, Nat.sub_add_cancel fits]
  rw [Parsed.scaledTo, Parsed.value, power]
  push_cast
  have ten : (10 : ℚ) ^ (scale - p.scale) ≠ 0 := pow_ne_zero _ (by norm_num)
  have ten' : (10 : ℚ) ^ p.scale ≠ 0 := pow_ne_zero _ (by norm_num)
  field_simp

def difference (p q : Parsed) : ℤ :=
  -- the difference in units of the last place that either string has
  p.scaledTo (max p.scale q.scale) - q.scaledTo (max p.scale q.scale)

theorem difference_eq : (difference p q : ℚ) / 10 ^ max p.scale q.scale = p.value - q.value := by
  rw [difference, ← Parsed.scaledTo_eq (le_max_left p.scale q.scale), ← Parsed.scaledTo_eq (le_max_right p.scale q.scale)]
  push_cast
  rw [sub_div]

theorem subtract_eq (parsed : parseDecimal a = some p) (parsed' : parseDecimal b = some q) :
    subtractDecimalStrings a b = some (String.ofList (if difference p q < 0 then
      '-' :: render (difference p q).natAbs (max p.scale q.scale)
      else render (difference p q).natAbs (max p.scale q.scale))) := by
  have computed : subtractDecimalStrings a b = some (String.ofList
      (if decide (difference p q < 0) && decide ((difference p q).natAbs ≠ 0) then
        '-' :: digitsToString (difference p q).natAbs (max p.scale q.scale)
        else digitsToString (difference p q).natAbs (max p.scale q.scale))) := by
    rw [subtractDecimalStrings, parsed, parsed']
    rfl
  rw [computed, digitsToString_eq_render]
  congr 2
  refine if_congr ?_ rfl rfl
  simp only [Bool.and_eq_true, decide_eq_true_eq]
  omega

theorem value?_subtract (parsed : parseDecimal a = some p) (parsed' : parseDecimal b = some q) :
    ∃ text, subtractDecimalStrings a b = some text ∧ value? text.toList = some (p.value - q.value) := by
  refine ⟨_, subtract_eq parsed parsed', ?_⟩
  rw [String.toList_ofList, value?_render_int, difference_eq]

end Arithmetic

section Comparison

variable {a b : String} {p q : Parsed}

theorem value?_of_isZero {text : List Char} (zero : isZero text = true) : value? text = some 0 := by
  simp only [isZero, Bool.or_eq_true, Bool.and_eq_true, decide_eq_true_eq, List.all_eq_true, beq_iff_eq] at zero
  rcases zero with rfl | ⟨start, zeros⟩
  · decide +kernel
  · have form : text = ['0'] ++ '.' :: text.drop 2 := by
      rw [← List.take_append_drop 2 text, start]
      simp
    have only : text.drop 2 = List.replicate (text.drop 2).length '0' := List.eq_replicate_iff.mpr ⟨rfl, zeros⟩
    have digit : ∀ c ∈ ['0'], c.isDigit = true := List.forall_mem_singleton.mpr rfl
    rw [form, value?_of_digits digit (List.cons_ne_nil _ _), unsigned?_point digit _ (List.cons_ne_nil _ _), pointValue, only,
      Nat.ofDigitChars_replicate_zero]
    · simp [Nat.ofDigitChars_cons]
    · intro c member
      rw [zeros c member]
      rfl

theorem compare_eq (parsed : parseDecimal a = some p) (parsed' : parseDecimal b = some q) :
    compareDecimalStrings a b = some (if p.value < q.value then -1 else if p.value = q.value then 0 else 1) := by
  have power : (0 : ℚ) < 10 ^ max p.scale q.scale := pow_pos (by norm_num) _
  have apart : (difference p q : ℚ) / 10 ^ max p.scale q.scale = p.value - q.value := difference_eq
  have less : p.value < q.value ↔ difference p q < 0 := by
    rw [← sub_neg, ← apart, div_lt_iff₀ power, zero_mul, Int.cast_lt_zero]
  have equal : p.value = q.value ↔ difference p q = 0 := by
    rw [← sub_eq_zero, ← apart, div_eq_zero_iff, or_iff_left power.ne', Int.cast_eq_zero]
  have computed : compareDecimalStrings a b = (subtractDecimalStrings a b).map fun diff =>
      if isZero diff.toList then 0 else if diff.toList.head? = some '-' then -1 else 1 := by
    rw [compareDecimalStrings]
    cases subtractDecimalStrings a b <;> rfl
  rw [computed, subtract_eq parsed parsed', Option.map_some, String.toList_ofList]
  congr 1
  by_cases zero : difference p q = 0
  · rw [zero, if_neg (lt_irrefl 0), Int.natAbs_zero, render_zero, if_pos (by rfl), if_neg (by rw [less, zero]; omega),
      if_pos (equal.mpr zero)]
  · have denotes := value?_render_int (max p.scale q.scale) (difference p q)
    rw [if_neg]
    · by_cases negative : difference p q < 0
      · rw [if_pos negative, List.head?_cons, if_pos rfl, if_pos (less.mpr negative)]
      · obtain ⟨c, first, digit⟩ := head?_render (difference p q).natAbs (max p.scale q.scale)
        rw [if_neg negative, first, if_neg, if_neg (fun smaller => negative (less.mp smaller)),
          if_neg (fun same => zero (equal.mp same))]
        intro minus
        exact (ne_of_isDigit digit).2 (Option.some.inj minus)
    · intro matches_
      rw [value?_of_isZero matches_, Option.some.injEq, eq_comm, div_eq_zero_iff, or_iff_left power.ne',
        Int.cast_eq_zero] at denotes
      exact zero denotes

end Comparison

section Places

variable {value : String} {sign whole fraction rest : List Char}

theorem Parts.decimalPlaces_eq (parts : Parts value.toList sign whole fraction rest) :
    decimalPlaces value = (fraction.rdropWhile (· == '0')).length := by
  have plain : ∀ c ∈ sign ++ whole, (c == '.') = false := by
    intro c member
    rw [beq_eq_false_iff_ne]
    rcases List.mem_append.mp member with signs | digits
    · rcases parts.signed with rfl | rfl
      · cases signs
      · rw [List.mem_singleton.mp signs]
        decide
    · exact (ne_of_isDigit (parts.digit c digits)).1
  have plain' : ∀ c ∈ fraction, (c == '.') = false := fun c member =>
    beq_eq_false_iff_ne.mpr (ne_of_isDigit (parts.digit' c member)).1
  rw [decimalPlaces, parts.same, List.splitOn_eq_splitOnP]
  rcases parts.tail with ⟨rfl, rfl⟩ | rfl
  · rw [List.append_nil, List.splitOnP_eq_singleton plain]
    rfl
  · rw [← List.append_assoc, List.splitOnP_append_cons_of_forall_mem plain _ (by decide), List.splitOnP_eq_singleton plain']
    rfl

theorem decimalPlaces_least (decimal : IsDecimal value) {x : ℚ} (denotes : value? value.toList = some x) :
    IsLeast {n : ℕ | ∃ k : ℤ, x * 10 ^ n = k} (decimalPlaces value) := by
  obtain ⟨sign, whole, fraction, rest, parts⟩ := decimal.parts
  have kept : ∀ c ∈ fraction.rdropWhile (· == '0'), c.isDigit = true := fun c member =>
    parts.digit' c ((List.rdropWhile_prefix _ _).subset member)
  have least := @isLeast_places whole _ kept (getLast?_rdropWhile fraction)
  have trimmed : pointValue whole (fraction.rdropWhile (· == '0')) = pointValue whole fraction := by
    rw [pointValue_trim rfl, pointValue_eq]
  rw [trimmed, ← parts.decimalPlaces_eq] at least
  have magnitude := parts.unsigned
  rw [parts.same] at denotes
  rcases parts.signed with rfl | rfl
  · rw [List.nil_append, value?_of_digits parts.digit parts.given, magnitude, Option.some.injEq] at denotes
    rwa [denotes] at least
  · rw [List.singleton_append, value?, magnitude, Option.map_some, Option.some.injEq] at denotes
    -- a sign does not change what is an integer
    have same : {n : ℕ | ∃ k : ℤ, x * 10 ^ n = k} = {n : ℕ | ∃ k : ℤ, pointValue whole fraction * 10 ^ n = k} := by
      ext n
      rw [← denotes]
      constructor
      · rintro ⟨k, whole_multiple⟩
        exact ⟨-k, by rw [Int.cast_neg, ← whole_multiple]; ring⟩
      · rintro ⟨k, whole_multiple⟩
        exact ⟨-k, by rw [Int.cast_neg, ← whole_multiple]; ring⟩
    rwa [same]

end Places

/-- The client's decimal strings are exact: the product, the difference, the order and the number of decimals are those
of the rationals that the strings denote. -/
theorem decimalStrings_exact {a b : String} (decimal : IsDecimal a) (decimal' : IsDecimal b) :
    ∃ x y, value? a.toList = some x ∧ value? b.toList = some y ∧
      (∃ text, multiplyDecimalStrings a b = some text ∧ value? text.toList = some (x * y)) ∧
      (∃ text, subtractDecimalStrings a b = some text ∧ value? text.toList = some (x - y)) ∧
      compareDecimalStrings a b = some (if x < y then -1 else if x = y then 0 else 1) ∧
      IsLeast {n : ℕ | ∃ k : ℤ, x * 10 ^ n = k} (decimalPlaces a) := by
  obtain ⟨p, parsed, denotes⟩ := decimal.parse
  obtain ⟨q, parsed', denotes'⟩ := decimal'.parse
  exact ⟨p.value, q.value, denotes, denotes', value?_multiply parsed parsed', value?_subtract parsed parsed',
    compare_eq parsed parsed', decimalPlaces_least decimal denotes⟩

theorem signedStrings_exact : multiplyDecimalStrings "-0.50" "3.2" = some "-1.6" ∧
    subtractDecimalStrings "-0.50" "3.2" = some "-3.7" ∧ compareDecimalStrings "-0.50" "3.2" = some (-1) ∧
    decimalPlaces "-0.50" = 1 ∧
    ∃ x y, value? "-0.50".toList = some x ∧ value? "3.2".toList = some y ∧
      (∃ text, multiplyDecimalStrings "-0.50" "3.2" = some text ∧ value? text.toList = some (x * y)) ∧
      (∃ text, subtractDecimalStrings "-0.50" "3.2" = some text ∧ value? text.toList = some (x - y)) ∧
      compareDecimalStrings "-0.50" "3.2" = some (if x < y then -1 else if x = y then 0 else 1) ∧
      IsLeast {n : ℕ | ∃ k : ℤ, x * 10 ^ n = k} (decimalPlaces "-0.50") := by
  refine ⟨by decide +kernel, by decide +kernel, by decide +kernel, by decide +kernel, decimalStrings_exact ?_ ?_⟩
  · exact ⟨['-'], ['0'], ['5', '0'], .inr rfl, List.forall_mem_singleton.mpr rfl, List.cons_ne_nil _ _,
      List.forall_mem_cons.mpr ⟨rfl, List.forall_mem_singleton.mpr rfl⟩, .inr ⟨List.cons_ne_nil _ _, by decide +kernel⟩⟩
  · exact ⟨[], ['3'], ['2'], .inl rfl, List.forall_mem_singleton.mpr rfl, List.cons_ne_nil _ _,
      List.forall_mem_singleton.mpr rfl, .inr ⟨List.cons_ne_nil _ _, by decide +kernel⟩⟩

end VerdictVaut.Web
