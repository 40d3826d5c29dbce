import VerdictVaut.Wallet.Adapters
import VerdictVaut.Shared.Decimals

set_option autoImplicit false

namespace VerdictVaut

variable (units : Int) (decimals : Nat)

theorem toList_rawUnitsToDecimalString : (rawUnitsToDecimalString units decimals).toList =
    if units < 0 then '-' :: Decimals.render units.natAbs decimals else Decimals.render units.natAbs decimals := by
  have long := Decimals.lt_length_padded units.natAbs decimals
  have given : ¬ ((Decimals.padded units.natAbs decimals).take
      ((Decimals.padded units.natAbs decimals).length - decimals)).isEmpty = true := by
    rw [List.isEmpty_iff, ← List.length_eq_zero_iff, List.length_take]
    omega
  -- without decimals there is nothing after the point
  have fraction : (if 0 < decimals then
      (Decimals.padded units.natAbs decimals).drop ((Decimals.padded units.natAbs decimals).length - decimals) else []) =
      (Decimals.padded units.natAbs decimals).drop ((Decimals.padded units.natAbs decimals).length - decimals) := by
    split
    next => rfl
    next none => rw [List.drop_eq_nil_of_le (by omega)]
  have unfolded : (Nat.repr units.natAbs).toList.leftpad (decimals + 1) '0' = Decimals.padded units.natAbs decimals := rfl
  simp only [rawUnitsToDecimalString, String.toList_ofList, unfolded, fraction, if_neg given, Decimals.render, Decimals.join]

theorem value?_rawUnitsToDecimalString :
    Decimals.value? (rawUnitsToDecimalString units decimals).toList = some ((units : ℚ) / 10 ^ decimals) := by
  -- the amount text of a mapper denotes the raw units it was made from, whatever their number of decimals
  rw [toList_rawUnitsToDecimalString, Decimals.value?_render_int]

/-- Unit conversion is exact and canonical: the text denotes the units over the power of ten, in its shortest form, and
reading it back gives the units. -/
theorem rawUnitsToDecimalString_exact :
    Decimals.value? (rawUnitsToDecimalString units decimals).toList = some ((units : ℚ) / 10 ^ decimals) ∧
    Decimals.Canonical (rawUnitsToDecimalString units decimals).toList ∧
    (∀ other : Int, rawUnitsToDecimalString other decimals = rawUnitsToDecimalString units decimals → other = units) ∧
    (Decimals.value? (rawUnitsToDecimalString units decimals).toList).map (· * 10 ^ decimals) = some (units : ℚ) := by
  have scale : (10 : ℚ) ^ decimals ≠ 0 := pow_ne_zero _ (by norm_num)
  have denotes := value?_rawUnitsToDecimalString units decimals
  refine ⟨denotes, ?_, fun other same => ?_, ?_⟩
  · rw [toList_rawUnitsToDecimalString]
    split
    next negative => exact Decimals.canonical_neg_render _ _ (by omega)
    next => exact Decimals.canonical_render _ _
  · have again := value?_rawUnitsToDecimalString other decimals
    rw [same, denotes, Option.some.injEq, div_left_inj' scale] at again
    exact_mod_cast again.symm
  · rw [denotes, Option.map_some, div_mul_cancel₀ _ scale]

end VerdictVaut
