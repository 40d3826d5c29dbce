import VerdictVaut.Shared.Rounding

set_option autoImplicit false

-- `Prisma.Decimal` under the default settings of its library, and the columns that its values are written to
namespace VerdictVaut.Decimal

open Decimals

def PRECISION : ℕ := 20

def SCALE : ℕ := 18

def plus (a b : ℚ) : ℚ := toSignificant PRECISION (a + b)

def minus (a b : ℚ) : ℚ := toSignificant PRECISION (a - b)

def times (a b : ℚ) : ℚ := toSignificant PRECISION (a * b)

def dividedBy (a b : ℚ) : ℚ := toSignificant PRECISION (a / b)

/-- A value as a `Decimal(36, 18)` column keeps it. -/
def column (x : ℚ) : ℚ := toPlaces SCALE x

section Exact

variable {a b x : ℚ}

theorem plus_eq_iff : plus a b = a + b ↔ Significant PRECISION (a + b) := toSignificant_eq_self_iff

theorem minus_eq_iff : minus a b = a - b ↔ Significant PRECISION (a - b) := toSignificant_eq_self_iff

theorem column_eq_iff : column x = x ↔ Places SCALE x := toPlaces_eq_self_iff

theorem column_plus (left : Places SCALE a) (right : Places SCALE b) : column (plus a b) = plus a b :=
  column_eq_iff.mpr ((left.add right).toSignificant PRECISION)

theorem column_minus (left : Places SCALE a) (right : Places SCALE b) : column (minus a b) = minus a b :=
  column_eq_iff.mpr ((left.sub right).toSignificant PRECISION)

theorem column_units (units : ℚ) : column (units / 10 ^ 18) = roundHalfAway units / 10 ^ 18 := toPlaces_units 18 units

end Exact

end VerdictVaut.Decimal
