import GnssFusion.Binary64.Rounding

/-!
Decimals as a whole number of powers of ten, and the binary64 number nearest to
one. Decimals far outside the range of the format are settled by their digit
count, so that no power of ten is formed for them.
-/

namespace GnssFusion

/-- The value `digits * 10 ^ exponent`. -/
structure Decimal where
  digits : Nat
  exponent : Int
  deriving DecidableEq, Repr

namespace Decimal

/-- Numerator of the value in units of the smallest subnormal. -/
def numerator (d : Decimal) : Nat := d.digits * Binary64.one * 10 ^ d.exponent.toNat

/-- Denominator of the value in units of the smallest subnormal. -/
def denominator (d : Decimal) : Nat := 10 ^ (-d.exponent).toNat

/-- Drops trailing zeros of the digits. -/
def strip (digits : Nat) (exponent : Int) : Decimal :=
  if digits ≠ 0 ∧ digits % 10 = 0 then strip (digits / 10) (exponent + 1)
  else ⟨digits, exponent⟩
termination_by digits
decreasing_by omega

end Decimal

/-- The number nearest to `± d`. From `10 ^ 309` on it is infinite, and below
`10 ^ -324`, less than half the smallest subnormal, it is zero. -/
def Binary64.ofDecimal (negative : Bool) (d : Decimal) : Binary64 :=
  let places : Int := (Nat.toDigits 10 d.digits).length + d.exponent
  if d.digits = 0 ∨ places ≤ -324 then .zero negative
  else if 310 ≤ places then .infinite negative
  else .ofQuotient negative d.numerator d.denominator

end GnssFusion
