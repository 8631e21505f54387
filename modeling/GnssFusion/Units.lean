import GnssFusion.Binary64.Arithmetic
import GnssFusion.Binary64.Integer
import GnssFusion.Decimal.Basic

/-!
Conversions between the receiver's integer encodings and degrees, metres and
metres per second. Each is one or two binary64 operations on the encoded integer.
-/

namespace GnssFusion.Units

/-- The number nearest to `10 ^ -7`. -/
def tenMillionth : Binary64 := .ofDecimal false ⟨1, -7⟩

/-- The number nearest to `10 ^ -3`. -/
def thousandth : Binary64 := .ofDecimal false ⟨1, -3⟩

/-- Degrees of an angle in `1e-7` degrees. -/
def degrees (angle : Int) : Binary64 := .ofInt angle * tenMillionth

/-- Metres of a length in millimetres. -/
def metres (millimetres : Binary64) : Binary64 := millimetres * thousandth

/-- Metres of a whole number of millimetres. -/
def metresOfInt (millimetres : Int) : Binary64 := metres (.ofInt millimetres)

/-- The nearest whole number of millimetres, a half going away from zero, held to
the 32-bit range. -/
def millimetres (metres : Binary64) : Int32 :=
  Int32.ofInt (Binary64.nearestInt Int32.minValue.toInt Int32.maxValue.toInt (metres * .ofNat 1000))

/-- Metres per second of a speed in centimetres per second. -/
def metresPerSecond (speed : Int) : Binary64 := .ofInt speed / .ofNat 100

/-- Variance in square metres of an accuracy estimate in millimetres. -/
def positionVariance (accuracy : UInt32) : Binary64 :=
  (.ofNat accuracy.toNat / .ofNat 1000 : Binary64).square

/-- Variance in square metres per second of an accuracy estimate in centimetres per
second. -/
def speedVariance (accuracy : UInt32) : Binary64 :=
  (.ofNat accuracy.toNat / .ofNat 100 : Binary64).square

end GnssFusion.Units
