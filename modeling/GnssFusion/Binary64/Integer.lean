import GnssFusion.Binary64.Basic

/-!
Integers from binary64 numbers, for a target range: values outside the range go
to its nearer end, infinities to the end of their sign, and NaN to zero.
-/

namespace GnssFusion.Binary64

/-- The nearest value of the range `[lo, hi]`. -/
def clamp (lo hi z : Int) : Int := max lo (min hi z)

/-- Nearest integer, a half going away from zero. -/
def nearestInt (lo hi : Int) : Binary64 → Int
  | .nan => 0
  | .infinite negative => if negative then lo else hi
  | .finite negative n _ =>
      clamp lo hi (signed negative ((2 * n + one) / (2 * one)))

/-- The integer part, toward zero. -/
def truncInt (lo hi : Int) : Binary64 → Int
  | .nan => 0
  | .infinite negative => if negative then lo else hi
  | .finite negative n _ =>
      clamp lo hi (signed negative (n / one))

end GnssFusion.Binary64
