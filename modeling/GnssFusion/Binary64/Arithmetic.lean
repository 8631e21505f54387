import GnssFusion.Binary64.Rounding

/-!
Arithmetic of binary64 numbers: the exact sum, product or quotient of the two
values, rounded once. The cases without a value give NaN, and zeros and
infinities take their signs as the format prescribes.
-/

namespace GnssFusion.Binary64

/-- The number nearest to `z` units; an exact zero takes the sign given. -/
def ofUnits (z : Int) (zeroNegative : Bool) : Binary64 :=
  if z = 0 then zero zeroNegative else ofQuotient (decide (z < 0)) z.natAbs 1

/-- The number nearest to an integer. -/
def ofInt (z : Int) : Binary64 := ofUnits (z * one) false

def ofNat (n : Nat) : Binary64 := ofInt n

/-- An exact zero is negative only as the sum of two negative zeros. -/
def add : Binary64 → Binary64 → Binary64
  | .nan, _ | _, .nan => .nan
  | .infinite a, .infinite b => if a = b then .infinite a else .nan
  | .infinite a, .finite .. => .infinite a
  | .finite .., .infinite b => .infinite b
  | .finite a m _, .finite b n _ => ofUnits (signed a m + signed b n) (a && b)

def sub (x y : Binary64) : Binary64 := add x (neg y)

def mul : Binary64 → Binary64 → Binary64
  | .nan, _ | _, .nan => .nan
  | .infinite a, .infinite b => .infinite (a ^^ b)
  | .infinite a, .finite b n _ | .finite b n _, .infinite a =>
      if n = 0 then .nan else .infinite (a ^^ b)
  | .finite a m _, .finite b n _ => ofQuotient (a ^^ b) (m * n) one

def div : Binary64 → Binary64 → Binary64
  | .nan, _ | _, .nan => .nan
  | .infinite _, .infinite _ => .nan
  | .infinite a, .finite b _ _ => .infinite (a ^^ b)
  | .finite a _ _, .infinite b => zero (a ^^ b)
  | .finite a m _, .finite b n _ =>
      if n = 0 then if m = 0 then .nan else .infinite (a ^^ b)
      else ofQuotient (a ^^ b) (m * one) n

instance : Add Binary64 := ⟨add⟩
instance : Sub Binary64 := ⟨sub⟩
instance : Mul Binary64 := ⟨mul⟩
instance : Div Binary64 := ⟨div⟩

def square (x : Binary64) : Binary64 := x * x

end GnssFusion.Binary64
