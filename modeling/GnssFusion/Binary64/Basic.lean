/-!
Binary64 numbers as exact values. A finite number is a sign and a whole count of
the smallest subnormal, `2 ^ -1074`; the count is restricted to those with at
most 53 significant bits. Every operation of the format is then exact arithmetic
on counts followed by one rounding, and comparisons are comparisons of integers.
-/

-- Powers of natural numbers are the core ones, whatever algebra a module imports.
attribute [default_instance high] instPowNat
attribute [instance(high)] instPowNat

namespace GnssFusion

/-- The units in one: `1 = 2 ^ 1074` times the smallest subnormal. -/
def Binary64.one : Nat := 2 ^ 1074

/-- The first power of two above every finite number, in units. -/
def Binary64.limit : Nat := 2 ^ 2098

/-- Binary exponent of the spacing of representable counts around `n`. -/
def Binary64.spacing (n : Nat) : Nat := n.log2 - 52

/-- The count is below the limit and a multiple of the spacing at its size. -/
def Binary64.Representable (n : Nat) : Prop :=
  n < Binary64.limit ∧ 2 ^ Binary64.spacing n ∣ n

instance (n : Nat) : Decidable (Binary64.Representable n) :=
  inferInstanceAs (Decidable (_ ∧ _))

/-- A binary64 number. All NaNs are one value; zeros and infinities are signed. -/
inductive Binary64
  | nan
  | infinite (negative : Bool)
  | finite (negative : Bool) (units : Nat) (representable : Binary64.Representable units)
  deriving DecidableEq

namespace Binary64

theorem limit_pos : 0 < limit := by decide +kernel

theorem representable_zero : Representable 0 := ⟨limit_pos, Nat.dvd_zero _⟩

def zero (negative : Bool) : Binary64 := .finite negative 0 representable_zero

instance : Inhabited Binary64 := ⟨zero false⟩

def signed (negative : Bool) (n : Nat) : Int := if negative then -(n : Int) else n

/-- The value in units, an infinity counting as the limit. Both zeros give 0. -/
def units? : Binary64 → Option Int
  | .nan => none
  | .infinite negative => some (signed negative limit)
  | .finite negative n _ => some (signed negative n)

def isFinite : Binary64 → Bool
  | .finite .. => true
  | _ => false

def isNaN : Binary64 → Bool
  | .nan => true
  | _ => false

/-- The sign, NaN counting as positive. -/
def isNegative : Binary64 → Bool
  | .nan => false
  | .infinite negative | .finite negative _ _ => negative

def neg : Binary64 → Binary64
  | .nan => .nan
  | .infinite negative => .infinite !negative
  | .finite negative n h => .finite (!negative) n h

instance : Neg Binary64 := ⟨neg⟩

/-- Numeric order; no comparison with NaN holds. -/
def lt (x y : Binary64) : Bool :=
  match x.units?, y.units? with
  | some a, some b => decide (a < b)
  | _, _ => false

def le (x y : Binary64) : Bool :=
  match x.units?, y.units? with
  | some a, some b => decide (a ≤ b)
  | _, _ => false

/-- Numeric equality: the zeros are equal and NaN differs from itself. -/
def numEq (x y : Binary64) : Bool :=
  match x.units?, y.units? with
  | some a, some b => decide (a = b)
  | _, _ => false

def signBit (negative : Bool) : UInt64 := if negative then 0x8000000000000000 else 0

/-- The 64-bit interchange encoding; NaN is written as the quiet one. Adding the
count shifted by its spacing to the shifted spacing carries the leading bit into
the exponent field, and leaves subnormal counts as they are. -/
def toBits : Binary64 → UInt64
  | .nan => 0x7ff8000000000000
  | .infinite negative => signBit negative ||| 0x7ff0000000000000
  | .finite negative n _ =>
      signBit negative ||| UInt64.ofNat ((spacing n <<< 52) + (n >>> spacing n))

end Binary64
end GnssFusion
