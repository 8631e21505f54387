import GnssFusion.Decimal.Basic

/-!
The shortest decimal that reads back to a given binary64 number. For one, two and
up to seventeen digits the two neighbours of the value on that decimal grid are
read back; the first grid with a hit wins, and of two hits the nearer one. A value
exactly between two hits goes the way its `Tie` says.
-/

namespace GnssFusion

/-- What to do with a value exactly between two decimals. -/
inductive Tie
  | up
  | even
  deriving DecidableEq, Repr

namespace Decimal

/-- The count whose number is nearest to the decimal. -/
def units (d : Decimal) : Nat := Binary64.round d.numerator d.denominator

/-- The `k` with `10 ^ (k - 1) ≤ n < 10 ^ k`, for `n` positive units. The scale makes
the smallest subnormal a number above one. -/
def places (n : Nat) : Int :=
  (Nat.toDigits 10 (n * 10 ^ 400 / Binary64.one)).length - 400

/-- Of the neighbours of a value the one that reads back, and the nearer one if both do.
The order is that of the value and the middle between them. -/
def nearer? (tie : Tie) (low high : Decimal) (order : Ordering) : Bool → Bool → Option Decimal
  | false, false => none
  | true, false => some low
  | false, true => some high
  | true, true =>
      match order, tie with
      | .lt, _ => some low
      | .gt, _ => some high
      | .eq, .up => some high
      | .eq, .even => some (if low.digits % 2 = 0 then low else high)

/-- The decimal with this exponent that is nearest to `n` units among the two
neighbours that read back to `n`, if one does. -/
def onGrid? (tie : Tie) (n : Nat) (exponent : Int) : Option Decimal :=
  let num := n * 10 ^ (-exponent).toNat
  let den := Binary64.one * 10 ^ exponent.toNat
  let low : Decimal := ⟨num / den, exponent⟩
  let high : Decimal := ⟨num / den + 1, exponent⟩
  nearer? tie low high (compare (2 * (num % den)) den) (low.units = n) (high.units = n)

/-- Every count has a finite decimal expansion. -/
def exact (n : Nat) : Decimal := ⟨n * 5 ^ 1074, -1074⟩

/-- The shortest decimal for `n` positive units, without trailing zeros. -/
def shortest (tie : Tie) (n : Nat) : Decimal :=
  let found := (List.range 17).findSome? fun p => onGrid? tie n (places n - (p + 1 : Nat))
  let d := found.getD (exact n)
  strip d.digits d.exponent

end Decimal
end GnssFusion
