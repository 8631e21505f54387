import GnssFusion.Decimal.Shortest
import GnssFusion.Digits

/-!
The three written forms of a binary64 number: plain, for messages, which never has
an exponent; with a fixed number of places, from the exact value; and tabular,
which always shows a point or an exponent and reads back to the same number.
-/

namespace GnssFusion

/-- Digits with a point that leaves the given number of places behind it. -/
def pointed (digits : List Char) (places : Nat) : List Char :=
  let padded := zeros (places + 1 - digits.length) ++ digits
  padded.take (padded.length - places) ++ '.' :: padded.drop (padded.length - places)

namespace Decimal

/-- Positional notation: zeros to the right of a whole number, a point otherwise. -/
def plain (d : Decimal) : List Char :=
  let digits := Nat.toDigits 10 d.digits
  if 0 ≤ d.exponent then digits ++ zeros d.exponent.toNat
  else pointed digits (-d.exponent).toNat

/-- Whole numbers below `10 ^ 16` end in `.0`, numbers from `10 ^ -5` on are
positional, and all others have an exponent. -/
def tabular (d : Decimal) : List Char :=
  let digits := Nat.toDigits 10 d.digits
  let k : Int := digits.length + d.exponent
  if 0 ≤ d.exponent ∧ k ≤ 16 then digits ++ zeros d.exponent.toNat ++ ['.', '0']
  else if d.exponent < 0 ∧ -5 < k ∧ k ≤ 16 then pointed digits (-d.exponent).toNat
  else
    let mantissa := if digits.length = 1 then digits else pointed digits (digits.length - 1)
    mantissa ++ 'e' :: (toString (k - 1)).toList

end Decimal

namespace Binary64

def withSign (negative : Bool) (text : List Char) : List Char :=
  if negative then '-' :: text else text

def plain : Binary64 → String
  | .nan => "NaN"
  | .infinite negative => String.ofList (withSign negative ['i', 'n', 'f'])
  | .finite negative n _ =>
      String.ofList (withSign negative (if n = 0 then ['0'] else (Decimal.shortest .up n).plain))

/-- Exactly rounded text with the given number of places, ties going to even. -/
def fixed (places : Nat) : Binary64 → String
  | .nan => "NaN"
  | .infinite negative => String.ofList (withSign negative ['i', 'n', 'f'])
  | .finite negative n _ =>
      let digits := Nat.toDigits 10 (nearestEven (n * 10 ^ places) one)
      String.ofList (withSign negative (if places = 0 then digits else pointed digits places))

def tabular : Binary64 → String
  | .nan => "NaN"
  | .infinite negative => String.ofList (withSign negative ['i', 'n', 'f'])
  | .finite negative n _ =>
      String.ofList (withSign negative
        (if n = 0 then ['0', '.', '0'] else (Decimal.shortest .even n).tabular))

end Binary64
end GnssFusion
