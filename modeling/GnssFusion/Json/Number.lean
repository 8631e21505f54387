import GnssFusion.Binary64.Arithmetic
import GnssFusion.Decimal.Basic
import GnssFusion.Json.Read

/-!
Numbers. One without fraction and exponent that fits 64 bits is an integer, and every
other one a float: as many of its digits as fit 64 bits are taken as a whole number,
which is then multiplied or divided once by a power of ten.
-/

namespace GnssFusion.Json

structure NumberText where
  negative : Bool
  whole : List Char
  fraction : Option (List Char)
  /-- Whether the exponent is negative, and its digits. -/
  exponent : Option (Bool × List Char)
  deriving DecidableEq, Repr

inductive Number
  | integer (value : Int)
  | float (value : Binary64)
  deriving DecidableEq

namespace Read

/-- One or more digits; `atEnd` is the fault if the text ends instead. -/
def digits (atEnd : Fault) : Read (List Char) := do
  let text ← takeWhile Char.isDigit
  if !text.isEmpty then return text
  if (← peek?).isNone then throw atEnd else throw .malformed

/-- Whether a minus sign stands first; it is taken. -/
def minus : Read Bool := do
  let negative := (← peek?) = some '-'
  if negative then drop
  return negative

/-- The digits behind a point, if there is one. -/
def fraction (atEnd : Fault) : Read (Option (List Char)) := do
  if (← peek?) = some '.' then
    drop
    some <$> digits atEnd
  else return none

/-- The exponent, if there is one: whether it is negative, and its digits. -/
def exponent (atEnd : Fault) : Read (Option (Bool × List Char)) := do
  match ← peek? with
  | some 'e' | some 'E' => do
      drop
      let mark ← peek?
      if mark = some '-' ∨ mark = some '+' then drop
      let power ← digits atEnd
      return some (decide (mark = some '-'), power)
  | _ => return none

/-- The parts of a number. There are no leading zeros, and digits follow the point and
the mark of the exponent. -/
def numberText (atEnd : Fault) : Read NumberText := do
  let negative ← minus
  let whole ← digits atEnd
  if 1 < whole.length ∧ whole.head? = some '0' then throw .malformed
  return ⟨negative, whole, ← fraction atEnd, ← exponent atEnd⟩

end Read

namespace Number

def wordLimit : Nat := 2 ^ 64

/-- Appends digits to a number as long as it fits 64 bits, and gives the digits left. -/
def append (value : Nat) : List Char → Nat × List Char
  | [] => (value, [])
  | c :: rest =>
      let longer := 10 * value + digitValue c
      if longer < wordLimit then append longer rest else (value, c :: rest)

def powerOfTen (n : Nat) : Binary64 := .ofDecimal false ⟨1, n⟩

/-- Divides by a power of ten, in steps of the greatest one there is. -/
def divideByPower (x : Binary64) (n : Nat) : Binary64 :=
  if n ≤ 308 then x / powerOfTen n
  else if x = .zero false then x
  else divideByPower (x / powerOfTen 308) (n - 308)
termination_by n

/-- Multiplies by a power of ten; there is no result beyond the finite numbers. -/
def multiplyByPower? (x : Binary64) (n : Nat) : Option Binary64 :=
  if x = .zero false then some x
  else if 308 < n then none
  else
    let product := x * powerOfTen n
    if product.isFinite then some product else none

/-- The float `significand * 10 ^ exponent`. -/
def scaled? (significand : Nat) (exponent : Int) : Option Binary64 :=
  let x := Binary64.ofNat significand
  if 0 ≤ exponent then multiplyByPower? x exponent.toNat
  else some (divideByPower x exponent.natAbs)

/-- Exponents are held to 32 bits; a larger one gives zero, or no number at all. -/
def exponentLimit : Nat := 2 ^ 31

/-- The number of a text that is not an integer. -/
def float? (text : NumberText) (significand : Nat) (more : List Char) : Option Binary64 := do
  let fraction := text.fraction.getD []
  let (significand, dropped) := append significand fraction
  let shift : Int := more.length - (fraction.length - dropped.length : Nat)
  let (negativePower, power) := text.exponent.getD (false, [])
  let power := digitsValue power
  let magnitude ←
    if exponentLimit ≤ power then
      if significand ≠ 0 ∧ !negativePower then none else some (.zero false)
    else scaled? significand (shift + if negativePower then -(power : Int) else power)
  return if text.negative then -magnitude else magnitude

/-- The number of a text, if it is not beyond the finite ones. -/
def ofText? (text : NumberText) : Option Number :=
  let (significand, more) := append 0 text.whole
  if text.fraction.isNone ∧ text.exponent.isNone ∧ more = [] then
    if !text.negative then some (.integer significand)
    else if significand = 0 ∨ 2 ^ 63 < significand then
      some (.float (-Binary64.ofNat significand))
    else some (.integer (-significand))
  else (float? text significand more).map .float

/-- The value as a float, integers being rounded. -/
def toFloat : Number → Binary64
  | .integer z => .ofInt z
  | .float x => x

end Number

namespace Read

def number : Read Number := do
  match Number.ofText? (← numberText .truncated) with
  | some n => return n
  | none => throw .malformed

def skipNumber : Read Unit := do
  let _ ← numberText .malformed

end Read
end GnssFusion.Json
