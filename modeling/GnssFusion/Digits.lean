/-!
Digits of numbers in a base of up to sixteen: reading a run of digits, also as the code
of a character, and writing a number with at least a given number of them.
-/

namespace GnssFusion

def isHexDigit (c : Char) : Bool :=
  c.isDigit || ('a' ≤ c && c ≤ 'f') || ('A' ≤ c && c ≤ 'F')

/-- The value of a hexadecimal digit, of either case. -/
def digitValue (c : Char) : Nat :=
  if c.isDigit then c.toNat - '0'.toNat
  else if 'a' ≤ c then c.toNat - 'a'.toNat + 10
  else c.toNat - 'A'.toNat + 10

/-- The number written by digits in a base, the empty run being zero. -/
def ofDigits (base : Nat) (digits : List Char) : Nat :=
  digits.foldl (fun value c => base * value + digitValue c) 0

def digitsValue (digits : List Char) : Nat := ofDigits 10 digits

def charOfCode? (code : Nat) : Option Char :=
  if code.isValidChar then some (Char.ofNat code) else none

def zeros (n : Nat) : List Char := List.replicate n '0'

/-- The digits of a number, with zeros in front up to a width. -/
def paddedDigits (base width n : Nat) : List Char :=
  let digits := Nat.toDigits base n
  zeros (width - digits.length) ++ digits

end GnssFusion
