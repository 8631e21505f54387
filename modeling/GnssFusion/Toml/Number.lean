import GnssFusion.Decimal.Numeral
import GnssFusion.Toml.Text
import GnssFusion.Toml.Value

/-!
Integers and floats. Underscores may stand between digits; decimal integers have no
leading zeros, and integers are held to the signed 64-bit range.
-/

namespace GnssFusion.Toml.Scan

open GnssFusion.Scan

/-- Digits that satisfy the test, with single underscores between them. -/
def digits (test : Char → Bool) : Scan (List Char) := do
  let first ← satisfy test
  let rest ← many (do
    let _ ← accept '_'
    satisfy test)
  if (← peek?) = some '_' then failure else return first :: rest

def sign : Scan Bool := do
  if ← accept '-' then return true
  let _ ← accept '+'
  return false

def wholeDigits : Scan (List Char) := do
  let text ← digits Char.isDigit
  if text.length ≠ 1 ∧ text.head? = some '0' then failure else return text

def inRange (value : Int) : Scan Value :=
  if Int64.minValue.toInt ≤ value ∧ value ≤ Int64.maxValue.toInt then return .integer value
  else failure

def decimalInteger : Scan Value := do
  let negative ← sign
  let value : Int := digitsValue (← wholeDigits)
  inRange (if negative then -value else value)

/-- An integer in base sixteen, eight or two, without a sign. -/
def radixInteger (mark : Char) (base : Nat) (test : Char → Bool) : Scan Value := do
  literal ['0', mark]
  inRange (ofDigits base (← digits test))

def integer : Scan Value :=
  radixInteger 'x' 16 isHexDigit
    <|> radixInteger 'o' 8 (fun c => '0' ≤ c && c ≤ '7')
    <|> radixInteger 'b' 2 (fun c => c == '0' || c == '1')
    <|> decimalInteger

def exponent : Scan Int := do
  let _ ← satisfy fun c => c == 'e' || c == 'E'
  let negative ← sign
  let value : Int := digitsValue (← digits Char.isDigit)
  return if negative then -value else value

def fraction : Scan (List Char) := do
  char '.'
  digits Char.isDigit

/-- A float with a fraction, an exponent, or both; it may not exceed the greatest
finite number. -/
def numericFloat : Scan Value := do
  let negative ← sign
  let whole ← wholeDigits
  let places ← optional fraction
  let power ← optional exponent
  if places.isNone && power.isNone then failure
  let value := Binary64.ofDecimal negative (.ofParts whole (places.getD []) (power.getD 0))
  if value = .infinite false then failure else return .float value

def specialFloat : Scan Value := do
  let negative ← sign
  (do literal ['i', 'n', 'f']; return .float (.infinite negative))
    <|> (do literal ['n', 'a', 'n']; return .float .nan)

def float : Scan Value := numericFloat <|> specialFloat

end GnssFusion.Toml.Scan
