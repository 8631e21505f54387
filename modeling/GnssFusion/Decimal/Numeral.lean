import GnssFusion.Decimal.Basic
import GnssFusion.Digits

/-!
Reading decimal numerals: an optional sign, digits with an optional point, and an
optional exponent, or one of the words for the special numbers.
-/

namespace GnssFusion

/-- A number given by the digits before and after its point and an exponent. -/
def Decimal.ofParts (whole fraction : List Char) (exponent : Int) : Decimal :=
  ⟨digitsValue (whole ++ fraction), exponent - fraction.length⟩

/-- Splits a leading sign off; no sign is positive. -/
def splitSign : List Char → Bool × List Char
  | '-' :: rest => (true, rest)
  | '+' :: rest => (false, rest)
  | rest => (false, rest)

/-- An exponent at the end of a numeral: nothing, or `e` with a signed integer. -/
def exponent? : List Char → Option Int
  | [] => some 0
  | c :: rest =>
      let (negative, digits) := splitSign rest
      if (c == 'e' || c == 'E') && !digits.isEmpty && digits.all Char.isDigit then
        some (if negative then -(digitsValue digits : Int) else digitsValue digits)
      else none

/-- An unsigned numeral with at least one digit. -/
def Decimal.ofNumeral? (text : List Char) : Option Decimal :=
  let whole := text.takeWhile Char.isDigit
  let rest := text.dropWhile Char.isDigit
  let (fraction, rest) := match rest with
    | '.' :: rest => (rest.takeWhile Char.isDigit, rest.dropWhile Char.isDigit)
    | rest => ([], rest)
  if whole.isEmpty && fraction.isEmpty then none
  else (exponent? rest).map (.ofParts whole fraction)

/-- The number nearest to a numeral; `inf` and `nan` are read in any case. -/
def Binary64.ofNumeral? (text : List Char) : Option Binary64 :=
  let (negative, rest) := splitSign text
  match rest.map Char.toLower with
  | ['n', 'a', 'n'] => some .nan
  | ['i', 'n', 'f'] => some (.infinite negative)
  | _ => (Decimal.ofNumeral? rest).map (.ofDecimal negative)

end GnssFusion
