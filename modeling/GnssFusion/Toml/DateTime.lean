import GnssFusion.Decimal.Numeral
import GnssFusion.Toml.Scan
import GnssFusion.Toml.Value

/-!
Dates and times: a date, a time, or a date with a time and perhaps an offset. Every
part has a fixed width and is held to its range.
-/

namespace GnssFusion.Toml

open GnssFusion.Scan

def isLeapYear (year : Nat) : Bool :=
  year % 4 == 0 && (year % 100 != 0 || year % 400 == 0)

def daysInMonth (year month : Nat) : Nat :=
  if month = 2 then if isLeapYear year then 29 else 28
  else if month = 4 ∨ month = 6 ∨ month = 9 ∨ month = 11 then 30
  else 31

namespace Scan

def numberIn (width low high : Nat) : Scan Nat := do
  let value := digitsValue (← exactly Char.isDigit width)
  if low ≤ value ∧ value ≤ high then return value else failure

def date : Scan Date := do
  let year ← numberIn 4 0 9999
  char '-'
  let month ← numberIn 2 1 12
  char '-'
  let day ← numberIn 2 1 (daysInMonth year month)
  return ⟨year, month, day⟩

/-- Nanoseconds of a fraction; digits after the ninth are dropped. -/
def nanoseconds : Scan Nat := do
  char '.'
  let digits ← takeWhile Char.isDigit
  if digits.isEmpty then failure
  let kept := digits.take 9
  return digitsValue kept * 10 ^ (9 - kept.length)

def clockTime : Scan ClockTime := do
  let hour ← numberIn 2 0 23
  char ':'
  let minute ← numberIn 2 0 59
  char ':'
  let second ← numberIn 2 0 60
  let nanosecond ← optional nanoseconds
  return ⟨hour, minute, second, nanosecond.getD 0⟩

def offset : Scan Offset :=
  (do
    let _ ← satisfy fun c => c == 'Z' || c == 'z'
    return .universal) <|> do
  let sign ← satisfy fun c => c == '+' || c == '-'
  let hours ← numberIn 2 0 23
  char ':'
  let minutes ← numberIn 2 0 59
  let count : Int := hours * 60 + minutes
  return .minutes (if sign == '-' then -count else count)

/-- The time and offset that may follow a date. -/
def timeOfDay : Scan (ClockTime × Option Offset) := do
  let _ ← satisfy fun c => c == 'T' || c == 't' || c == ' '
  let time ← clockTime
  let offset ← optional offset
  return (time, offset)

def dated : Scan DateTime := do
  let day ← date
  let rest ← optional timeOfDay
  return ⟨some day, rest.map (·.1), rest.bind (·.2)⟩

def timed : Scan DateTime := do
  let time ← clockTime
  return ⟨none, some time, none⟩

def dateTime : Scan DateTime := dated <|> timed

end Scan

def DateTime.ofText? (text : String) : Option DateTime := do
  let (value, rest) ← Scan.dateTime.run text.toList
  if rest.isEmpty then return value else none

end GnssFusion.Toml
