import GnssFusion.Binary64.Basic
import GnssFusion.Digits

/-!
Values of a TOML document. A table lists each key once: in the order in which the keys
were written while the document is read, and in ascending order afterwards.
-/

namespace GnssFusion.Toml

structure Date where
  year : Nat
  month : Nat
  day : Nat
  deriving DecidableEq, Repr

structure ClockTime where
  hour : Nat
  minute : Nat
  second : Nat
  nanosecond : Nat
  deriving DecidableEq, Repr

inductive Offset
  | universal
  | minutes (count : Int)
  deriving DecidableEq, Repr

/-- A date, a time, or both, the latter perhaps with an offset. -/
structure DateTime where
  date : Option Date
  time : Option ClockTime
  offset : Option Offset
  deriving DecidableEq, Repr

inductive Value
  | string (text : String)
  | integer (value : Int)
  | float (value : Binary64)
  | boolean (value : Bool)
  | dateTime (value : DateTime)
  | array (items : List Value)
  | table (entries : List (String × Value))

abbrev Table := List (String × Value)

/-- Inserts an entry at the place of its key, replacing one of the same key. -/
def insertSorted {α : Type} (key : String) (value : α) : List (String × α) → List (String × α)
  | [] => [(key, value)]
  | (k, v) :: rest =>
      if key < k then (key, value) :: (k, v) :: rest
      else if key = k then (key, value) :: rest
      else (k, v) :: insertSorted key value rest

/-! Written forms of dates and times. -/

def padded (width n : Nat) : String := String.ofList (paddedDigits 10 width n)

def Date.text (date : Date) : String :=
  padded 4 date.year ++ "-" ++ padded 2 date.month ++ "-" ++ padded 2 date.day

/-- A fraction of a second shows its digits up to the last one that is not zero. -/
def ClockTime.text (time : ClockTime) : String :=
  let whole := padded 2 time.hour ++ ":" ++ padded 2 time.minute ++ ":" ++ padded 2 time.second
  if time.nanosecond = 0 then whole
  else
    let digits := (paddedDigits 10 9 time.nanosecond).reverse.dropWhile (· == '0')
    whole ++ "." ++ String.ofList digits.reverse

def Offset.text : Offset → String
  | .universal => "Z"
  | .minutes count =>
      let sign := if count < 0 then "-" else "+"
      sign ++ padded 2 (count.natAbs / 60) ++ ":" ++ padded 2 (count.natAbs % 60)

def DateTime.text (value : DateTime) : String :=
  let date := (value.date.map Date.text).getD ""
  let separator := if value.date.isSome && value.time.isSome then "T" else ""
  let time := (value.time.map ClockTime.text).getD ""
  date ++ separator ++ time ++ (value.offset.map Offset.text).getD ""

end GnssFusion.Toml
