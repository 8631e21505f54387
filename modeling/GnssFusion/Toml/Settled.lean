import GnssFusion.Toml.DateTime

/-!
From tables as they are written to tables as they are used: the entries are sorted, and
a table whose first key is the date-time key stands for the date or time that its value
gives as text. Nothing else in such a table is looked at.
-/

namespace GnssFusion.Toml

/-- The first key of a table that stands for a date or time. -/
def dateTimeKey : String := "$__toml_private_datetime"

/-- The value under the date-time key, if that key is the first. -/
def dateTimeEntry? : Table → Option Value
  | [] => none
  | (key, value) :: _ => if key = dateTimeKey then some value else none

mutual

/-- The value that a written value is used as. A table that should stand for a date or
time but gives none has no use. -/
def Value.settle : Value → Option Value
  | .array items => do return .array (← settleItems items)
  | .table entries =>
      match dateTimeEntry? entries with
      | none => do return .table (← Table.settle entries)
      | some (.string text) => do return .dateTime (← DateTime.ofText? text)
      | some _ => none
  | value => some value

def settleItems : List Value → Option (List Value)
  | [] => some []
  | value :: rest => do return (← value.settle) :: (← settleItems rest)

/-- The entries with their values settled, in ascending order of keys. -/
def Table.settle : List (String × Value) → Option Table
  | [] => some []
  | (key, value) :: rest => do return insertSorted key (← value.settle) (← Table.settle rest)

end

end GnssFusion.Toml
