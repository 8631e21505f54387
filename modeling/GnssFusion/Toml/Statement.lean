import GnssFusion.Toml.DateTime
import GnssFusion.Toml.Draft
import GnssFusion.Toml.Number

/-!
Values and the lines of a document. Arrays and inline tables are scanned with the
number of levels that may still nest.
-/

namespace GnssFusion.Toml

open GnssFusion.Scan

/-- A line of a document that says something. -/
inductive Statement
  | assign (path : List String) (value : Value)
  | table (path : List String)
  | tableArray (path : List String)

namespace Scan

def boolean : Scan Value :=
  (do literal ['t', 'r', 'u', 'e']; return .boolean true)
    <|> (do literal ['f', 'a', 'l', 's', 'e']; return .boolean false)

def scalar : Scan Value :=
  (Value.string <$> quoted) <|> boolean <|> (Value.dateTime <$> dateTime)
    <|> float <|> integer

/-- An item of an array, with comments and line ends anywhere around it. -/
def item (value : Scan Value) : Scan Value := do
  filler
  let item ← value
  filler
  return item

/-- Items separated by commas, of which one may follow the last item. -/
def items (value : Scan Value) : Scan (List Value) := do
  let items ← separated (item value) ','
  let _ ← accept ','
  return items

def array (value : Scan Value) : Scan Value := do
  char '['
  let items ← optional (items value)
  filler
  char ']'
  return .array (items.getD [])

/-- A key, an equals sign and a value on one line. -/
def entry (value : Scan Value) : Scan (List String × Value) := do
  let path ← key
  char '='
  blanks
  let value ← value
  blanks
  return (path, value)

def inlineTable (value : Scan Value) : Scan Value := do
  char '\x7b'
  let entries ← optional (separated (entry value) ',')
  blanks
  char '\x7d'
  return .table (← Table.ofAssignments (entries.getD []))

/-- A value that may nest as many levels as given. -/
def value : Nat → Scan Value
  | 0 => scalar
  | levels + 1 => array (value levels) <|> inlineTable (value levels) <|> scalar

def assignment : Scan Statement := do
  let (path, value) ← entry (value (nestingLimit - 1))
  return .assign path value

def tableHeader : Scan Statement := do
  char '['
  let path ← key
  char ']'
  return .table path

def tableArrayHeader : Scan Statement := do
  literal ['[', '[']
  let path ← key
  literal [']', ']']
  return .tableArray path

/-- A line with a statement, or with nothing but blanks and a comment. -/
def line : Scan (Option Statement) := do
  blanks
  if (← get).isEmpty then failure
  let statement ← optional (tableArrayHeader <|> tableHeader <|> assignment)
  restOfLine
  return statement

/-- The statements of a whole document. A byte order mark may come first. -/
def document : Scan (List Statement) := do
  let _ ← accept '\ufeff'
  let lines ← many line
  blanks
  atEnd
  return lines.filterMap id

end Scan
end GnssFusion.Toml
