import GnssFusion.Toml.Value

/-!
Tables under construction. While a table is built, each part remembers how it came
about, since that decides which later lines may add to it: a table with a header of
its own takes no dotted keys from outside, one made by dotted keys takes nothing
else, and one that a header only passed through may still get its own header once. A
table takes its place when it comes about, and again when it gets its own header.
-/

namespace GnssFusion.Toml

/-- How a table came about. -/
inductive Origin
  /-- By a header of its own. -/
  | header
  /-- As a step on the way to another header. -/
  | passed
  /-- As a step of a dotted key. -/
  | dotted
  deriving DecidableEq, Repr

inductive Draft
  | value (value : Value)
  | table (origin : Origin) (entries : List (String × Draft))
  /-- The tables of an array of tables, the current one first. -/
  | tables (current : List (String × Draft)) (earlier : List (List (String × Draft)))

namespace Draft

abbrev Entries := List (String × Draft)

/-- Gives a key its entry, in the place of its earlier one or else at the end. -/
def put (key : String) (draft : Draft) : Entries → Entries
  | [] => [(key, draft)]
  | (k, d) :: rest => if k = key then (key, draft) :: rest else (k, d) :: put key draft rest

/-- Gives a key its entry at the end, whatever place it had. -/
def putLast (key : String) (draft : Draft) (entries : Entries) : Entries :=
  entries.filter (·.1 ≠ key) ++ [(key, draft)]

/-- Changes the entries of the table at a path, making the missing tables on the way.
The walk goes into the current table of an array of tables; a walk along a dotted key
does not enter a table that has a header. -/
def changeAt (step : Origin) (change : Origin → Entries → Option Entries) :
    List String → Origin → Entries → Option Entries
  | [], origin, entries => change origin entries
  | key :: path, _, entries =>
      match entries.lookup key with
      | none => do
          let inner ← changeAt step change path step []
          return put key (.table step inner) entries
      | some (.value _) => none
      | some (.table origin inner) => do
          if step = .dotted ∧ origin = .header then none
          let inner ← changeAt step change path origin inner
          return put key (.table origin inner) entries
      | some (.tables current earlier) => do
          let current ← changeAt step change path .header current
          return put key (.tables current earlier) entries

/-- Splits a path into the way to a table and the key in it. -/
def splitLast : List String → Option (List String × String)
  | [] => none
  | [key] => some ([], key)
  | key :: rest => (splitLast rest).map fun (path, last) => (key :: path, last)

/-- Gives a key without a value its value. The table that holds it was made by dotted
keys exactly if the key has several parts. -/
def assign (path : List String) (value : Value) (entries : Entries) : Option Entries := do
  let (way, key) ← splitLast path
  let add (origin : Origin) (entries : Entries) : Option Entries :=
    if (origin = .dotted ↔ way = []) ∨ (entries.lookup key).isSome then none
    else some (put key (.value value) entries)
  changeAt .dotted add way .header entries

/-- Opens the table of a header, which a header may only have passed through so far,
and fills it. It becomes the last table of the one that holds it. -/
def openTable (path : List String) (fill : Entries → Option Entries) (entries : Entries) :
    Option Entries := do
  let (way, key) ← splitLast path
  let add (_ : Origin) (entries : Entries) : Option Entries := do
    let inner ← match entries.lookup key with
      | none => some []
      | some (.table .passed inner) => some inner
      | some _ => none
    return putLast key (.table .header (← fill inner)) entries
  changeAt .passed add way .header entries

/-- Adds a table to an array of tables and fills it. -/
def addTable (path : List String) (fill : Entries → Option Entries) (entries : Entries) :
    Option Entries := do
  let (way, key) ← splitLast path
  let add (_ : Origin) (entries : Entries) : Option Entries := do
    let earlier ← match entries.lookup key with
      | none => some []
      | some (.tables current earlier) => some (current :: earlier)
      | some _ => none
    return put key (.tables (← fill []) earlier) entries
  changeAt .passed add way .header entries

mutual

/-- The finished value of a draft, with tables in the order in which they were written. -/
def finish : Draft → Value
  | .value v => v
  | .table _ entries => .table (finishEntries entries)
  | .tables current earlier =>
      .array (finishTables earlier ++ [.table (finishEntries current)])

def finishEntries : List (String × Draft) → Table
  | [] => []
  | (key, draft) :: rest => (key, finish draft) :: finishEntries rest

/-- The earlier tables of an array, in the order in which they were written. -/
def finishTables : List (List (String × Draft)) → List Value
  | [] => []
  | entries :: rest => finishTables rest ++ [.table (finishEntries entries)]

end

end Draft

/-- The table of assignments in braces. -/
def Table.ofAssignments (assignments : List (List String × Value)) : Option Table :=
  (assignments.foldlM (fun entries (path, value) => Draft.assign path value entries) []).map
    Draft.finishEntries

end GnssFusion.Toml
