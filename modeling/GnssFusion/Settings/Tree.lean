import GnssFusion.Binary64.Arithmetic
import GnssFusion.Toml.Document

/-!
The settings tree. A table that names a type and gives a value of that type is a
parameter, every other table is a group of elements, and nothing else may stand in a
group. Each element knows its absolute path: the keys that lead to it, each behind a
dot.
-/

namespace GnssFusion.Settings

inductive Kind
  | bool
  | int
  | float
  | str
  deriving DecidableEq, Repr

def Kind.name : Kind → String
  | .bool => "bool"
  | .int => "int"
  | .float => "float"
  | .str => "str"

inductive Setting
  | bool (value : Bool)
  | int (value : Int)
  | float (value : Binary64)
  | str (value : String)
  deriving DecidableEq

inductive Error
  /-- The text is not a TOML document, or a table in it cannot be used. -/
  | unreadable
  /-- The group at this path holds something that is not a table. -/
  | notATable (path : String)
  | notFound (path : String)
  | wrongKind (path : String) (wanted : Kind)
  | notAParameter (path : String)
  | notAGroup (path : String)
  deriving DecidableEq, Repr

def Error.message : Error → String
  | .unreadable => "Error deserializing parameters"
  | .notATable path =>
      s!"Parameter toml does not have the right structure (error in '{path}')"
  | .notFound path => s!"Element '{path}' not found"
  | .wrongKind path wanted => s!"Cannot cast parameter '{path}' to {wanted.name}"
  | .notAParameter path => s!"Element '{path}' is not a parameter"
  | .notAGroup path => s!"Element '{path}' is not a map"

structure Parameter where
  path : String
  value : Setting
  deriving DecidableEq

/-- An element of the tree. The entries of a group are in ascending order of keys. -/
inductive Element
  | parameter (parameter : Parameter)
  | group (path : String) (entries : List (String × Element))

structure Group where
  path : String
  entries : List (String × Element)

def childPath (path key : String) : String := path ++ "." ++ key

/-- The value of a table that is a parameter: a type, and a value of that type under
`val`. A float may be written as an integer, and text as a date or time. -/
def Setting.ofTable? (table : Toml.Table) : Option Setting :=
  match table.lookup "type", table.lookup "val" with
  | some (.string "bool"), some (.boolean b) => some (.bool b)
  | some (.string "int"), some (.integer z) => some (.int z)
  | some (.string "float"), some (.float x) => some (.float x)
  | some (.string "float"), some (.integer z) => some (.float (.ofInt z))
  | some (.string "str"), some (.string s) => some (.str s)
  | some (.string "str"), some (.dateTime d) => some (.str d.text)
  | _, _ => none

/-- The elements of the entries of a group, the first entry that is not a table being
the error. Nothing below a parameter is looked at. -/
def elements (path : String) : Toml.Table → Except Error (List (String × Element))
  | [] => .ok []
  | (key, .table table) :: rest => do
      let child := childPath path key
      let element ← match Setting.ofTable? table with
        | some value => pure (.parameter ⟨child, value⟩)
        | none => Element.group child <$> elements child table
      return (key, element) :: (← elements path rest)
  | _ :: _ => .error (.notATable path)

/-- The settings of a document; its own table is always a group. -/
def Group.ofTable (table : Toml.Table) : Except Error Group := do
  return ⟨"", ← elements "" table⟩

def Group.parse (text : String) : Except Error Group :=
  match Toml.Table.parse? text with
  | some table => Group.ofTable table
  | none => .error .unreadable

def Group.empty : Group := ⟨"", []⟩

/-! Comparison. Numbers are compared by value, so a NaN makes two trees different. -/

def Setting.same : Setting → Setting → Bool
  | .float x, .float y => x.numEq y
  | a, b => a == b

mutual

def Element.same : Element → Element → Bool
  | .parameter p, .parameter q => p.path == q.path && p.value.same q.value
  | .group path entries, .group path' entries' => path == path' && sameEntries entries entries'
  | _, _ => false

def sameEntries : List (String × Element) → List (String × Element) → Bool
  | [], [] => true
  | (key, e) :: rest, (key', e') :: rest' => key == key' && e.same e' && sameEntries rest rest'
  | _, _ => false

end

def Group.same (a b : Group) : Bool := a.path == b.path && sameEntries a.entries b.entries

end GnssFusion.Settings
