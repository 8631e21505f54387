import GnssFusion.Json.Number

/-!
JSON values: reading one as a whole, passing over one that does not matter, and
reading a value of one expected kind. Values that are read may nest only so deep;
those passed over may nest without limit and may hold numbers of any size.
-/

namespace GnssFusion.Json

inductive Value
  | null
  | boolean (value : Bool)
  | integer (value : Int)
  | float (value : Binary64)
  | string (text : String)
  | array (items : List Value)
  | object (members : List (String × Value))

namespace Read

/-- How many brackets may be open at once while values are read. -/
def nestingLimit : Nat := 127

def isNumberStart (c : Char) : Bool := c == '-' || c.isDigit

def scalar : Read Value := do
  match ← token? with
  | none => throw .truncated
  | some 'n' => do literal ['n', 'u', 'l', 'l']; return .null
  | some 't' => do literal ['t', 'r', 'u', 'e']; return .boolean true
  | some 'f' => do literal ['f', 'a', 'l', 's', 'e']; return .boolean false
  | some '"' => return .string (← quoted)
  | some c =>
      if !isNumberStart c then throw .malformed
      match ← number with
      | .integer z => return .integer z
      | .float x => return .float x

def member (value : Read Value) (before : List (String × Value)) (key : String) :
    Read (List (String × Value)) := do
  colon
  return before ++ [(key, ← value)]

/-- A value in which the given number of brackets may be open at once. -/
def value : Nat → Read Value
  | 0 => scalar
  | levels + 1 => do
      match ← token? with
      | some '[' => return .array (← elements (value levels))
      | some '\x7b' => return .object (← members quoted (member (value levels)) [])
      | _ => scalar

/-- Passes over a value, with no more brackets open at once than characters left. -/
def skipWithin : List Char → Read Unit
  | [] => throw .truncated
  | _ :: left => do
      match ← token? with
      | none => throw .truncated
      | some 'n' => literal ['n', 'u', 'l', 'l']
      | some 't' => literal ['t', 'r', 'u', 'e']
      | some 'f' => literal ['f', 'a', 'l', 's', 'e']
      | some '"' => skipQuoted
      | some '[' => do
          let _ ← elements (skipWithin left)
      | some '\x7b' =>
          members skipQuoted (fun _ _ => do colon; skipWithin left) ()
      | some c => if isNumberStart c then skipNumber else throw .malformed

/-- Passes over a value, however deep it nests. -/
def skip : Read Unit := do skipWithin (← get)

/-- The fault of a value that is not of the expected kind. A scalar is read first, so
that a fault in its text comes before its kind. -/
def unexpected {α : Type} : Read α := do
  match ← token? with
  | some '[' | some '\x7b' => throw .mismatch
  | _ => do
      let _ ← scalar
      throw .mismatch

def text : Read String := do
  if (← token?) = some '"' then quoted else unexpected

/-- A number of any kind as a float. -/
def float : Read Binary64 := do
  match ← token? with
  | some c => if isNumberStart c then Number.toFloat <$> number else unexpected
  | none => unexpected

def finish : Read Unit := do
  if (← token?).isSome then throw .malformed

end Read
end GnssFusion.Json
