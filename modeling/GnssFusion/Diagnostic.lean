import GnssFusion.Decimal.Layout

/-!
Health diagnostics: a severity, a message, and named values.
-/

namespace GnssFusion

/-- Severities from best to worst. -/
inductive Severity
  | ok
  | warn
  | error
  deriving DecidableEq, Repr, Inhabited

namespace Severity

def rank : Severity → Nat
  | .ok => 0
  | .warn => 1
  | .error => 2

def name : Severity → String
  | .ok => "OK"
  | .warn => "WARN"
  | .error => "ERROR"

def worse (a b : Severity) : Severity := if a.rank ≤ b.rank then b else a

/-- The worst of some severities; nothing is wrong when there are none. -/
def worst (levels : List Severity) : Severity := levels.foldl worse .ok

def sort (levels : List Severity) : List Severity := levels.mergeSort (·.rank ≤ ·.rank)

end Severity

inductive FieldValue
  | int (value : Int)
  | float (value : Binary64)
  deriving DecidableEq

def FieldValue.text : FieldValue → String
  | .int value => toString value
  | .float value => value.plain

structure DiagnosticField where
  key : String
  value : FieldValue
  deriving DecidableEq

structure Diagnostic where
  name : String
  level : Severity
  message : String
  values : List DiagnosticField
  deriving DecidableEq

namespace Diagnostic

def get? (d : Diagnostic) (key : String) : Option FieldValue :=
  (d.values.find? (·.key == key)).map (·.value)

/-- The headline, then one indented line for each value. -/
def text (d : Diagnostic) : String :=
  let lines := d.values.map fun field => "\n    " ++ field.key ++ ": " ++ field.value.text
  s!"[{d.level.name}] {d.name}: {d.message}" ++ String.join lines

end Diagnostic
end GnssFusion
