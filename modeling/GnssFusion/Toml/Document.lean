import GnssFusion.Toml.Settled
import GnssFusion.Toml.Statement

/-!
From the text of a document to its table. The assignments before the first header
belong to the document's own table, those after a header to the table it names.
-/

namespace GnssFusion.Toml

/-- A header with the assignments up to the next one. -/
structure Section where
  isArray : Bool
  path : List String
  assignments : List (List String × Value)

/-- The assignments before the first header, and the sections. -/
def sections : List Statement → List (List String × Value) × List Section
  | [] => ([], [])
  | statement :: rest =>
      let (assignments, others) := sections rest
      match statement with
      | .assign path value => ((path, value) :: assignments, others)
      | .table path => ([], ⟨false, path, assignments⟩ :: others)
      | .tableArray path => ([], ⟨true, path, assignments⟩ :: others)

def assignAll (assignments : List (List String × Value)) (entries : Draft.Entries) :
    Option Draft.Entries :=
  assignments.foldlM (fun entries (path, value) => Draft.assign path value entries) entries

def Section.add (part : Section) (entries : Draft.Entries) : Option Draft.Entries :=
  if part.isArray then Draft.addTable part.path (assignAll part.assignments) entries
  else Draft.openTable part.path (assignAll part.assignments) entries

/-- The table of a document, if its text is well formed, its lines agree and its tables
have a use. The document's own table never stands for a date or time. -/
def Table.parse? (text : String) : Option Table := do
  let (statements, _) ← Scan.document.run text.toList
  let (own, parts) := sections statements
  let entries ← assignAll own []
  let entries ← parts.foldlM (fun entries part => part.add entries) entries
  Table.settle (Draft.finishEntries entries)

end GnssFusion.Toml
