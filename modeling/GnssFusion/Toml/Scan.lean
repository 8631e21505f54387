import GnssFusion.Scan

/-!
Blanks, line ends and comments of a document.
-/

namespace GnssFusion.Toml.Scan

open GnssFusion.Scan

def isBlank (c : Char) : Bool := c == ' ' || c == '\t'

/-- Printable ASCII, tabs, and everything beyond ASCII. -/
def isPrintable (c : Char) : Bool :=
  c == '\t' || (0x20 ≤ c.toNat && c.toNat ≠ 0x7f)

def blanks : Scan Unit := do
  let _ ← takeWhile isBlank

def lineEnd : Scan Unit := literal ['\n'] <|> literal ['\r', '\n']

def comment : Scan Unit := do
  char '#'
  let _ ← takeWhile isPrintable

/-- Blanks and a comment, up to the end of the line or of the text. -/
def restOfLine : Scan Unit := do
  blanks
  let _ ← optional comment
  atEnd <|> lineEnd

/-- Blanks, whole comments and line ends. -/
def filler : Scan Unit := do
  blanks
  let _ ← many (do
    let _ ← optional comment
    lineEnd
    blanks)

end GnssFusion.Toml.Scan
