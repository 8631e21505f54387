import GnssFusion.Digits
import GnssFusion.Toml.Scan

/-!
Quoted text and keys. Basic text has escapes, literal text has none; both have a
form over several lines, in which every line end counts as one line feed.
-/

namespace GnssFusion.Toml.Scan

open GnssFusion.Scan

/-- A character by its code in `width` hexadecimal digits. -/
def codedChar (width : Nat) : Scan Char := do
  let digits ← exactly isHexDigit width
  charOfCode? (ofDigits 16 digits)

def escape : Scan Char := do
  char '\\'
  match ← satisfy fun _ => true with
  | 'b' => return '\x08'
  | 't' => return '\t'
  | 'n' => return '\n'
  | 'f' => return '\x0c'
  | 'r' => return '\r'
  | '"' => return '"'
  | '\\' => return '\\'
  | 'u' => codedChar 4
  | 'U' => codedChar 8
  | _ => failure

def lineFeed : Scan Char := do
  lineEnd
  return '\n'

def basicChar : Scan Char :=
  (satisfy fun c => isPrintable c && c != '"' && c != '\\') <|> escape

def basicText : Scan (List Char) := do
  char '"'
  let text ← many basicChar
  char '"'
  return text

def literalText : Scan (List Char) := do
  char '\''
  let text ← takeWhile fun c => isPrintable c && c != '\''
  char '\''
  return text

/-- A backslash at the end of a line joins what follows the blank space after it. -/
def joint : Scan (List Char) := do
  char '\\'
  blanks
  lineEnd
  let _ ← many ((do let _ ← satisfy isBlank) <|> lineEnd)
  return []

/-- One or two quotes inside a text that three of them end. -/
def innerQuotes (quote : Char) : Scan (List Char) := do
  let quotes ← takeWhile (· == quote)
  if 1 ≤ quotes.length ∧ quotes.length ≤ 2 then return quotes else failure

/-- The three quotes that end a text, after at most two that belong to it. -/
def closingQuotes (quote : Char) : Scan (List Char) := do
  let quotes ← takeWhile (· == quote)
  if 3 ≤ quotes.length ∧ quotes.length ≤ 5 then return quotes.drop 3 else failure

/-- Text over several lines between triple quotes; a line end right after the first
three is not part of it. -/
def multiline (quote : Char) (inner : Scan (List Char)) : Scan (List Char) := do
  literal [quote, quote, quote]
  let _ ← optional lineEnd
  let text ← many (inner <|> (List.singleton <$> lineFeed) <|> innerQuotes quote)
  let last ← closingQuotes quote
  return text.flatten ++ last

def multilineBasic : Scan (List Char) :=
  multiline '"' (joint <|> (List.singleton <$> basicChar))

def multilineLiteral : Scan (List Char) :=
  multiline '\'' (List.singleton <$> satisfy fun c => isPrintable c && c != '\'')

/-- Quoted text of any of the four forms. -/
def quoted : Scan String :=
  String.ofList <$> (multilineBasic <|> multilineLiteral <|> basicText <|> literalText)

/-- ASCII letters and digits, underscores and dashes. -/
def isBare (c : Char) : Bool := c.isAlphanum || c == '_' || c == '-'

def bareKey : Scan (List Char) := do
  let text ← takeWhile isBare
  if text.isEmpty then failure else return text

/-- One part of a key, with the blanks around it. -/
def keyPart : Scan String := do
  blanks
  let text ← bareKey <|> basicText <|> literalText
  blanks
  return String.ofList text

/-- How deep keys and values may nest. -/
def nestingLimit : Nat := 80

def key : Scan (List String) := do
  let parts ← separated keyPart '.'
  if parts.length < nestingLimit then return parts else failure

end GnssFusion.Toml.Scan
