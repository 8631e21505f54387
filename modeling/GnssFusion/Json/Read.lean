import GnssFusion.Digits

/-!
Reading JSON text from left to right. The first thing that is wrong is the fault, of
one of three classes: malformed text, well-formed text of the wrong shape, or text
that ends too early. Loops recurse over the characters that are left when they start,
of which every round takes at least one.
-/

namespace GnssFusion.Json

inductive Fault
  | malformed
  | mismatch
  | truncated
  deriving DecidableEq, Repr

/-- Consumes a prefix of the text, or stops at a fault. -/
abbrev Read := StateT (List Char) (Except Fault)

namespace Read

def isSpace (c : Char) : Bool := c == ' ' || c == '\n' || c == '\t' || c == '\r'

def peek? : Read (Option Char) := do return (← get).head?

/-- Skips white space, then looks at the next character. -/
def token? : Read (Option Char) := do
  modify (·.dropWhile isSpace)
  peek?

def drop : Read Unit := modify (·.drop 1)

/-- Takes one character; there must be one. -/
def next : Read Char := do
  match ← get with
  | [] => throw .truncated
  | c :: rest => do
      set rest
      return c

def literal : List Char → Read Unit
  | [] => pure ()
  | c :: cs => do
      if (← next) = c then literal cs else throw .malformed

def takeWhile (test : Char → Bool) : Read (List Char) := do
  let text ← get
  set (text.dropWhile test)
  return text.takeWhile test

/-! Text between quotes. -/

def hexCode : Read Nat := do
  let text ← get
  let digits := text.take 4
  if digits.length = 4 ∧ digits.all isHexDigit then
    set (text.drop 4)
    return ofDigits 16 digits
  else if digits.foldl (fun size c => size + c.utf8Size) 0 < 4 then throw .truncated
  else throw .malformed

/-- A character by its code, or by the two halves of a surrogate pair. -/
def codedChar : Read Char := do
  let high ← hexCode
  if high < 0xd800 ∨ 0xdfff < high then return Char.ofNat high
  if 0xdc00 ≤ high then throw .malformed
  literal ['\\', 'u']
  let low ← hexCode
  if low < 0xdc00 ∨ 0xdfff < low then throw .malformed
  return Char.ofNat (0x10000 + 0x400 * (high - 0xd800) + (low - 0xdc00))

/-- The character after a backslash, `coded` reading one given by its code. -/
def escape (coded : Read Char) : Read Char := do
  match ← next with
  | '"' => return '"'
  | '\\' => return '\\'
  | '/' => return '/'
  | 'b' => return '\x08'
  | 'f' => return '\x0c'
  | 'n' => return '\n'
  | 'r' => return '\r'
  | 't' => return '\t'
  | 'u' => coded
  | _ => throw .malformed

/-- The rest of a text up to its closing quote, within the characters left. -/
def textWithin (coded : Read Char) : List Char → Read (List Char)
  | [] => throw .truncated
  | _ :: left => do
      match ← next with
      | '"' => return []
      | '\\' => do
          let c ← escape coded
          return c :: (← textWithin coded left)
      | c =>
          if c.toNat < 0x20 then throw .malformed
          else return c :: (← textWithin coded left)

def quoted : Read String := do
  drop
  String.ofList <$> textWithin codedChar (← get)

/-- Passes over a text. Its escapes are checked, but halves of surrogate pairs may stand
alone. -/
def skipQuoted : Read Unit := do
  drop
  let coded : Read Char := do
    let _ ← hexCode
    return '\ufffd'
  let _ ← textWithin coded (← get)

/-! Elements of arrays and members of objects. -/

/-- Whether another element follows; the comma before it is taken. -/
def nextElement (first : Bool) : Read Bool := do
  match ← token? with
  | none => throw .truncated
  | some ']' => return false
  | some c =>
      if first then return true
      if c ≠ ',' then throw .malformed
      drop
      match ← token? with
      | none => throw .truncated
      | some ']' => throw .malformed
      | some _ => return true

/-- Whether another member follows; the comma before it is taken. -/
def nextMember (first : Bool) : Read Bool := do
  match ← token? with
  | none => throw .truncated
  | some '}' => return false
  | some c =>
      if first then
        if c = '"' then return true else throw .malformed
      if c ≠ ',' then throw .malformed
      drop
      match ← token? with
      | none => throw .truncated
      | some '"' => return true
      | some _ => throw .malformed

/-- The elements up to the closing bracket, within the characters left. -/
def elementsWithin {α : Type} (element : Read α) : List Char → Bool → Read (List α)
  | [], _ => throw .truncated
  | _ :: left, first => do
      if ← nextElement first then
        let a ← element
        return a :: (← elementsWithin element left false)
      else return []

/-- The elements of an array from its opening bracket on. -/
def elements {α : Type} (element : Read α) : Read (List α) := do
  drop
  let all ← elementsWithin element (← get) true
  drop
  return all

def colon : Read Unit := do
  match ← token? with
  | none => throw .truncated
  | some ':' => drop
  | some _ => throw .malformed

/-- The members up to the closing brace, within the characters left. -/
def membersWithin {κ σ : Type} (key : Read κ) (member : σ → κ → Read σ) :
    List Char → Bool → σ → Read σ
  | [], _, _ => throw .truncated
  | _ :: left, first, s => do
      if ← nextMember first then
        let s ← member s (← key)
        membersWithin key member left false s
      else return s

/-- Folds over the members of an object from its opening brace on; `member` reads on
after a key. -/
def members {κ σ : Type} (key : Read κ) (member : σ → κ → Read σ) (s : σ) : Read σ := do
  drop
  let s ← membersWithin key member (← get) true s
  drop
  return s

/-- The end of an array of which all expected elements have been read. -/
def endArray : Read Unit := do
  match ← token? with
  | none => throw .truncated
  | some ']' => drop
  | some _ => throw .malformed

end Read
end GnssFusion.Json
