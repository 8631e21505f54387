import GnssFusion.Digits
import GnssFusion.Pattern.Basic
import GnssFusion.Scan

/-!
Patterns from their text. Round brackets group, square ones hold sets, a bar separates
branches, and a repetition applies to the item before it, without which it is an error.
Flags hold from where they stand to the end of their group. Groups and sets are read
with the number of levels that may still nest.
-/

namespace GnssFusion.Pattern

open GnssFusion.Scan

structure Flags where
  caseless : Bool
  /-- The start and end of a line count as those of the text. -/
  multiline : Bool
  /-- The point stands for line ends as well. -/
  dotAll : Bool
  /-- Blanks and comments between items do not count. -/
  spaced : Bool
  deriving DecidableEq, Repr

namespace Flags

def plain : Flags := ⟨false, false, false, false⟩

/-- Sets the flag of a letter, if it is one of a flag. Greed, line ends with a carriage
return and the script of named sets make no difference here. -/
def set? (on : Bool) (letter : Char) (flags : Flags) : Option Flags :=
  match letter with
  | 'i' => some { flags with caseless := on }
  | 'm' => some { flags with multiline := on }
  | 's' => some { flags with dotAll := on }
  | 'x' => some { flags with spaced := on }
  | 'U' | 'u' | 'R' => some flags
  | _ => none

/-- A set of characters as the flags have it. -/
def apply (flags : Flags) (s : CharSet) : CharSet :=
  if flags.caseless then .caseless s else s

def point (flags : Flags) : CharSet :=
  if flags.dotAll then .all else .complement (.single '\n')

/-- The flags that letters set and, behind a dash, clear. No letter stands twice, and a
dash has a letter behind it. -/
def ofLetters? (letters : List Char) (flags : Flags) : Option Flags := do
  let setAll (on : Bool) (letters : List Char) (flags : Flags) : Option Flags :=
    letters.foldlM (fun flags letter => flags.set? on letter) flags
  if letters.eraseDups.length ≠ letters.length ∨ letters.getLast? = some '-' then failure
  let flags ← setAll true (letters.takeWhile (· ≠ '-')) flags
  setAll false ((letters.dropWhile (· ≠ '-')).drop 1) flags

end Flags

/-! Escapes and sets. -/

/-- What stands for one place in a pattern. -/
inductive Token
  | char (c : Char)
  | set (s : CharSet)
  | anchor (a : Anchor)

def anyChar : Scan Char := satisfy fun _ => true

/-- A code of a fixed number of digits, or of any number in braces. -/
def hexEscape (width : Nat) : Scan Char := do
  let digits ← (do
      char '\x7b'
      let digits ← takeWhile isHexDigit
      char '\x7d'
      if digits.isEmpty then failure else return digits) <|> exactly isHexDigit width
  (charOfCode? (ofDigits 16 digits) : Option Char)

/-- A condition named in braces behind the one for a boundary. Other braces may be those
of a repetition. -/
def boundary : Scan Anchor := do
  match ← get with
  | '\x7b' :: c :: _ =>
      if c.isAlpha || c == '-' then
        char '\x7b'
        let name ← takeWhile fun c => c.isAlpha || c == '-'
        char '\x7d'
        match String.ofList name with
        | "start" => return .wordStart
        | "end" => return .wordEnd
        | "start-half" => return .startHalf
        | "end-half" => return .endHalf
        | _ => failure
      else return .wordBoundary
  | _ => return .wordBoundary

/-- What a backslash and the characters behind it stand for. Before anything but a letter
or digit it takes away a meaning that the character may have. -/
def escape : Scan Token := do
  match ← anyChar with
  | 'd' => return .set .digit
  | 'D' => return .set (.complement .digit)
  | 's' => return .set .space
  | 'S' => return .set (.complement .space)
  | 'w' => return .set .word
  | 'W' => return .set (.complement .word)
  | 'x' => return .char (← hexEscape 2)
  | 'u' => return .char (← hexEscape 4)
  | 'U' => return .char (← hexEscape 8)
  | 'a' => return .char '\x07'
  | 'f' => return .char '\x0c'
  | 't' => return .char '\t'
  | 'n' => return .char '\n'
  | 'r' => return .char '\r'
  | 'v' => return .char '\x0b'
  | 'A' => return .anchor .textStart
  | 'z' => return .anchor .textEnd
  | 'b' => return .anchor (← boundary)
  | 'B' => return .anchor .noBoundary
  | '<' => return .anchor .wordStart
  | '>' => return .anchor .wordEnd
  | c => if c.toNat < 0x80 && !c.isAlphanum then return .char c else failure

/-- An operation between what stands before and behind it in a set. -/
inductive SetOperation
  | intersection
  | difference
  | symmetric

def SetOperation.apply : SetOperation → CharSet → CharSet → CharSet
  | .intersection => .intersection
  | .difference => .difference
  | .symmetric => .symmetric

structure SetProgress where
  /-- What stands before the last operation, with the operation. -/
  left : Option (CharSet × SetOperation)
  items : CharSet

namespace SetProgress

def add (s : CharSet) (p : SetProgress) : SetProgress := { p with items := .union p.items s }

def value (p : SetProgress) : CharSet :=
  match p.left with
  | some (left, operation) => operation.apply left p.items
  | none => p.items

def operate (operation : SetOperation) (p : SetProgress) : SetProgress :=
  ⟨some (p.value, operation), .none⟩

end SetProgress

/-- A named set, in brackets with colons, perhaps with a sign that excludes it. -/
def namedSet : Scan CharSet := do
  literal ['[', ':']
  let excluded ← accept '^'
  let name ← takeWhile (· ≠ ':')
  literal [':', ']']
  match CharSet.ofName? (String.ofList name) with
  | some s => return if excluded then .complement s else s
  | none => failure

def setItem : Scan Token := do
  match ← anyChar with
  | '\\' => escape
  | c => return .char c

/-- An item of a set, or a range between two characters. A dash before the end of the set
or before another dash is no range. -/
def setRange : Scan CharSet := do
  let first ← setItem
  match ← get with
  | '-' :: c :: _ =>
      if c == ']' || c == '-' then single first
      else
        char '-'
        let last ← setItem
        match first, last with
        | .char first, .char last => if first ≤ last then return .range first last else failure
        | _, _ => failure
  | _ => single first
where
  single : Token → Scan CharSet
    | .char c => return .single c
    | .set s => return s
    | .anchor _ => failure

/-- The rest of a set up to its closing bracket. -/
def setWithin (flags : Flags) (nested : Scan CharSet) : List Char → SetProgress → Scan CharSet
  | [], _ => failure
  | _ :: left, p => do
      match ← get with
      | ']' :: _ => do
          char ']'
          return p.value
      | '[' :: _ => do
          match ← optional namedSet with
          | some s => setWithin flags nested left (p.add (flags.apply s))
          | none => do
              char '['
              setWithin flags nested left (p.add (← nested))
      | '&' :: '&' :: _ => do
          literal ['&', '&']
          setWithin flags nested left (p.operate .intersection)
      | '-' :: '-' :: _ => do
          literal ['-', '-']
          setWithin flags nested left (p.operate .difference)
      | '~' :: '~' :: _ => do
          literal ['~', '~']
          setWithin flags nested left (p.operate .symmetric)
      | _ => do setWithin flags nested left (p.add (flags.apply (← setRange)))

/-- A set behind its opening bracket: perhaps the sign that excludes it, then dashes or
else a bracket that stand for themselves, then the items. -/
def charSet (flags : Flags) : Nat → Scan CharSet
  | 0 => failure
  | level + 1 => do
      let excluded ← accept '^'
      let dashes ← takeWhile (· == '-')
      let bracket ← if dashes.isEmpty then accept ']' else pure false
      let own := (if dashes.isEmpty then [] else [.single '-'])
        ++ (if bracket then [.single ']'] else [])
      let s ← setWithin flags (charSet flags level) (← get) ⟨none, .ofList own⟩
      return if excluded then .complement s else s

/-! Items, branches and groups. -/

/-- What has been read of a pattern inside one pair of brackets. -/
structure Progress where
  flags : Flags
  /-- The branches before the current one. -/
  branches : Option Pattern
  /-- The current branch up to its last item. -/
  branch : Pattern
  /-- The last item, if a repetition may apply to it. -/
  last : Option Pattern

namespace Progress

def start (flags : Flags) : Progress := ⟨flags, none, .empty, none⟩

def settle (p : Progress) : Progress :=
  match p.last with
  | some last => { p with branch := .sequence p.branch last, last := none }
  | none => p

def add (item : Pattern) (p : Progress) : Progress := { p.settle with last := some item }

def addToken (token : Token) (p : Progress) : Progress :=
  match token with
  | .char c => p.add (.set (p.flags.apply (.single c)))
  | .set s => p.add (.set s)
  | .anchor a => p.add (.anchor a)

def pattern (p : Progress) : Pattern :=
  match p.branches with
  | some branches => .either branches p.settle.branch
  | none => p.settle.branch

def fork (p : Progress) : Progress := { start p.flags with branches := some p.pattern }

def repeated (least : Nat) (most : Option Nat) (p : Progress) : Option Progress :=
  p.last.map fun last => { p with last := some (.repeated last least most) }

end Progress

def number : Scan Nat := do
  let _ ← takeWhile CharSet.space.mem
  let digits ← takeWhile Char.isDigit
  let _ ← takeWhile CharSet.space.mem
  let n := digitsValue digits
  if digits.isEmpty || 2 ^ 32 ≤ n then failure else return n

/-- The least and the greatest number of times between braces, of which the first has
been taken. -/
def counts : Scan (Nat × Option Nat) := do
  let least ← number
  if ← accept '\x7d' then return (least, some least)
  char ','
  if ← accept '\x7d' then return (least, none)
  let most ← number
  char '\x7d'
  if least ≤ most then return (least, some most) else failure

/-- A repetition, and the sign behind it that makes no difference here. -/
def repetition (p : Progress) (least : Nat) (most : Option Nat) : Scan Progress := do
  let _ ← accept '?'
  (p.repeated least most : Option Progress)

/-- The name of a group up to its closing sign. -/
def groupName : Scan Unit := do
  let name ← takeWhile (· ≠ '>')
  char '>'
  let isFirst (c : Char) : Bool := c == '_' || c.isAlpha || 0x80 ≤ c.toNat
  let isNext (c : Char) : Bool := isFirst c || c.isDigit || c == '.' || c == '[' || c == ']'
  match name with
  | first :: rest => if isFirst first && rest.all isNext then return () else failure
  | [] => failure

/-- A group behind its opening bracket, or flags for the rest of the group around it. -/
def group (nested : Flags → Scan Pattern) (p : Progress) : Scan Progress := do
  let inner (flags : Flags) : Scan Progress := do
    let pattern ← nested flags
    char ')'
    return p.add pattern
  if ← accept '?' then
    match ← get with
    | 'P' :: '<' :: _ => do
        literal ['P', '<']
        groupName
        inner p.flags
    | '<' :: _ => do
        char '<'
        groupName
        inner p.flags
    | _ => do
        let letters ← takeWhile fun c => c ≠ ':' && c ≠ ')'
        let flags ← (Flags.ofLetters? letters p.flags : Option Flags)
        match ← anyChar with
        | ':' => inner flags
        | _ => if letters.isEmpty then failure else return { p.settle with flags }
  else inner p.flags

/-- Goes on with a character that has been taken. -/
def item (nested : Flags → Scan Pattern) (nestedSet : Flags → Scan CharSet) (c : Char)
    (p : Progress) : Scan Progress := do
  match c with
  | '|' => return p.fork
  | '(' => group nested p
  | '[' => return p.add (.set (← nestedSet p.flags))
  | '\\' => return p.addToken (← escape)
  | '.' => return p.add (.set p.flags.point)
  | '^' => return p.add (.anchor (if p.flags.multiline then .lineStart else .textStart))
  | '$' => return p.add (.anchor (if p.flags.multiline then .lineEnd else .textEnd))
  | '*' => repetition p 0 none
  | '+' => repetition p 1 none
  | '?' => repetition p 0 (some 1)
  | '\x7b' => do
      let (least, most) ← counts
      repetition p least most
  | c =>
      if p.flags.spaced && CharSet.space.mem c then return p
      else if p.flags.spaced && c == '#' then do
        let _ ← takeWhile (· ≠ '\n')
        return p
      else return p.addToken (.char c)

/-- Items up to a closing bracket or the end of the text. -/
def itemsWithin (nested : Flags → Scan Pattern) (nestedSet : Flags → Scan CharSet) :
    List Char → Progress → Scan Progress
  | [], p => return p
  | _ :: left, p => do
      match ← peek? with
      | none | some ')' => return p
      | some c => do
          char c
          itemsWithin nested nestedSet left (← item nested nestedSet c p)

def nestingLimit : Nat := 250

/-- Branches up to a closing bracket or the end of the text. -/
def branches : Nat → Flags → Scan Pattern
  | 0, _ => failure
  | level + 1, flags => do
      let nestedSet (flags : Flags) : Scan CharSet := charSet flags nestingLimit
      let p ← itemsWithin (branches level) nestedSet (← get) (.start flags)
      return p.pattern

def sizeLimit : Nat := 300000

def parse? (text : String) : Option Pattern := do
  let (p, rest) ← (branches (nestingLimit + 1) .plain).run text.toList
  if rest.isEmpty ∧ p.size ≤ sizeLimit then return p else none

end GnssFusion.Pattern
