/-!
Sets of characters, built from ranges. The named sets are those of ASCII, except for
white space, which is that of all scripts.
-/

namespace GnssFusion

inductive CharSet
  | range (first last : Char)
  | union (a b : CharSet)
  | intersection (a b : CharSet)
  | complement (a : CharSet)
  /-- The characters of a set together with their other cases. -/
  | caseless (a : CharSet)
  deriving DecidableEq, Repr

namespace CharSet

def mem : CharSet → Char → Bool
  | range first last, c => first ≤ c && c ≤ last
  | union a b, c => a.mem c || b.mem c
  | intersection a b, c => a.mem c && b.mem c
  | complement a, c => !a.mem c
  | caseless a, c => a.mem c || a.mem c.toLower || a.mem c.toUpper

def single (c : Char) : CharSet := range c c

/-- No character, since a range that ends before its start is empty. -/
def none : CharSet := range '1' '0'

def all : CharSet := complement none

def difference (a b : CharSet) : CharSet := intersection a (complement b)

/-- What lies in one of two sets and not in the other. -/
def symmetric (a b : CharSet) : CharSet := union (difference a b) (difference b a)

def ofList (sets : List CharSet) : CharSet := sets.foldr union none

def lower : CharSet := range 'a' 'z'

def upper : CharSet := range 'A' 'Z'

def letter : CharSet := union lower upper

def digit : CharSet := range '0' '9'

def alphanumeric : CharSet := union letter digit

def word : CharSet := union alphanumeric (single '_')

def space : CharSet := ofList [
  range '\t' '\r', single ' ', single '\u0085', single '\u00a0', single '\u1680',
  range '\u2000' '\u200a', range '\u2028' '\u2029', single '\u202f', single '\u205f',
  single '\u3000']

/-- The set of a name in brackets with colons. -/
def ofName? : String → Option CharSet
  | "alnum" => some alphanumeric
  | "alpha" => some letter
  | "ascii" => some (range '\x00' '\x7f')
  | "blank" => some (union (single ' ') (single '\t'))
  | "cntrl" => some (union (range '\x00' '\x1f') (single '\x7f'))
  | "digit" => some digit
  | "graph" => some (range '!' '~')
  | "lower" => some lower
  | "print" => some (range ' ' '~')
  | "punct" => some (difference (range '!' '~') alphanumeric)
  | "space" => some (union (range '\t' '\r') (single ' '))
  | "upper" => some upper
  | "word" => some word
  | "xdigit" => some (ofList [digit, range 'a' 'f', range 'A' 'F'])
  | _ => Option.none

end CharSet
end GnssFusion
