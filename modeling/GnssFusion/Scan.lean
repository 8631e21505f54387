/-!
Scanning of text: a scanner takes a prefix of the characters or fails. Repetition
recurses over the characters that are left when it starts, of which every round takes
at least one.
-/

namespace GnssFusion

/-- Consumes a prefix of the text, or fails. -/
abbrev Scan := StateT (List Char) Option

namespace Scan

def peek? : Scan (Option Char) := do return (← get).head?

def satisfy (test : Char → Bool) : Scan Char := fun
  | c :: rest => if test c then some (c, rest) else none
  | [] => none

def char (c : Char) : Scan Unit := do
  let _ ← satisfy (· == c)

def literal : List Char → Scan Unit
  | [] => pure ()
  | c :: cs => do
      char c
      literal cs

def takeWhile (test : Char → Bool) : Scan (List Char) := fun s =>
  some (s.takeWhile test, s.dropWhile test)

def exactly (test : Char → Bool) : Nat → Scan (List Char)
  | 0 => pure []
  | n + 1 => do
      let c ← satisfy test
      let cs ← exactly test n
      return c :: cs

/-- Takes a character if it comes next, and says whether it did. -/
def accept (c : Char) : Scan Bool := fun
  | d :: rest => some (if d = c then (true, rest) else (false, d :: rest))
  | [] => some (false, [])

/-- As many repetitions as succeed, at most one for each character left. -/
def manyWithin {α : Type} (scan : Scan α) : List Char → Scan (List α)
  | [] => pure []
  | _ :: left =>
      (do
        let a ← scan
        let rest ← manyWithin scan left
        return a :: rest) <|> pure []

/-- Repeats a scanner that takes at least one character as long as it succeeds. -/
def many {α : Type} (scan : Scan α) : Scan (List α) := do
  manyWithin scan (← get)

/-- One or more, with a separator between. -/
def separated {α : Type} (scan : Scan α) (separator : Char) : Scan (List α) := do
  let first ← scan
  let rest ← many (do
    char separator
    scan)
  return first :: rest

def atEnd : Scan Unit := do
  if (← get).isEmpty then pure () else failure

end Scan
end GnssFusion
