import GnssFusion.Pattern.CharSet

/-!
Regular patterns and the texts they occur in. A pattern takes the places where a piece may
start to those where a piece that it describes may end, and occurs in a text if there is
an end when a piece may start anywhere. Places form a set, so neither the order of
branches nor the greed of repetitions matters.
-/

namespace GnssFusion

/-- A condition on a place between two characters. -/
inductive Anchor
  | textStart
  | textEnd
  | lineStart
  | lineEnd
  | wordBoundary
  | noBoundary
  | wordStart
  | wordEnd
  /-- No word before. -/
  | startHalf
  /-- No word after. -/
  | endHalf
  deriving DecidableEq, Repr

/-- Whether the condition holds between a character and the next one. -/
def Anchor.holds (before after : Option Char) : Anchor → Bool :=
  let isWord (c : Option Char) : Bool := c.any CharSet.word.mem
  fun
  | .textStart => before.isNone
  | .textEnd => after.isNone
  | .lineStart => before.all (· == '\n')
  | .lineEnd => after.all (· == '\n')
  | .wordBoundary => isWord before != isWord after
  | .noBoundary => isWord before == isWord after
  | .wordStart => !isWord before && isWord after
  | .wordEnd => isWord before && !isWord after
  | .startHalf => !isWord before
  | .endHalf => !isWord after

inductive Pattern
  | empty
  | set (s : CharSet)
  | anchor (a : Anchor)
  | sequence (p q : Pattern)
  | either (p q : Pattern)
  /-- A number of times, without a limit if there is none. -/
  | repeated (p : Pattern) (least : Nat) (most : Option Nat)
  deriving DecidableEq, Repr

namespace Pattern

/-- The characters and conditions in a pattern, those in a repetition once for every
time that they are counted. -/
def size : Pattern → Nat
  | empty | set _ | anchor _ => 1
  | sequence p q | either p q => p.size + q.size
  | repeated p least most => p.size * max 1 (most.getD least)

/-- The places after a number of steps, which may as well stop where nothing changes. -/
def advance (step : List Nat → List Nat) : Nat → List Nat → List Nat
  | 0, places => places
  | n + 1, places =>
      let next := step places
      if next = places then places else advance step n next

/-- The places seen, with those to which at most a number of steps lead from the last
ones. A place that was seen before leads nowhere new. -/
def reach (step : List Nat → List Nat) : Nat → List Nat → List Nat → List Nat
  | 0, _, seen => seen
  | n + 1, last, seen =>
      let next := (step last).filter fun i => !seen.contains i
      if next.isEmpty then seen else reach step n next (seen ++ next)

/-- Where the pieces end that start at one of the places, of which none is listed twice. -/
def ends (text : Array Char) : Pattern → List Nat → List Nat
  | empty, places => places
  | set s, places => (places.filter fun i => text[i]?.any s.mem).map (· + 1)
  | anchor a, places =>
      places.filter fun i => a.holds (if i = 0 then none else text[i - 1]?) text[i]?
  | sequence p q, places => ends text q (ends text p places)
  | either p q, places =>
      let first := ends text p places
      first ++ (ends text q places).filter fun i => !first.contains i
  | repeated p least most, places =>
      let start := advance (ends text p) least places
      let more := match most with
        | some most => min (most - least) text.size
        | none => text.size
      reach (ends text p) more start start

def occursIn (p : Pattern) (text : String) : Bool :=
  let chars := text.toList.toArray
  !(ends chars p (List.range (chars.size + 1))).isEmpty

end Pattern
end GnssFusion
