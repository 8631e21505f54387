import GnssFusion.Log
import GnssFusion.Pattern.Reader

/-!
Which events are shown. A filter is a list of directives, each with a limit on the rank
of a level, and perhaps a pattern that must occur in the text of an event. A directive
with a name is for the parts of the program whose names begin with it. Of the directives
for a part the one with the longest name counts, and of two with names of one length the
one that was added last. A directive with the name of an earlier one replaces it.
-/

namespace GnssFusion.Log

def trimmed (text : String) : String :=
  let front := text.toList.dropWhile CharSet.space.mem
  String.ofList (front.reverse.dropWhile CharSet.space.mem).reverse

/-- The rank up to which a level name, in capitals or not, lets events through. -/
def limitNamed? (name : String) : Option Nat :=
  if name.toUpper = "OFF" then some 0
  else (Level.all.find? (·.name = name.toUpper)).map Level.rank

structure Directive where
  /-- How the names of the parts begin that it is for; without a name it is for all. -/
  name : Option String
  limit : Nat
  deriving DecidableEq, Repr

namespace Directive

/-- A level by itself is for every part, a name by itself shows all events. A directive
with a level that is not one is none. -/
def parse? (text : String) : Option Directive :=
  match text.splitOn "=" with
  | [word] =>
      match limitNamed? word with
      | some limit => some ⟨none, limit⟩
      | none => some ⟨some word, Level.trace.rank⟩
  | [name, word] =>
      if trimmed word = "" then some ⟨some name, Level.trace.rank⟩
      else (limitNamed? (trimmed word)).map (⟨some name, ·⟩)
  | _ => none

def isFor (directive : Directive) (name : String) : Bool :=
  directive.name.all (·.toList.isPrefixOf name.toList)

def nameLength (directive : Directive) : Nat := (directive.name.map (·.utf8ByteSize)).getD 0

/-- Adds a directive at the end, or in the place of one with the same name. -/
def add (directive : Directive) : List Directive → List Directive
  | [] => [directive]
  | d :: rest => if d.name = directive.name then directive :: rest else d :: add directive rest

end Directive

structure Filter where
  directives : List Directive
  /-- What must occur in the text of an event, if anything. -/
  pattern : Option Pattern
  deriving DecidableEq, Repr

namespace Filter

/-- Informative events of every part. -/
def informative : Filter := ⟨[⟨none, Level.info.rank⟩], none⟩

def directivesOf (text : String) : List Directive :=
  let words := (text.splitOn ",").map trimmed
  ((words.filter (· ≠ "")).filterMap Directive.parse?).foldl (fun ds d => d.add ds) []

/-- Directives, and perhaps a pattern behind a slash, of which one that cannot be read is
left out. A text with a second slash says nothing. Errors only are shown if there is no
directive. -/
def parse (text : String) : Filter :=
  let (directives, pattern) := match text.splitOn "/" with
    | [directives] => (directivesOf directives, none)
    | [directives, pattern] => (directivesOf directives, Pattern.parse? pattern)
    | _ => ([], none)
  ⟨if directives.isEmpty then [⟨none, Level.error.rank⟩] else directives, pattern⟩

/-- The limit for the part of a name; without a directive for it nothing is shown. -/
def limit (filter : Filter) (name : String) : Nat :=
  let longest (best : Option Directive) (d : Directive) : Option Directive :=
    match best with
    | some b => if b.nameLength ≤ d.nameLength then some d else some b
    | none => some d
  (((filter.directives.filter (·.isFor name)).foldl longest none).map (·.limit)).getD 0

/-- The events that a filter lets through, if the parts have these names. -/
def shown (filter : Filter) (nameOf : Part → String) (events : List Event) : List Event :=
  events.filter fun event =>
    event.level.rank ≤ filter.limit (nameOf event.part)
      && filter.pattern.all (·.occursIn event.text)

end Filter
end GnssFusion.Log
