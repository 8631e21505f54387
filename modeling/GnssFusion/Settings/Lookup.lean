import GnssFusion.Settings.Tree

/-!
Looking elements up by relative paths, whose keys are separated by dots. Keys that
contain a dot themselves cannot be reached. Every error carries the absolute path that
was asked for.
-/

namespace GnssFusion.Settings

/-- The parts between the dots; there is always at least one. -/
def segments : List Char → List (List Char)
  | [] => [[]]
  | c :: rest =>
      if c = '.' then [] :: segments rest
      else match segments rest with
        | [] => [[c]]
        | head :: tail => (c :: head) :: tail

def keysOf (path : String) : List String := (segments path.toList).map String.ofList

/-- The element reached by following the keys through groups. -/
def find? (entries : List (String × Element)) : List String → Option Element
  | [] => none
  | [key] => entries.lookup key
  | key :: path =>
      match entries.lookup key with
      | some (.group _ inner) => find? inner path
      | _ => none

namespace Parameter

def asBool (p : Parameter) : Except Error Bool :=
  match p.value with
  | .bool value => .ok value
  | _ => .error (.wrongKind p.path .bool)

def asInt (p : Parameter) : Except Error Int :=
  match p.value with
  | .int value => .ok value
  | _ => .error (.wrongKind p.path .int)

/-- Integers are accepted where a float is expected. -/
def asFloat (p : Parameter) : Except Error Binary64 :=
  match p.value with
  | .float value => .ok value
  | .int value => .ok (.ofInt value)
  | _ => .error (.wrongKind p.path .float)

def asString (p : Parameter) : Except Error String :=
  match p.value with
  | .str value => .ok value
  | _ => .error (.wrongKind p.path .str)

end Parameter

namespace Element

def asParameter : Element → Except Error Parameter
  | .parameter p => .ok p
  | .group path _ => .error (.notAParameter path)

def asGroup : Element → Except Error Group
  | .group path entries => .ok ⟨path, entries⟩
  | .parameter p => .error (.notAGroup p.path)

end Element

namespace Group

/-- Whether the group itself has this key; the key is not split. -/
def containsKey (group : Group) (key : String) : Bool := (group.entries.lookup key).isSome

def find? (group : Group) (path : String) : Option Element :=
  Settings.find? group.entries (keysOf path)

def get (group : Group) (path : String) : Except Error Element :=
  match group.find? path with
  | some element => .ok element
  | none => .error (.notFound (childPath group.path path))

def getParameter (group : Group) (path : String) : Except Error Parameter :=
  group.get path >>= Element.asParameter

def getParameter? (group : Group) (path : String) : Except Error (Option Parameter) :=
  match group.find? path with
  | some element => some <$> element.asParameter
  | none => .ok none

def getGroup (group : Group) (path : String) : Except Error Group :=
  group.get path >>= Element.asGroup

/-- The group under a key of its own, without settings when the key is absent. -/
def groupOrEmpty (group : Group) (key : String) : Except Error Group :=
  if group.containsKey key then group.getGroup key else .ok .empty

/-- A truth value that has a default when it is absent. -/
def getBoolOr (group : Group) (path : String) (default : Bool) : Except Error Bool := do
  match ← group.getParameter? path with
  | some p => p.asBool
  | none => return default

end Group
end GnssFusion.Settings
