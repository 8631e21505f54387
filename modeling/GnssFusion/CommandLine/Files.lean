import GnssFusion.CommandLine.Program

/-!
A tree of files as a value, to run the program on without an outside world. A place in
the tree is the list of names that leads there from its root. Paths are followed one
name after the other, from the root or from the directory that is home.
-/

namespace GnssFusion.CommandLine

abbrev Place := List String

structure Files where
  texts : List (Place × String)
  /-- The directories below the root. -/
  directories : List Place
  /-- The directory where paths start that do not start at the root. -/
  home : Place
  deriving DecidableEq, Repr

namespace Files

inductive Obstacle
  | missing
  | isFile
  | isDirectory
  | nameTooLong
  deriving DecidableEq, Repr

/-- Why a file cannot be created, as it is reported. -/
def Obstacle.message : Obstacle → String
  | .missing => "No such file or directory (os error 2)"
  | .isFile => "Not a directory (os error 20)"
  | .isDirectory => "Is a directory (os error 21)"
  | .nameTooLong => "File name too long (os error 36)"

/-- Bytes that the name of a file may have. -/
def nameLimit : Nat := 255

/-- Bytes that a whole path may have. -/
def pathLimit : Nat := 4095

def isDirectory (files : Files) (place : Place) : Bool :=
  place.isEmpty || files.directories.contains place

def text? (files : Files) (place : Place) : Option String := files.texts.lookup place

/-- The names of a path, between its slashes. -/
def namesOf (path : String) : List String := (path.toList.splitOn '/').map String.ofList

/-- Where a path starts. -/
def start (files : Files) (path : String) : Place :=
  if path.startsWith "/" then [] else files.home

/-- Names that stay where they are. -/
def isHere (name : String) : Bool := name = "" || name = "."

/-- Enters the directory of a name. Above the root is the root. -/
def enter (files : Files) (place : Place) (name : String) : Except Obstacle Place :=
  if isHere name then .ok place
  else if name = ".." then .ok place.dropLast
  else if nameLimit < name.utf8ByteSize then .error .nameTooLong
  else
    let next := place ++ [name]
    if files.isDirectory next then .ok next
    else if (files.text? next).isSome then .error .isFile
    else .error .missing

/-- Follows names to the place of a file, which need not exist. A path that ends with a
slash is one of a directory. -/
def follow (files : Files) (place : Place) : List String → Except Obstacle Place
  | [] => .error .isDirectory
  | name :: rest =>
      if rest.all (· = "") then
        if rest ≠ [] ∨ isHere name ∨ name = ".." then .error .isDirectory
        else if nameLimit < name.utf8ByteSize then .error .nameTooLong
        else if files.isDirectory (place ++ [name]) then .error .isDirectory
        else .ok (place ++ [name])
      else do files.follow (← files.enter place name) rest

/-- The place of the file that a path names. -/
def locate (files : Files) (path : String) : Except Obstacle Place :=
  if path = "" then .error .missing
  else if pathLimit < path.utf8ByteSize then .error .nameTooLong
  else files.follow (files.start path) (namesOf path)

def read? (files : Files) (path : String) : Option String :=
  match files.locate path with
  | .ok place => files.text? place
  | .error _ => none

/-- Replaces the text at a place. -/
def put (place : Place) (text : String) (files : Files) : Files :=
  { files with texts := (place, text) :: files.texts.filter (·.1 ≠ place) }

/-- The place that a path means if all its directories exist. -/
def placeOf (files : Files) (path : String) : Place :=
  (namesOf path).foldl
    (fun place name =>
      if isHere name then place else if name = ".." then place.dropLast else place ++ [name])
    (files.start path)

/-- Makes a directory and those above it. -/
def makeDirectory (place : Place) (files : Files) : Files :=
  let above := (List.range place.length).map fun n => place.take (n + 1)
  { files with directories := files.directories ++ above }

/-- Stores a text under a path and makes the directories above it. -/
def store (path text : String) (files : Files) : Files :=
  let place := files.placeOf path
  (files.makeDirectory place.dropLast).put place text

/-- A tree with nothing but a home. -/
def atHome (home : Place) : Files := makeDirectory home ⟨[], [], home⟩

/-- The host that runs on a tree of files. -/
def host : Host (StateM Files) where
  read path := return (← get).read? path
  create path := do
    match (← get).locate path with
    | .error obstacle => return some obstacle.message
    | .ok place =>
        modify (put place "")
        return none
  write path text := do
    match (← get).locate path with
    | .error _ => return ()
    | .ok place => modify (put place text)

end Files
end GnssFusion.CommandLine
