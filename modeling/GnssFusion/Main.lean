import GnssFusion.CommandLine.Program
import GnssFusion.Log.Filter

/-!
The command line on the real file system. Events go to standard error, as far as the
filter in the environment lets them through.
-/

namespace GnssFusion.CommandLine

/-- The name of the environment variable that holds the filter. -/
def filterVariable : String := "RUST_LOG"

/-- The system's words for an error, with its number. -/
def reasonOf : IO.Error → String
  | .noFileOrDirectory _ code details => s!"{details} (os error {code})"
  | .permissionDenied _ code details => s!"{details} (os error {code})"
  | .inappropriateType _ code details => s!"{details} (os error {code})"
  | .invalidArgument _ code details => s!"{details} (os error {code})"
  | error => toString error

def fileSystem : Host IO where
  read path := do
    try return some (← IO.FS.readFile path)
    catch _ => return none
  create path := do
    try
      IO.FS.writeFile path ""
      return none
    catch error => return some (reasonOf error)
  write path text := IO.FS.writeFile path text

def report (out : Logged Ending) : IO UInt32 := do
  let filter := ((← IO.getEnv filterVariable).map Log.Filter.parse).getD .informative
  for event in filter.shown Log.Part.name out.events do
    IO.eprintln (event.level.name ++ " " ++ event.text)
  match out.value with
  | .usage =>
      IO.eprintln "usage: --input FILE [--params FILE] [--output FILE]"
  | .failed failure => IO.eprintln ("Error: " ++ failure.message)
  | .printed _ => pure ()
  IO.print out.value.output
  return UInt32.ofNat out.value.code

end GnssFusion.CommandLine

def main (arguments : List String) : IO UInt32 := do
  GnssFusion.CommandLine.report
    (← GnssFusion.CommandLine.run GnssFusion.CommandLine.fileSystem arguments)
