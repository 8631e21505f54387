/-!
Requests of the command line: to replay, with options for the recording, the parameter file
and the table to write, or to say how the program is used or which version it is. An option
takes its value from the same argument or from the next one; every option may be given once,
and there are no other arguments. Arguments are read in order up to the first that asks for
help or the version.
-/

namespace GnssFusion.CommandLine

structure Options where
  input : String
  params : String
  /-- Where to write the table, if anywhere. -/
  output : Option String
  deriving DecidableEq, Repr

/-- What the program says about itself. -/
inductive Question
  | help
  | version
  deriving DecidableEq, Repr

def Question.answer : Question → String
  | .help => "Replays recorded receiver reports through the navigation fusion core

Usage: ublox-fusion [OPTIONS] --input <INPUT>

Options:
  -i, --input <INPUT>    Recorded reports (JSON)
  -p, --params <PARAMS>  Parameter file [default: config/params.toml]
  -o, --output <OUTPUT>  Write fused fixes and velocities to this CSV file
  -h, --help             Print help
  -V, --version          Print version
"
  | .version => "ublox-fusion 0.1.0\n"

inductive Flag
  | input
  | params
  | output
  | ask (question : Question)
  deriving DecidableEq, Repr

namespace Flag

def ofLong? : String → Option Flag
  | "input" => some .input
  | "params" => some .params
  | "output" => some .output
  | "help" => some (.ask .help)
  | "version" => some (.ask .version)
  | _ => none

def ofShort? : Char → Option Flag
  | 'i' => some .input
  | 'p' => some .params
  | 'o' => some .output
  | 'h' => some (.ask .help)
  | 'V' => some (.ask .version)
  | _ => none

/-- The flag that an argument names, with the value attached to it. What stands behind the
letter of a question is not read. -/
def ofArgument? (argument : String) : Option (Flag × Option String) :=
  match argument.toList with
  | '-' :: '-' :: body => do
      let flag ← ofLong? (String.ofList (body.takeWhile (· ≠ '=')))
      match body.dropWhile (· ≠ '=') with
      | [] => return (flag, none)
      | _ :: value => return (flag, some (String.ofList value))
  | '-' :: c :: body => do
      match ← ofShort? c, body with
      | .ask question, _ => return (.ask question, none)
      | flag, [] => return (flag, none)
      | flag, '=' :: value => return (flag, some (String.ofList value))
      | flag, value => return (flag, some (String.ofList value))
  | _ => none

end Flag

/-- Whether an argument cannot be the value of the option before it. -/
def looksLikeFlag (argument : String) : Bool :=
  argument.toList.head? == some '-' && argument.length ≠ 1

inductive Request
  | replay (options : Options)
  | ask (question : Question)
  deriving DecidableEq, Repr

namespace Request

/-- The replay that options ask for, if there is a recording among them. -/
def ofGiven? (given : List (Flag × String)) : Option Request := do
  return .replay {
    input := ← given.lookup .input
    params := (given.lookup .params).getD "config/params.toml"
    output := given.lookup .output }

/-- An option is given once, and not without a value. -/
def admits (given : List (Flag × String)) (flag : Flag) (value : String) : Bool :=
  value ≠ "" && (given.lookup flag).isNone

/-- Reads arguments behind some options. Two dashes by themselves end them. -/
def read? (given : List (Flag × String)) : List String → Option Request
  | [] => ofGiven? given
  | ["--"] => ofGiven? given
  | argument :: rest =>
      match Flag.ofArgument? argument, rest with
      | some (.ask question, none), _ => some (.ask question)
      | some (.ask _, some _), _ => none
      | some (flag, some value), rest =>
          if admits given flag value then read? (given ++ [(flag, value)]) rest else none
      | some (flag, none), value :: rest =>
          if admits given flag value && !looksLikeFlag value then
            read? (given ++ [(flag, value)]) rest
          else none
      | _, _ => none

def parse? (arguments : List String) : Option Request := read? [] arguments

/-- What is wrong behind a question does not matter. -/
example : parse? ["-i", "log.json", "-V", "--input"] = some (.ask .version) := by decide +kernel

end Request
end GnssFusion.CommandLine
