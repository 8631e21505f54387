import GnssFusion.CommandLine.Options
import GnssFusion.Replay.Run

/-!
The program: it reads the parameters, resolves the receiver's settings, loads the
recording, replays it, and prints the state it reached. The output is created only when
everything before the replay has succeeded, and then holds the rows written up to the
end or the error. A question about the program is answered before anything is read.
-/

namespace GnssFusion.CommandLine

/-- What the program needs from where it runs. -/
structure Host (m : Type → Type) where
  /-- The text of a file, if it can be read. -/
  read : String → m (Option String)
  /-- Makes an empty file, or says why it cannot. -/
  create : String → m (Option String)
  /-- Replaces the text of a file that was created. -/
  write : String → String → m Unit

inductive Failure
  | paramsUnreadable (path : String)
  | settings (error : Settings.Error)
  | resolve (error : Settings.ResolveError)
  | recordingUnusable (path : String)
  | outputNotCreated (reason : String)
  | replay (error : Replay.Error)
  deriving DecidableEq

def Failure.message : Failure → String
  | .paramsUnreadable path => s!"Could not read parameters from {path}"
  | .settings error => error.message
  | .resolve error => error.message
  | .recordingUnusable path => s!"Could not load replay log {path}"
  | .outputNotCreated reason => reason
  | .replay error => error.message

inductive Ending
  /-- The arguments are not a command line. -/
  | usage
  | failed (failure : Failure)
  | printed (text : String)
  deriving DecidableEq

def Ending.code : Ending → Nat
  | .usage => 2
  | .failed _ => 1
  | .printed _ => 0

/-- What is printed to standard output. -/
def Ending.output : Ending → String
  | .printed text => text
  | .usage | .failed _ => ""

def settingsOf (text : String) : Except Failure Settings.ReceiverSettings := do
  let root ← (Settings.Group.parse text).mapError .settings
  let group ← (root.groupOrEmpty "gps").mapError .settings
  (Settings.ReceiverSettings.resolve group).mapError .resolve

/-- The state before the first entry. The monitor expects the configured frequency. -/
def startOf (settings : Settings.ReceiverSettings) : Replay.State :=
  let monitor := RateMonitor.new settings.fixFrequency
  .start (.new settings.frameId (some monitor)) .atUnixEpoch []

/-- The engine's diagnostic, then the monitor's status at the clock's time. -/
def summary (s : Replay.State) : String :=
  let status := s.engine.monitor.map fun monitor => (monitor.status s.clock.elapsed).text ++ "\n"
  s.engine.diagnostic.text ++ "\n" ++ status.getD ""

/-- Replays a recording under the settings, and writes the rows if a file is given. -/
def replay {m : Type → Type} [Monad m] (host : Host m) (settings : Settings.ReceiverSettings)
    (recording : Recording) (output : Option String) : m (Logged Ending) := do
  let out := Replay.run ⟨settings.publish, output.isSome⟩ recording (startOf settings)
  let (s, error) := out.value
  if let some path := output then
    host.write path (Replay.tableText s.rows)
  return match error with
    | some error => ⟨.failed (.replay error), out.events⟩
    | none => ⟨.printed (summary s), out.events ++ [.replayed s.counts]⟩

def runWith {m : Type → Type} [Monad m] (host : Host m) (options : Options) :
    m (Logged Ending) := do
  let some text ← host.read options.params
    | return ⟨.failed (.paramsUnreadable options.params), []⟩
  match settingsOf text with
  | .error failure => return ⟨.failed failure, []⟩
  | .ok settings =>
      let events := settings.events ++ [.measurementPeriod settings.measurementPeriod.toNat]
      let some text ← host.read options.input
        | return ⟨.failed (.recordingUnusable options.input), events⟩
      match Recording.parse text with
      | .error _ => return ⟨.failed (.recordingUnusable options.input), events⟩
      | .ok recording =>
          if let some path := options.output then
            if let some reason ← host.create path then
              return ⟨.failed (.outputNotCreated reason), events⟩
          let out ← replay host settings recording options.output
          return ⟨out.value, events ++ out.events⟩

def run {m : Type → Type} [Monad m] (host : Host m) (arguments : List String) :
    m (Logged Ending) :=
  match Request.parse? arguments with
  | none => return ⟨.usage, []⟩
  | some (.ask question) => return ⟨.printed question.answer, []⟩
  | some (.replay options) => runWith host options

end GnssFusion.CommandLine
