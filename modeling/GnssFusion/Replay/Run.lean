import GnssFusion.Fusion.Engine
import GnssFusion.Replay.Recording
import GnssFusion.Replay.Table
import GnssFusion.Settings.Receiver

/-!
Replaying a recording: each entry in turn moves the clock to its receive time, never
backwards, and hands its report to the engine. The first entry with an impossible time
or an unknown fix type stops the replay, and what was done up to there stays.
-/

namespace GnssFusion.Replay

open Settings (PublishToggles)

inductive Error
  | unknownFixType (index : Nat) (code : UInt8)
  | invalidTime (index : Nat) (time : Binary64)
  deriving DecidableEq

def Error.message : Error → String
  | .unknownFixType index code => s!"Unknown fix type code {code} in entry {index}"
  | .invalidTime index time => s!"Invalid receive time {time.plain} s in entry {index}"

structure Options where
  publish : PublishToggles
  tabulate : Bool
  deriving DecidableEq, Repr

/-- Everything that a replay changes. -/
structure State where
  engine : Engine
  clock : SimulatedClock
  counts : Log.Counts
  rows : List Row
  deriving DecidableEq

/-- The start of a replay, with the rows written before it. -/
def State.start (engine : Engine) (clock : SimulatedClock) (rows : List Row) : State :=
  ⟨engine, clock, ⟨0, 0, 0, 0⟩, rows⟩

namespace State

/-- Receive times are finite and not below zero. -/
def isValidTime (time : Binary64) : Bool := time.isFinite && !time.lt (.ofNat 0)

/-- Moves the clock to a receive time, with a warning when that lies in the past. -/
def arrive (index : Nat) (time : Binary64) (s : State) : Logged State := do
  let elapsed := Duration.ofSeconds time
  Logged.emitIf (elapsed < s.clock.elapsed) (.wentBack index time)
  return { s with clock := s.clock.advanceTo elapsed }

def write (options : Options) (row : Row) (s : State) : State :=
  if options.tabulate then { s with rows := s.rows ++ [row] } else s

def position (options : Options) (report : PositionReport) (s : State) : Logged State := do
  Logged.emitIf options.publish.navPosllh (.positionReceived report)
  let (fix, engine) ← s.engine.acceptPosition s.clock.now report
  let counts := { s.counts with positions := s.counts.positions + 1 }
  return { s with engine, counts }.write options (.fix report.iTow fix)

/-- Stamp of the engine's last position if it is of this epoch. -/
def siblingStamp (iTow : UInt32) (s : State) : Option Timestamp :=
  (s.engine.lastPosition.filter (·.value.iTow == iTow)).map (·.stamp)

def velocity (options : Options) (report : VelocityReport) (s : State) : Logged State := do
  Logged.emitIf options.publish.navVelned (.velocityReceived report)
  let sibling := s.siblingStamp report.iTow
  let (velocity, engine) ← s.engine.acceptVelocity s.clock.now report
  let shared := if sibling = some velocity.stamp then 1 else 0
  let counts := { s.counts with
    velocities := s.counts.velocities + 1
    correlated := s.counts.correlated + shared }
  return { s with engine, counts }.write options (.velocity report.iTow velocity)

def solution (options : Options) (report : SolutionReport) (s : State) : Logged State := do
  Logged.emitIf options.publish.navSol (.solutionReceived report)
  let engine ← s.engine.acceptSolution report
  return { s with engine, counts := { s.counts with solutions := s.counts.solutions + 1 } }

end State

/-- Processes one entry: the state afterwards, and the error if it stops the replay. -/
def step (options : Options) (index : Nat) (entry : Entry) (s : State) :
    Logged (State × Option Error) := do
  if State.isValidTime entry.time then
    let s ← s.arrive index entry.time
    match entry.report with
    | .position report => return (← s.position options report, none)
    | .velocity report => return (← s.velocity options report, none)
    | .solution record =>
        match record.decode? with
        | none => return (s, some (.unknownFixType index record.gpsFix))
        | some report => return (← s.solution options report, none)
  else return (s, some (.invalidTime index entry.time))

/-- Processes entries, the first of which has the given index, up to the first error. -/
def feed (options : Options) : Nat → List Entry → State → Logged (State × Option Error)
  | _, [], s => return (s, none)
  | index, entry :: rest, s => do
      let (s, error) ← step options index entry s
      match error with
      | some error => return (s, some error)
      | none => feed options (index + 1) rest s

def run (options : Options) (recording : Recording) (s : State) :
    Logged (State × Option Error) := do
  Logged.emit (.replayStarted recording.name recording.entries.length)
  feed options 0 recording.entries s

end GnssFusion.Replay
