import GnssFusion.Decimal.Layout
import GnssFusion.Report

/-!
What is logged: each kind of event with its level and its text, and results that
carry the events logged on the way to them.
-/

namespace GnssFusion

namespace Log

/-- Levels from the most to the least urgent. -/
inductive Level
  | error
  | warn
  | info
  | debug
  | trace
  deriving DecidableEq, Repr

namespace Level

def rank : Level → Nat
  | .error => 1
  | .warn => 2
  | .info => 3
  | .debug => 4
  | .trace => 5

def name : Level → String
  | .error => "ERROR"
  | .warn => "WARN"
  | .info => "INFO"
  | .debug => "DEBUG"
  | .trace => "TRACE"

def all : List Level := [.error, .warn, .info, .debug, .trace]

end Level

inductive Part
  | correlation
  | engine
  | program
  | replay
  | settings
  | tracker
  deriving DecidableEq, Repr

/-- The name of a part as directives of a filter refer to it. -/
def Part.name : Part → String
  | .correlation => "ublox_fusion::components::correlator"
  | .engine => "ublox_fusion::components::fusion"
  | .program => "ublox_fusion"
  | .replay => "ublox_fusion::replay"
  | .settings => "ublox_fusion::components::config"
  | .tracker => "ublox_fusion::components::solution"

/-- Lower-case hexadecimal digits, padded with zeros to a width, behind `0x`. -/
def hex (width n : Nat) : String := String.ofList ('0' :: 'x' :: paddedDigits 16 width n)

/-- The counts reported at the end of a replay. -/
structure Counts where
  positions : Nat
  velocities : Nat
  solutions : Nat
  /-- Velocities that share their stamp with the position of the same epoch. -/
  correlated : Nat
  deriving DecidableEq, Repr, Inhabited

inductive Event
  | fixAcquired (report : SolutionReport)
  | fixLost (report : SolutionReport)
  | stampReused (iTow : UInt32)
  | fix (iTow : UInt32) (latitude longitude altitude : Binary64) (status : String)
  | replayStarted (name : String) (entries : Nat)
  | wentBack (index : Nat) (time : Binary64)
  | positionReceived (report : PositionReport)
  | velocityReceived (report : VelocityReport)
  | solutionReceived (report : SolutionReport)
  | settingsResolved (frameId : String) (rate : Binary64) (navRate : UInt8)
  | nmeaEnabled (version numSv : UInt8) (mask : Nat)
  | measurementPeriod (milliseconds : Nat)
  | replayed (counts : Counts)
  deriving DecidableEq

namespace Event

def level : Event → Level
  | .fixLost _ | .wentBack .. => .warn
  | .stampReused _ | .fix .. => .debug
  | _ => .info

def part : Event → Part
  | .fixAcquired _ | .fixLost _ => .tracker
  | .stampReused _ => .correlation
  | .fix .. => .engine
  | .settingsResolved .. | .nmeaEnabled .. => .settings
  | .measurementPeriod _ | .replayed _ => .program
  | _ => .replay

def transition (verb : String) (report : SolutionReport) : String :=
  s!"Fix {verb} at iTOW {report.iTow} ms: {report.fixType.name}, {report.numSv} SVs"

def text : Event → String
  | .fixAcquired report => transition "acquired" report
  | .fixLost report => transition "lost" report
  | .stampReused iTow => s!"iTOW {iTow} ms matches sibling report, reusing its timestamp"
  | .fix iTow latitude longitude altitude status =>
      let place := s!"{latitude.fixed 7}, {longitude.fixed 7}, {altitude.fixed 3} m"
      s!"Fix iTOW {iTow} ms: {place}, {status}"
  | .replayStarted name entries => s!"Replaying '{name}': {entries} entries"
  | .wentBack index time =>
      s!"Entry {index} received at {time.plain} s goes back in time, clock held"
  | .positionReceived report => "NAV-POSLLH: " ++ report.text
  | .velocityReceived report => "NAV-VELNED: " ++ report.text
  | .solutionReceived report => "NAV-SOL: " ++ report.text
  | .settingsResolved frameId rate navRate =>
      s!"Resolved gps config: frame '{frameId}', rate {rate.fixed 2} Hz, nav rate {navRate}"
  | .nmeaEnabled version numSv mask =>
      let codes := s!"version {hex 2 version.toNat}, min SVs {numSv}, mask {hex 4 mask}"
      "NMEA output enabled: " ++ codes
  | .measurementPeriod milliseconds => s!"Measurement period {milliseconds} ms"
  | .replayed c =>
      let shared := s!"({c.correlated} sharing their epoch's timestamp)"
      s!"Replayed {c.positions} positions, {c.velocities} velocities {shared}, "
        ++ s!"{c.solutions} solutions"

end Event
end Log

/-- A result with the events logged on the way to it, in order. -/
structure Logged (α : Type) where
  value : α
  events : List Log.Event

namespace Logged

def emit (event : Log.Event) : Logged Unit := ⟨(), [event]⟩

def emitIf (condition : Bool) (event : Log.Event) : Logged Unit :=
  ⟨(), if condition then [event] else []⟩

instance : Monad Logged where
  pure a := ⟨a, []⟩
  bind x f :=
    let next := f x.value
    ⟨next.value, x.events ++ next.events⟩

@[simp] theorem value_pure {α : Type} (a : α) : (pure a : Logged α).value = a := rfl

@[simp] theorem events_pure {α : Type} (a : α) : (pure a : Logged α).events = [] := rfl

@[simp] theorem value_bind {α β : Type} (x : Logged α) (f : α → Logged β) :
    (x >>= f).value = (f x.value).value := rfl

@[simp] theorem events_bind {α β : Type} (x : Logged α) (f : α → Logged β) :
    (x >>= f).events = x.events ++ (f x.value).events := rfl

@[simp] theorem value_map {α β : Type} (f : α → β) (x : Logged α) :
    (f <$> x).value = f x.value := rfl

@[simp] theorem events_map {α β : Type} (f : α → β) (x : Logged α) :
    (f <$> x).events = x.events := List.append_nil _

theorem ext {α : Type} {x y : Logged α} (value : x.value = y.value)
    (events : x.events = y.events) : x = y := by
  cases x
  cases y
  cases value
  cases events
  rfl

instance : LawfulMonad Logged :=
  LawfulMonad.mk' Logged
    (fun _ => ext rfl (List.append_nil _))
    (fun _ _ => rfl)
    (fun _ _ _ => ext rfl (List.append_assoc _ _ _))

end Logged
end GnssFusion
