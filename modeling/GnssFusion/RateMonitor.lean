import GnssFusion.Diagnostic
import GnssFusion.Time

/-!
The rate monitor counts the ticks of produced fixes and judges their frequency over
the last few of them. The window ends at the time of reading, so the estimate of a
receiver that has gone silent decays.
-/

namespace GnssFusion

structure RateMonitor where
  /-- Target frequency in hertz. -/
  target : Binary64
  /-- Tolerance as a fraction of the target. -/
  tolerance : Binary64
  /-- How many ticks are kept. -/
  window : Nat
  /-- The kept ticks, oldest first. -/
  ticks : List Duration
  /-- How many ticks there were in all. -/
  total : Nat
  deriving DecidableEq

namespace RateMonitor

def defaultTolerance : Binary64 := .ofDecimal false ⟨15, -2⟩

def defaultWindow : Nat := 10

/-- A monitor without ticks; a window holds at least the two ends of an interval. -/
def withWindow (target tolerance : Binary64) (window : Nat) : RateMonitor :=
  ⟨target, tolerance, max window 2, [], 0⟩

def new (target : Binary64) : RateMonitor :=
  withWindow target defaultTolerance defaultWindow

/-- Records a tick, dropping the oldest when the window is full. -/
def tick (monitor : RateMonitor) (time : Duration) : RateMonitor :=
  let ticks := monitor.ticks ++ [time]
  { monitor with
    ticks := ticks.drop (ticks.length - monitor.window)
    total := monitor.total + 1 }

def minimum (monitor : RateMonitor) : Binary64 :=
  monitor.target * (.ofNat 1 - monitor.tolerance)

def maximum (monitor : RateMonitor) : Binary64 :=
  monitor.target * (.ofNat 1 + monitor.tolerance)

/-- Intervals per second from the oldest kept tick to now, without bound when no
time has passed. Fewer than two ticks have no frequency. -/
def frequency? (monitor : RateMonitor) (now : Duration) : Option Binary64 :=
  match monitor.ticks with
  | oldest :: rest@(_ :: _) =>
      let span := Duration.seconds (now - oldest)
      some (if span.le (.ofNat 0) then .infinite false else .ofNat rest.length / span)
  | _ => none

def judge (monitor : RateMonitor) (now : Duration) : Severity × String :=
  if monitor.ticks.isEmpty then (.error, "No events recorded")
  else match monitor.frequency? now with
    | none => (.warn, "Frequency too low")
    | some frequency =>
        if frequency.lt monitor.minimum then (.warn, "Frequency too low")
        else if monitor.maximum.lt frequency then (.warn, "Frequency too high")
        else (.ok, "Desired frequency met")

def status (monitor : RateMonitor) (now : Duration) : Diagnostic :=
  let (level, message) := monitor.judge now
  { name := "fix frequency"
    level
    message
    values := [
      ⟨"Events in window", .int monitor.ticks.length⟩,
      ⟨"Actual frequency (Hz)", .float ((monitor.frequency? now).getD (.ofNat 0))⟩,
      ⟨"Target frequency (Hz)", .float monitor.target⟩,
      ⟨"Minimum acceptable frequency (Hz)", .float monitor.minimum⟩,
      ⟨"Maximum acceptable frequency (Hz)", .float monitor.maximum⟩] }

end RateMonitor
end GnssFusion
