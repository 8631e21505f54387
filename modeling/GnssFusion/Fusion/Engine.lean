import GnssFusion.Correlation
import GnssFusion.Fusion.Output
import GnssFusion.RateMonitor
import GnssFusion.SolutionTracker

/-!
The engine fuses the three report streams of one receiver into stamped fixes and
velocities. It holds the last report of each kind; a position and a velocity report
of one epoch share one stamp, whichever comes first.
-/

namespace GnssFusion

/-- A value with the stamp of the output made from it. -/
structure Stamped (α : Type) where
  stamp : Timestamp
  value : α
  deriving DecidableEq

structure Engine where
  frameId : String
  tracker : SolutionTracker
  lastPosition : Option (Stamped PositionReport)
  lastVelocity : Option (Stamped VelocityReport)
  /-- Ticked with the stamp of every fix, if there is one. -/
  monitor : Option RateMonitor
  deriving DecidableEq

namespace Engine

/-- An engine that has seen no report. -/
def new (frameId : String) (monitor : Option RateMonitor) : Engine :=
  ⟨frameId, .empty, none, none, monitor⟩

def fixStatus (engine : Engine) : FixStatus :=
  if engine.tracker.fixType.isAtLeast2D then .fix else .noFix

def velocityEpoch (engine : Engine) : Option (UInt32 × Timestamp) :=
  engine.lastVelocity.map fun last => (last.value.iTow, last.stamp)

def positionEpoch (engine : Engine) : Option (UInt32 × Timestamp) :=
  engine.lastPosition.map fun last => (last.value.iTow, last.stamp)

def acceptPosition (engine : Engine) (now : Timestamp) (report : PositionReport) :
    Logged (FusedFix × Engine) := do
  let stamp ← correlate report.iTow engine.velocityEpoch now
  let fix := FusedFix.ofReport engine.frameId stamp engine.fixStatus report
  Logged.emit (.fix report.iTow fix.latitude fix.longitude fix.altitude fix.status.name)
  return (fix, { engine with
    lastPosition := some ⟨stamp, report⟩
    monitor := engine.monitor.map (·.tick stamp.monotonic) })

def acceptVelocity (engine : Engine) (now : Timestamp) (report : VelocityReport) :
    Logged (FusedVelocity × Engine) := do
  let stamp ← correlate report.iTow engine.positionEpoch now
  return (.ofReport engine.frameId stamp report,
    { engine with lastVelocity := some ⟨stamp, report⟩ })

def acceptSolution (engine : Engine) (report : SolutionReport) : Logged Engine := do
  let tracker ← engine.tracker.record report
  return { engine with tracker }

def classify (engine : Engine) : Severity × String := engine.tracker.classify

def telemetry (engine : Engine) : List DiagnosticField :=
  engine.tracker.telemetry (engine.lastPosition.map (·.value))

def diagnostic (engine : Engine) : Diagnostic where
  name := "fix"
  level := engine.classify.1
  message := engine.classify.2
  values := engine.telemetry

end Engine
end GnssFusion
