import GnssFusion.Diagnostic
import GnssFusion.Log
import GnssFusion.Units

/-!
The tracker keeps the latest solution report and derives the health of the fix from
it. A report that changes whether there is a fix of at least two dimensions is
logged; epochs are not checked, the order of arrival is taken as it is.
-/

namespace GnssFusion

structure SolutionTracker where
  last : Option SolutionReport
  deriving DecidableEq, Repr

namespace SolutionTracker

def empty : SolutionTracker := ⟨none⟩

/-- Fix type of the last report, no fix before any. -/
def fixType (tracker : SolutionTracker) : FixType :=
  match tracker.last with
  | none => .noFix
  | some report => report.fixType

/-- Replaces the held report and logs a change between fix and no fix. -/
def record (tracker : SolutionTracker) (report : SolutionReport) : Logged SolutionTracker := do
  let wasFix := tracker.fixType.isAtLeast2D
  let isFix := report.fixType.isAtLeast2D
  Logged.emitIf (wasFix && !isFix) (.fixLost report)
  Logged.emitIf (!wasFix && isFix) (.fixAcquired report)
  return ⟨some report⟩

def typeMessage : FixType → Severity × String
  | .noFix => (.ok, "")
  | .deadReckoningOnly => (.warn, "Dead reckoning only")
  | .fix2D => (.ok, "2D fix")
  | .fix3D => (.ok, "3D fix")
  | .gpsDeadReckoningCombined => (.ok, "GPS and dead reckoning combined")
  | .timeOnly => (.ok, "Time fix only")

/-- Severity and message of a report: by its type, then a warning when the receiver
does not vouch for it, and no fix over everything else. -/
def classifyReport (report : SolutionReport) : Severity × String :=
  let (level, message) := typeMessage report.fixType
  let (level, message) :=
    if report.fixOk then (level, message) else (.warn, message ++ ", fix not ok")
  if report.fixType = .noFix then (.error, "No fix") else (level, message)

/-- Severity and message of the fix; nothing is wrong before the first report. -/
def classify (tracker : SolutionTracker) : Severity × String :=
  match tracker.last with
  | none => (.ok, "")
  | some report => classifyReport report

/-- The position's fields and the satellite count; missing reports read as zeros. -/
def telemetry (tracker : SolutionTracker) (position : Option PositionReport) :
    List DiagnosticField :=
  let position := position.getD default
  let numSv := match tracker.last with
    | none => 0
    | some report => report.numSv.toNat
  [⟨"iTOW [ms]", .int position.iTow.toNat⟩,
    ⟨"Latitude [deg]", .float (Units.degrees position.lat.toInt)⟩,
    ⟨"Longitude [deg]", .float (Units.degrees position.lon.toInt)⟩,
    ⟨"Altitude [m]", .float (Units.metresOfInt position.height.toInt)⟩,
    ⟨"Height above MSL [m]", .float (Units.metresOfInt position.hMsl.toInt)⟩,
    ⟨"Horizontal Accuracy [m]", .float (Units.metresOfInt position.hAcc.toNat)⟩,
    ⟨"Vertical Accuracy [m]", .float (Units.metresOfInt position.vAcc.toNat)⟩,
    ⟨"# SVs used", .int numSv⟩]

end SolutionTracker
end GnssFusion
