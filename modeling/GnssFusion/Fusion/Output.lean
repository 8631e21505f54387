import GnssFusion.Fusion.SquareMatrix
import GnssFusion.Report
import GnssFusion.Time
import GnssFusion.Units

/-!
Fused outputs with their covariances. A negative variance is reserved for a
quantity that the receiver does not measure; zero would claim perfect knowledge.
-/

namespace GnssFusion

/-- Stands in a covariance for a quantity that is not measured. -/
def unmeasured : Binary64 := .ofInt (-1)

inductive FixStatus
  | noFix
  | fix
  deriving DecidableEq, Repr

def FixStatus.name : FixStatus → String
  | .noFix => "no_fix"
  | .fix => "fix"

structure FusedFix where
  stamp : Timestamp
  frameId : String
  /-- Latitude in degrees. -/
  latitude : Binary64
  /-- Longitude in degrees. -/
  longitude : Binary64
  /-- Height above the ellipsoid in metres. -/
  altitude : Binary64
  /-- Of east, north and up, in square metres. -/
  covariance : SquareMatrix 3
  status : FixStatus
  deriving DecidableEq

namespace FusedFix

def horizontalVariance (fix : FusedFix) : Binary64 := fix.covariance 0 0

def verticalVariance (fix : FusedFix) : Binary64 := fix.covariance 2 2

/-- Only the diagonal of the covariance is known. -/
def covarianceType (_ : FusedFix) : String := "diagonal_known"

/-- The service all fixes come from. -/
def service (_ : FusedFix) : String := "gps"

def ofReport (frameId : String) (stamp : Timestamp) (status : FixStatus)
    (report : PositionReport) : FusedFix where
  stamp
  frameId
  latitude := Units.degrees report.lat.toInt
  longitude := Units.degrees report.lon.toInt
  altitude := Units.metresOfInt report.height.toInt
  covariance :=
    let horizontal := Units.positionVariance report.hAcc
    .ofDiagonal #v[horizontal, horizontal, Units.positionVariance report.vAcc]
  status

end FusedFix

/-- A stamped velocity in the local east-north-up frame, in metres per second. -/
structure FusedVelocity where
  stamp : Timestamp
  frameId : String
  east : Binary64
  north : Binary64
  up : Binary64
  /-- Of the three linear rates, then of the three angular rates. -/
  covariance : SquareMatrix 6
  deriving DecidableEq

namespace FusedVelocity

def speedVariance (velocity : FusedVelocity) : Binary64 := velocity.covariance 0 0

/-- The first of the angular rates carries the mark of an unmeasured quantity. -/
def ofReport (frameId : String) (stamp : Timestamp) (report : VelocityReport) :
    FusedVelocity where
  stamp
  frameId
  east := Units.metresPerSecond report.velE.toInt
  north := Units.metresPerSecond report.velN.toInt
  up := -Units.metresPerSecond report.velD.toInt
  covariance :=
    let variance := Units.speedVariance report.sAcc
    ((SquareMatrix.zeros 6).fillDiagonal [0, 1, 2] fun _ => variance).set 3 3 unmeasured

end FusedVelocity
end GnssFusion
