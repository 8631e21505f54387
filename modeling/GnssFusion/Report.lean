/-!
Reports of the receiver, already framed and checked, in its integer encodings, and
the decoding of solution records. Fields are never range-checked beyond their width.
-/

namespace GnssFusion

/-- Geodetic position of one epoch. -/
structure PositionReport where
  /-- Epoch counter, in milliseconds of the week. -/
  iTow : UInt32
  /-- Longitude in `1e-7` degrees. -/
  lon : Int32
  /-- Latitude in `1e-7` degrees. -/
  lat : Int32
  /-- Height above the ellipsoid in millimetres. -/
  height : Int32
  /-- Height above mean sea level in millimetres. -/
  hMsl : Int32
  /-- Horizontal accuracy estimate in millimetres. -/
  hAcc : UInt32
  /-- Vertical accuracy estimate in millimetres. -/
  vAcc : UInt32
  deriving DecidableEq, Repr, Inhabited

/-- Velocity of one epoch in the local north-east-down frame, in centimetres per
second. -/
structure VelocityReport where
  iTow : UInt32
  velN : Int32
  velE : Int32
  velD : Int32
  /-- Speed accuracy estimate in centimetres per second. -/
  sAcc : UInt32
  deriving DecidableEq, Repr, Inhabited

/-- How the receiver obtained its solution, in the order of the receiver's codes. -/
inductive FixType
  | noFix
  | deadReckoningOnly
  | fix2D
  | fix3D
  | gpsDeadReckoningCombined
  | timeOnly
  deriving DecidableEq, Repr, Inhabited

namespace FixType

def code : FixType → Nat
  | .noFix => 0
  | .deadReckoningOnly => 1
  | .fix2D => 2
  | .fix3D => 3
  | .gpsDeadReckoningCombined => 4
  | .timeOnly => 5

def all : List FixType :=
  [.noFix, .deadReckoningOnly, .fix2D, .fix3D, .gpsDeadReckoningCombined, .timeOnly]

def ofCode? (code : Nat) : Option FixType := all.find? (·.code == code)

def name : FixType → String
  | .noFix => "NoFix"
  | .deadReckoningOnly => "DeadReckoningOnly"
  | .fix2D => "Fix2D"
  | .fix3D => "Fix3D"
  | .gpsDeadReckoningCombined => "GpsDeadReckoningCombined"
  | .timeOnly => "TimeOnly"

/-- A comparison of codes, so it also holds of the combined and time-only types. -/
def isAtLeast2D (fix : FixType) : Bool := decide (fix2D.code ≤ fix.code)

end FixType

/-- Status flags of a solution, in the order of their bits. -/
structure SolutionFlags where
  /-- The fix is within the receiver's own accuracy masks. -/
  gpsFixOk : Bool
  /-- Differential corrections are applied. -/
  diffSoln : Bool
  /-- The week number is valid. -/
  wknSet : Bool
  /-- The time of week is valid. -/
  towSet : Bool
  deriving DecidableEq, Repr, Inhabited

namespace SolutionFlags

/-- Reads the four lowest bits and drops the others. -/
def ofBits (bits : Nat) : SolutionFlags :=
  ⟨bits.testBit 0, bits.testBit 1, bits.testBit 2, bits.testBit 3⟩

def bits (flags : SolutionFlags) : Nat :=
  flags.gpsFixOk.toNat + 2 * flags.diffSoln.toNat + 4 * flags.wknSet.toNat
    + 8 * flags.towSet.toNat

def names (flags : SolutionFlags) : List String :=
  [("GPS_FIX_OK", flags.gpsFixOk), ("DIFF_SOLN", flags.diffSoln),
    ("WKN_SET", flags.wknSet), ("TOW_SET", flags.towSet)].filterMap
      fun (name, set) => if set then some name else none

end SolutionFlags

structure SolutionReport where
  iTow : UInt32
  fixType : FixType
  flags : SolutionFlags
  /-- Number of satellites used. -/
  numSv : UInt8
  deriving DecidableEq, Repr

/-- The receiver's own assessment of its fix. -/
def SolutionReport.fixOk (report : SolutionReport) : Bool := report.flags.gpsFixOk

/-- A solution with fix type and flags still in the receiver's codes. -/
structure SolutionRecord where
  iTow : UInt32
  gpsFix : UInt8
  flags : UInt8
  numSv : UInt8
  deriving DecidableEq, Repr

/-- Unknown flag bits are dropped; an unknown fix type has no decoding. -/
def SolutionRecord.decode? (record : SolutionRecord) : Option SolutionReport :=
  (FixType.ofCode? record.gpsFix.toNat).map fun fixType =>
    ⟨record.iTow, fixType, .ofBits record.flags.toNat, record.numSv⟩

inductive Report
  | position (report : PositionReport)
  | velocity (report : VelocityReport)
  | solution (record : SolutionRecord)
  deriving DecidableEq, Repr

/-! Written forms of reports, for the log. -/

def recordText (name : String) (members : List (String × String)) : String :=
  let written := members.map fun (key, value) => key ++ ": " ++ value
  name ++ " \x7b " ++ String.intercalate ", " written ++ " \x7d"

def PositionReport.text (r : PositionReport) : String :=
  recordText "RawPositionReport" [
    ("i_tow", toString r.iTow), ("lon", toString r.lon), ("lat", toString r.lat),
    ("height", toString r.height), ("h_msl", toString r.hMsl),
    ("h_acc", toString r.hAcc), ("v_acc", toString r.vAcc)]

def VelocityReport.text (r : VelocityReport) : String :=
  recordText "RawVelocityReport" [
    ("i_tow", toString r.iTow), ("vel_n", toString r.velN), ("vel_e", toString r.velE),
    ("vel_d", toString r.velD), ("s_acc", toString r.sAcc)]

/-- The set flags separated by bars, or zero when there are none. -/
def SolutionFlags.text (flags : SolutionFlags) : String :=
  let set := if flags.names.isEmpty then "0x0" else String.intercalate " | " flags.names
  "SolutionFlags(" ++ set ++ ")"

def SolutionReport.text (r : SolutionReport) : String :=
  recordText "RawSolutionReport" [
    ("i_tow", toString r.iTow), ("gps_fix", r.fixType.name), ("flags", r.flags.text),
    ("num_sv", toString r.numSv)]

end GnssFusion
