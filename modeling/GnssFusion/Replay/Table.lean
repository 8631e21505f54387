import GnssFusion.Decimal.Layout
import GnssFusion.Fusion.Output

/-!
The table of a replay: one row for each fused output, with the columns of the other
kind left empty, under a header line that appears with the first row.
-/

namespace GnssFusion.Replay

/-- A fused output with the epoch of its report. -/
inductive Row
  | fix (iTow : UInt32) (fix : FusedFix)
  | velocity (iTow : UInt32) (velocity : FusedVelocity)
  deriving DecidableEq

def columns : List String := [
  "kind", "stamp_s", "i_tow", "latitude_deg", "longitude_deg", "altitude_m",
  "horizontal_variance_m2", "vertical_variance_m2", "status", "vel_e_m_s", "vel_n_m_s",
  "vel_u_m_s", "speed_variance_m2_s2"]

namespace Row

def stamp : Row → Timestamp
  | .fix _ output => output.stamp
  | .velocity _ output => output.stamp

def stampField (row : Row) : String := row.stamp.monotonic.seconds.tabular

def blanks (n : Nat) : List String := List.replicate n ""

/-- The fields of a row; those of the other kind are empty. -/
def fields (row : Row) : List String :=
  match row with
  | .fix iTow output =>
      ["fix", row.stampField, toString iTow, output.latitude.tabular, output.longitude.tabular,
        output.altitude.tabular, output.horizontalVariance.tabular,
        output.verticalVariance.tabular, output.status.name] ++ blanks 4
  | .velocity iTow output =>
      ["velocity", row.stampField, toString iTow] ++ blanks 6 ++
        [output.east.tabular, output.north.tabular, output.up.tabular,
          output.speedVariance.tabular]

end Row

/-- Fields separated by commas, with the line end. -/
def line (fields : List String) : String := String.intercalate "," fields ++ "\n"

def tableText (rows : List Row) : String :=
  if rows.isEmpty then "" else String.join (line columns :: rows.map fun row => line row.fields)

end GnssFusion.Replay
