import GnssFusion.Binary64.Integer
import GnssFusion.Log
import GnssFusion.Settings.Lookup

/-!
The receiver's settings, resolved from a group of the settings tree: each setting in
turn is looked up, checked against its kind and range, and replaced by its default
when it is absent. The first setting that is not right is the error.
-/

namespace GnssFusion.Settings

inductive ResolveError
  | lookup (error : Error)
  /-- A setting that another one calls for is absent. -/
  | missingDependent (flag field : String)
  | outOfRange (path : String) (low high value : Int)
  | invalidRate (rate : Binary64)
  deriving DecidableEq

/-- The slowest rate: its period is the longest the receiver can hold. -/
def minimumRate : Binary64 := .ofNat 1000 / .ofNat 65535

/-- The fastest rate: its period is one millisecond. -/
def maximumRate : Binary64 := .ofNat 1000

def ResolveError.message : ResolveError → String
  | .lookup error => error.message
  | .missingDependent flag field =>
      s!"Invalid settings: {flag} is true, therefore {field} must be set"
  | .outOfRange path low high value =>
      s!"Setting '{path}' = {value} is out of range [{low}, {high}]"
  | .invalidRate rate =>
      let range := s!"[{minimumRate.fixed 4}, {maximumRate.plain}]"
      s!"Invalid measurement rate {rate.plain} Hz, must be within {range}"

/-- What the sentence output leaves through, in the order of its bits. -/
structure NmeaFilter where
  /-- Positions flagged invalid. -/
  pos : Bool
  /-- Masked positions. -/
  mskPos : Bool
  /-- Invalid times. -/
  time : Bool
  /-- Invalid dates. -/
  date : Bool
  /-- Satellites of the augmentation systems are kept out. -/
  sbas : Bool
  /-- Headings while not moving. -/
  track : Bool
  deriving DecidableEq, Repr, Inhabited

namespace NmeaFilter

def ofBits (bits : Nat) : NmeaFilter :=
  ⟨bits.testBit 0, bits.testBit 1, bits.testBit 2, bits.testBit 3, bits.testBit 4,
    bits.testBit 5⟩

def bits (f : NmeaFilter) : Nat :=
  f.pos.toNat + 2 * f.mskPos.toNat + 4 * f.time.toNat + 8 * f.date.toNat
    + 16 * f.sbas.toNat + 32 * f.track.toNat

def names (f : NmeaFilter) : List String :=
  [("POS", f.pos), ("MSK_POS", f.mskPos), ("TIME", f.time), ("DATE", f.date),
    ("SBAS", f.sbas), ("TRACK", f.track)].filterMap
      fun (name, set) => if set then some name else none

end NmeaFilter

/-- Modes of the sentence output, in the order of their bits. -/
structure NmeaFlags where
  compat : Bool
  consider : Bool
  deriving DecidableEq, Repr, Inhabited

namespace NmeaFlags

def ofBits (bits : Nat) : NmeaFlags := ⟨bits.testBit 0, bits.testBit 1⟩

def bits (f : NmeaFlags) : Nat := f.compat.toNat + 2 * f.consider.toNat

def names (f : NmeaFlags) : List String :=
  [("COMPAT", f.compat), ("CONSIDER", f.consider)].filterMap
    fun (name, set) => if set then some name else none

end NmeaFlags

/-- The alternate sentence output. -/
structure NmeaSettings where
  version : UInt8
  numSv : UInt8
  filter : NmeaFilter
  flags : NmeaFlags
  deriving DecidableEq, Repr

/-- Filter and flag bits in one word, the flags in the high byte. -/
def NmeaSettings.mask (nmea : NmeaSettings) : Nat := 256 * nmea.flags.bits + nmea.filter.bits

/-- Which raw reports are logged as they arrive. -/
structure PublishToggles where
  navPosllh : Bool
  navVelned : Bool
  navSol : Bool
  navSvinfo : Bool
  monHw : Bool
  deriving DecidableEq, Repr, Inhabited

structure ReceiverSettings where
  frameId : String
  /-- Measurements per second. -/
  rate : Binary64
  /-- Measurements per navigation solution. -/
  navRate : UInt8
  /-- Present only when the alternate output is switched on. -/
  nmea : Option NmeaSettings
  publish : PublishToggles
  deriving DecidableEq

namespace ReceiverSettings

def default : ReceiverSettings := ⟨"gps", .ofNat 4, 1, none, ⟨false, false, false, false, false⟩⟩

/-- Measurement period in milliseconds, held to 16 bits. -/
def measurementPeriod (settings : ReceiverSettings) : UInt16 :=
  UInt16.ofNat (Binary64.truncInt 0 65535 (.ofNat 1000 / settings.rate)).toNat

def fixFrequency (settings : ReceiverSettings) : Binary64 :=
  settings.rate / .ofNat settings.navRate.toNat

def events (settings : ReceiverSettings) : List Log.Event :=
  .settingsResolved settings.frameId settings.rate settings.navRate ::
    (settings.nmea.map fun nmea => .nmeaEnabled nmea.version nmea.numSv nmea.mask).toList

end ReceiverSettings

/-! Resolution, setting by setting. -/

abbrev Resolve := Except ResolveError

def lookup {α : Type} (result : Except Error α) : Resolve α := result.mapError .lookup

def boolAt (group : Group) (path : String) : Resolve Bool :=
  lookup (group.getBoolOr path false)

/-- An integer that is absent or within a range. -/
def intIn (group : Group) (path : String) (low high : Int) : Resolve (Option Int) := do
  match ← lookup (group.getParameter? path) with
  | none => return none
  | some p =>
      let value ← lookup p.asInt
      if value < low ∨ high < value then .error (.outOfRange p.path low high value)
      return some value

def resolveFrameId (group : Group) : Resolve String := do
  match ← lookup (group.getParameter? "frame_id") with
  | some p => lookup p.asString
  | none => return ReceiverSettings.default.frameId

def resolveRate (group : Group) : Resolve Binary64 := do
  let rate ← match ← lookup (group.getParameter? "rate") with
    | some p => lookup p.asFloat
    | none => pure ReceiverSettings.default.rate
  if minimumRate.le rate && rate.le maximumRate then return rate
  else .error (.invalidRate rate)

def resolveNavRate (group : Group) : Resolve UInt8 := do
  match ← intIn group "nav_rate" 1 127 with
  | some value => return UInt8.ofNat value.toNat
  | none => return ReceiverSettings.default.navRate

/-- A byte that must be given once the alternate output is switched on. -/
def requiredByte (group : Group) (path : String) : Resolve UInt8 := do
  match ← intIn group path 0 255 with
  | some value => return UInt8.ofNat value.toNat
  | none => .error (.missingDependent "nmea.set" path)

def resolveNmea (group : Group) : Resolve NmeaSettings := do
  let version ← requiredByte group "nmea.version"
  let numSv ← requiredByte group "nmea.num_sv"
  let compat ← boolAt group "nmea.compat"
  let consider ← boolAt group "nmea.consider"
  let pos ← boolAt group "nmea.filter.pos"
  let mskPos ← boolAt group "nmea.filter.msk_pos"
  let time ← boolAt group "nmea.filter.time"
  let date ← boolAt group "nmea.filter.date"
  let sbas ← boolAt group "nmea.filter.sbas"
  let track ← boolAt group "nmea.filter.track"
  return ⟨version, numSv, ⟨pos, mskPos, time, date, sbas, track⟩, ⟨compat, consider⟩⟩

def resolvePublish (group : Group) : Resolve PublishToggles := do
  let navPosllh ← boolAt group "publish.nav.posllh"
  let navVelned ← boolAt group "publish.nav.velned"
  let navSol ← boolAt group "publish.nav.sol"
  let navSvinfo ← boolAt group "publish.nav.svinfo"
  let monHw ← boolAt group "publish.mon.hw"
  return ⟨navPosllh, navVelned, navSol, navSvinfo, monHw⟩

def ReceiverSettings.resolve (group : Group) : Resolve ReceiverSettings := do
  let frameId ← resolveFrameId group
  let rate ← resolveRate group
  let navRate ← resolveNavRate group
  let nmea ← if ← boolAt group "nmea.set" then some <$> resolveNmea group else pure none
  let publish ← resolvePublish group
  return ⟨frameId, rate, navRate, nmea, publish⟩

end GnssFusion.Settings
