import GnssFusion.Binary64.Arithmetic
import GnssFusion.Binary64.Integer

/-!
Durations in whole nanoseconds, civil times, clock readings, and a clock that is moved
by hand. A reading pairs the civil time with the time since the clock's start; outputs
are stamped with whole readings.

Civil time counts seconds without leap seconds. A leap second is a prolonged second: the
nanoseconds of the second before it run on past a billion. Only a civil time that was
given inside a leap second knows of one, so durations differ from the counted seconds
around such a time alone.
-/

namespace GnssFusion

/-- A signed number of nanoseconds. -/
abbrev Duration := Int

namespace Duration

def perSecond : Nat := 1000000000

/-- Seconds: the whole seconds, truncated toward zero, plus the remaining
nanoseconds of the same sign. -/
def seconds (d : Duration) : Binary64 :=
  .ofInt (d.tdiv perSecond) + .ofInt (d.tmod perSecond) / .ofNat perSecond

/-- The duration of a number of seconds, to the nearest nanosecond and held to the
signed 64-bit range. -/
def ofSeconds (s : Binary64) : Duration :=
  Binary64.nearestInt Int64.minValue.toInt Int64.maxValue.toInt (s * .ofNat perSecond)

end Duration

/-- A civil time in whole seconds since the Unix epoch and nanoseconds into that second,
of which a prolonged second has up to two billion. -/
structure CivilTime where
  second : Int
  nanosecond : Nat
  deriving DecidableEq, Repr

namespace CivilTime

def perDay : Nat := 86400

def epoch : CivilTime := ⟨0, 0⟩

def inLeapSecond (t : CivilTime) : Bool := Duration.perSecond ≤ t.nanosecond

def secondOfDay (t : CivilTime) : Int := t.second % perDay

/-- The time a duration later. A move by less than a second that does not reach the end
of a prolonged second stays in that second, one that leaves it forwards takes the leap
second in addition, and one that leaves it backwards does not know of it. -/
def after (t : CivilTime) (d : Duration) : CivilTime :=
  let moved := t.nanosecond + d
  if t.inLeapSecond ∧ d.natAbs < Duration.perSecond ∧ moved < 2 * Duration.perSecond then
    ⟨t.second, moved.toNat⟩
  else
    let leap : Int := if t.inLeapSecond ∧ 0 < d then Duration.perSecond else 0
    let moved := moved - leap
    ⟨t.second + moved / Duration.perSecond, (moved % Duration.perSecond).toNat⟩

/-- The duration from one time to another. The leap second of the earlier in the day
counts as a second more on the way to the later in the day. -/
def since (later earlier : CivilTime) : Duration :=
  let leap : Int :=
    if earlier.secondOfDay < later.secondOfDay ∧ earlier.inLeapSecond then 1
    else if later.secondOfDay < earlier.secondOfDay ∧ later.inLeapSecond then -1
    else 0
  (later.second - earlier.second + leap) * Duration.perSecond
    + (later.nanosecond - earlier.nanosecond)

end CivilTime

/-- One reading of a clock: civil time, and time since the clock's start. -/
structure Timestamp where
  utc : CivilTime
  monotonic : Duration
  deriving DecidableEq, Repr

/-- A clock that only moves when told to. -/
structure SimulatedClock where
  /-- Civil time at the clock's start. -/
  epoch : CivilTime
  elapsed : Duration
  deriving DecidableEq, Repr

namespace SimulatedClock

/-- A clock at its start, which is the Unix epoch. -/
def atUnixEpoch : SimulatedClock := ⟨.epoch, 0⟩

def now (clock : SimulatedClock) : Timestamp :=
  ⟨clock.epoch.after clock.elapsed, clock.elapsed⟩

def step (clock : SimulatedClock) (d : Duration) : SimulatedClock :=
  { clock with elapsed := clock.elapsed + d }

/-- Moves the clock to an elapsed time, never backwards. -/
def advanceTo (clock : SimulatedClock) (elapsed : Duration) : SimulatedClock :=
  { clock with elapsed := max clock.elapsed elapsed }

end SimulatedClock
end GnssFusion
