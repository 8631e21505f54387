import GnssFusion.RateMonitor

/-!
Rate monitors that tickers and readers share. Each monitor is behind one lock, a handle
names a lock, and every copy of a handle names the same one, so that what is ticked
through one of them is read through all.
-/

namespace GnssFusion

/-- The monitors by their locks. -/
abbrev Monitors := Nat → RateMonitor

structure SharedMonitor where
  lock : Nat
  deriving DecidableEq, Repr

namespace SharedMonitor

def put (handle : SharedMonitor) (monitor : RateMonitor) (monitors : Monitors) : Monitors :=
  fun lock => if lock = handle.lock then monitor else monitors lock

/-- Records a tick at the reading's time since the clock's start. -/
def tick (handle : SharedMonitor) (stamp : Timestamp) (monitors : Monitors) : Monitors :=
  handle.put ((monitors handle.lock).tick stamp.monotonic) monitors

def total (handle : SharedMonitor) (monitors : Monitors) : Nat :=
  (monitors handle.lock).total

def minimum (handle : SharedMonitor) (monitors : Monitors) : Binary64 :=
  (monitors handle.lock).minimum

def maximum (handle : SharedMonitor) (monitors : Monitors) : Binary64 :=
  (monitors handle.lock).maximum

def frequency? (handle : SharedMonitor) (now : Duration) (monitors : Monitors) :
    Option Binary64 :=
  (monitors handle.lock).frequency? now

def status (handle : SharedMonitor) (now : Duration) (monitors : Monitors) : Diagnostic :=
  (monitors handle.lock).status now

end SharedMonitor
end GnssFusion
