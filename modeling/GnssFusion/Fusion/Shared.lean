import GnssFusion.Fusion.Engine

/-!
Engines that several deliverers share. Each engine is behind one lock, a handle names a
lock, and every copy of a handle names the same one. A call holds the lock from its
beginning to its end, so that calls on one engine come one after the other.
-/

namespace GnssFusion

/-- The engines by their locks. -/
abbrev Engines := Nat → Engine

structure SharedEngine where
  lock : Nat
  deriving DecidableEq, Repr

namespace SharedEngine

/-- Runs a call on the engine of the handle and puts back what the call leaves. -/
def locked {α : Type} (handle : SharedEngine) (call : Engine → Logged (α × Engine))
    (engines : Engines) : Logged (α × Engines) := do
  let (a, engine) ← call (engines handle.lock)
  return (a, fun lock => if lock = handle.lock then engine else engines lock)

def acceptPosition (handle : SharedEngine) (now : Timestamp) (report : PositionReport) :
    Engines → Logged (FusedFix × Engines) :=
  handle.locked fun engine => engine.acceptPosition now report

def acceptVelocity (handle : SharedEngine) (now : Timestamp) (report : VelocityReport) :
    Engines → Logged (FusedVelocity × Engines) :=
  handle.locked fun engine => engine.acceptVelocity now report

def acceptSolution (handle : SharedEngine) (report : SolutionReport) :
    Engines → Logged (Unit × Engines) :=
  handle.locked fun engine => do return ((), ← engine.acceptSolution report)

def diagnostic (handle : SharedEngine) : Engines → Logged (Diagnostic × Engines) :=
  handle.locked fun engine => return (engine.diagnostic, engine)

end SharedEngine
end GnssFusion
