import GnssFusion.Fusion.Shared
import GnssFusion.Proofs.Fusion.Session
import GnssFusion.Proofs.Units.RawValues

/-!
What can be observed of an engine, from its history alone. `reported past query` says what
is answered after a history: it looks up the last report of each kind with the output made
from it, and applies the rules for the health of a fix in their order. Engines answer so
after every run (`answer_after`), and so do engines that are reached through handles,
whatever is called on the others meanwhile (`momentsOf_served`).
-/

namespace GnssFusion
namespace Session

/-- What `f` gives for the last element to which it gives anything. -/
def lastSome {α β : Type} (f : α → Option β) (xs : List α) : Option β :=
  (xs.filterMap f).getLast?

theorem lastSome_cons {α β : Type} (f : α → Option β) (x : α) (xs : List α) :
    lastSome f (x :: xs) = (lastSome f xs).or (f x) := by
  cases h : f x <;> simp [lastSome, h, List.getLast?_cons, Option.or_some]

def Moment.fix? (moment : Moment) : Option (PositionReport × FusedFix) :=
  match moment.action, moment.output with
  | .position report, .fix fix => some (report, fix)
  | _, _ => none

def Moment.velocity? (moment : Moment) : Option (VelocityReport × FusedVelocity) :=
  match moment.action, moment.output with
  | .velocity report, .velocity velocity => some (report, velocity)
  | _, _ => none

def Moment.solution? (moment : Moment) : Option SolutionReport :=
  match moment.action with
  | .solution report => some report
  | _ => none

/-- The rule for the type of a fix. It says nothing of no fix. -/
def typeRule : FixType → Option (Severity × String)
  | .noFix => none
  | .deadReckoningOnly => some (.warn, "Dead reckoning only")
  | .fix2D => some (.ok, "2D fix")
  | .fix3D => some (.ok, "3D fix")
  | .gpsDeadReckoningCombined => some (.ok, "GPS and dead reckoning combined")
  | .timeOnly => some (.ok, "Time fix only")

/-- The rules for the health of a fix, in the order in which they are applied; each goes
on from what the rules before it have found. -/
def healthRules : List (SolutionReport → Severity × String → Severity × String) := [
  fun report found => (typeRule report.fixType).getD found,
  fun report found => if report.flags.gpsFixOk then found else (.warn, found.2 ++ ", fix not ok"),
  fun report found => if report.fixType = .noFix then (.error, "No fix") else found]

/-- Nothing is wrong before the first report. -/
def health (last : Option SolutionReport) : Severity × String :=
  match last with
  | none => (.ok, "")
  | some report => healthRules.foldl (fun found rule => rule report found) (.ok, "")

def noPosition : PositionReport := ⟨0, 0, 0, 0, 0, 0, 0⟩

/-- The telemetry of the last position report, the fix made from it and the last solution
report. What there is of a fix in it is that fix's own. -/
def telemetryOf (last : Option (PositionReport × FusedFix)) (solution : Option SolutionReport) :
    List DiagnosticField :=
  let position := (last.map Prod.fst).getD noPosition
  let ofFix (part : FusedFix → Binary64) := (last.map fun l => part l.2).getD (.zero false)
  [⟨"iTOW [ms]", .int position.iTow.toNat⟩,
    ⟨"Latitude [deg]", .float (ofFix FusedFix.latitude)⟩,
    ⟨"Longitude [deg]", .float (ofFix FusedFix.longitude)⟩,
    ⟨"Altitude [m]", .float (ofFix FusedFix.altitude)⟩,
    ⟨"Height above MSL [m]", .float (Units.metresOfInt position.hMsl.toInt)⟩,
    ⟨"Horizontal Accuracy [m]", .float (Units.metresOfInt position.hAcc.toNat)⟩,
    ⟨"Vertical Accuracy [m]", .float (Units.metresOfInt position.vAcc.toNat)⟩,
    ⟨"# SVs used", .int ((solution.map fun report => report.numSv.toNat).getD 0)⟩]

/-- What is answered after a history. -/
def reported (past : List Moment) : Query → Output :=
  let fix := lastSome Moment.fix? past
  let velocity := lastSome Moment.velocity? past
  let solution := lastSome Moment.solution? past
  fun
  | .classification => .classification (health solution).1 (health solution).2
  | .telemetry => .telemetry (telemetryOf fix solution)
  | .diagnostic =>
      .diagnostic ⟨"fix", (health solution).1, (health solution).2, telemetryOf fix solution⟩
  | .lastPosition => .lastPosition (fix.map fun l => ⟨l.2.stamp, l.1⟩)
  | .lastVelocity => .lastVelocity (velocity.map fun l => ⟨l.2.stamp, l.1⟩)

theorem classifyReport_eq_health (report : SolutionReport) :
    SolutionTracker.classifyReport report = health (some report) := by
  obtain ⟨iTow, fixType, flags, numSv⟩ := report
  cases h : flags.gpsFixOk <;> cases fixType <;>
    simp [SolutionTracker.classifyReport, SolutionTracker.typeMessage, SolutionReport.fixOk,
      health, healthRules, typeRule, h]

/-- The health is an error exactly when there is no fix. -/
theorem health_eq_error_iff (last : Option SolutionReport) :
    (health last).1 = .error ↔ last.map SolutionReport.fixType = some .noFix := by
  cases last with
  | none => simp [health]
  | some report =>
      obtain ⟨iTow, fixType, flags, numSv⟩ := report
      cases h : flags.gpsFixOk <;> cases fixType <;>
        simp [health, healthRules, typeRule, h]

theorem lastSome_mem {α β : Type} {f : α → Option β} {xs : List α} {b : β}
    (h : lastSome f xs = some b) : ∃ x ∈ xs, f x = some b :=
  List.mem_filterMap.mp (List.mem_of_getLast? h)

/-- Two ways to the same numbers: the tracker converts the report once more, the history
has the fix that was made from it. -/
theorem telemetry_eq_telemetryOf (tracker : SolutionTracker)
    {last : Option (PositionReport × FusedFix)}
    (fused : ∀ report fix, last = some (report, fix) →
      ∃ frameId stamp status, fix = FusedFix.ofReport frameId stamp status report) :
    tracker.telemetry (last.map Prod.fst) = telemetryOf last tracker.last := by
  obtain ⟨solution⟩ := tracker
  cases last with
  | none =>
      have hzero : (default : PositionReport) = noPosition := rfl
      cases solution <;>
        simp [SolutionTracker.telemetry, telemetryOf, hzero, noPosition,
          Units.scales_degrees.zero, Units.scales_metresOfInt.zero]
  | some l =>
      obtain ⟨report, fix⟩ := l
      obtain ⟨frameId, stamp, status, rfl⟩ := fused report fix rfl
      cases solution <;> simp [SolutionTracker.telemetry, telemetryOf, FusedFix.ofReport]

/-- What can be asked for through a handle. -/
inductive Request
  | position (report : PositionReport)
  | velocity (report : VelocityReport)
  | solution (report : SolutionReport)
  | diagnostic
  deriving DecidableEq, Repr

def Request.action : Request → Action
  | .position report => .position report
  | .velocity report => .velocity report
  | .solution report => .solution report
  | .diagnostic => .query .diagnostic

structure Call where
  handle : SharedEngine
  reading : Timestamp
  request : Request
  deriving DecidableEq, Repr

namespace Call

def step (call : Call) : Step := ⟨call.reading, call.request.action⟩

def perform (call : Call) (engines : Engines) : Logged (Output × Engines) := do
  match call.request with
  | .position report =>
      let (fix, engines) ← call.handle.acceptPosition call.reading report engines
      return (.fix fix, engines)
  | .velocity report =>
      let (velocity, engines) ← call.handle.acceptVelocity call.reading report engines
      return (.velocity velocity, engines)
  | .solution report =>
      let (_, engines) ← call.handle.acceptSolution report engines
      return (.nothing, engines)
  | .diagnostic =>
      let (diagnostic, engines) ← call.handle.diagnostic engines
      return (.diagnostic diagnostic, engines)

def next (engines : Engines) (call : Call) : Engines := (call.perform engines).value.2

def moment (call : Call) (engines : Engines) : Moment :=
  ⟨call.step, (call.perform engines).value.1, (call.perform engines).events⟩

/-- What comes of some calls, each with the lock that it took. -/
def served (engines : Engines) : List Call → List (Nat × Moment)
  | [] => []
  | call :: rest => (call.handle.lock, call.moment engines) :: served (next engines call) rest

end Call

/-- The steps of the calls that take a lock. -/
def stepsOf (lock : Nat) (calls : List Call) : List Step :=
  (calls.filter (·.handle.lock = lock)).map Call.step

def momentsOf (lock : Nat) (served : List (Nat × Moment)) : List Moment :=
  (served.filter (·.1 = lock)).map Prod.snd

end Session

open Session

namespace Engine

section
variable (engine : Engine) (step : Step)

theorem lastPosition_next :
    (engine.next step).lastPosition =
      ((engine.moment step).fix?.map fun l => ⟨l.2.stamp, l.1⟩).or engine.lastPosition := by
  obtain ⟨reading, action⟩ := step
  cases action <;> rfl

theorem lastVelocity_next :
    (engine.next step).lastVelocity =
      ((engine.moment step).velocity?.map fun l => ⟨l.2.stamp, l.1⟩).or
        engine.lastVelocity := by
  obtain ⟨reading, action⟩ := step
  cases action <;> rfl

theorem trackerLast_next :
    (engine.next step).tracker.last =
      (engine.moment step).solution?.or engine.tracker.last := by
  obtain ⟨reading, action⟩ := step
  cases action <;> rfl

theorem fix_of_moment {report : PositionReport} {fix : FusedFix}
    (h : (engine.moment step).fix? = some (report, fix)) :
    ∃ frameId stamp status, fix = FusedFix.ofReport frameId stamp status report := by
  obtain ⟨reading, action⟩ := step
  cases action with
  | position given =>
      obtain ⟨rfl, rfl⟩ := Prod.mk.inj (Option.some.inj h)
      exact ⟨_, _, _, rfl⟩
  | velocity _ | solution _ | query _ | wait => nomatch h

end

/-- A part of the state that each step either replaces by what comes of it or leaves is,
after a run, what came of the last step that replaced it. -/
theorem part_after {α β : Type} (part : Engine → Option β) (f : Moment → Option α) (g : α → β)
    (hnext : ∀ engine step,
      part (engine.next step) = ((f (engine.moment step)).map g).or (part engine))
    (engine : Engine) (steps : List Step) :
    part (engine.after steps) =
      ((lastSome f (engine.history steps)).map g).or (part engine) := by
  induction steps generalizing engine with
  | nil => rfl
  | cons step rest ih =>
      rw [after_cons, ih, hnext, history_cons, lastSome_cons]
      cases lastSome f ((engine.next step).history rest) <;> rfl

theorem fix_of_lastSome {engine : Engine} {steps : List Step} {report : PositionReport}
    {fix : FusedFix} (h : lastSome Moment.fix? (engine.history steps) = some (report, fix)) :
    ∃ frameId stamp status, fix = FusedFix.ofReport frameId stamp status report := by
  obtain ⟨m, hm, hfix⟩ := lastSome_mem h
  obtain ⟨earlier, later, hsplit⟩ := List.append_of_mem hm
  obtain ⟨before, step, -, rfl⟩ := history_eq_append_cons hsplit
  exact fix_of_moment _ step hfix

theorem classify_eq_health (engine : Engine) : engine.classify = health engine.tracker.last := by
  obtain ⟨frameId, ⟨last⟩, lastPosition, lastVelocity, monitor⟩ := engine
  cases last with
  | none => rfl
  | some report => exact classifyReport_eq_health report

section
variable (frameId : String) (monitor : Option RateMonitor) (steps : List Step)

theorem lastPosition_after :
    ((new frameId monitor).after steps).lastPosition =
      (lastSome Moment.fix? ((new frameId monitor).history steps)).map
        fun l => ⟨l.2.stamp, l.1⟩ := by
  rw [part_after Engine.lastPosition Moment.fix? (fun l => ⟨l.2.stamp, l.1⟩) lastPosition_next]
  exact Option.or_none

theorem lastVelocity_after :
    ((new frameId monitor).after steps).lastVelocity =
      (lastSome Moment.velocity? ((new frameId monitor).history steps)).map
        fun l => ⟨l.2.stamp, l.1⟩ := by
  rw [part_after Engine.lastVelocity Moment.velocity? (fun l => ⟨l.2.stamp, l.1⟩)
    lastVelocity_next]
  exact Option.or_none

theorem trackerLast_after :
    ((new frameId monitor).after steps).tracker.last =
      lastSome Moment.solution? ((new frameId monitor).history steps) := by
  rw [part_after (fun engine => engine.tracker.last) Moment.solution? id
    (by simpa using trackerLast_next)]
  simp [new, SolutionTracker.empty]

theorem telemetry_after :
    ((new frameId monitor).after steps).telemetry =
      telemetryOf (lastSome Moment.fix? ((new frameId monitor).history steps))
        (lastSome Moment.solution? ((new frameId monitor).history steps)) := by
  rw [← trackerLast_after, Engine.telemetry, lastPosition_after, Option.map_map]
  exact telemetry_eq_telemetryOf _ fun report fix h => fix_of_lastSome h

/-- A new engine answers after a run what its history says. -/
theorem answer_after (query : Query) :
    ((new frameId monitor).after steps).answer query =
      reported ((new frameId monitor).history steps) query := by
  have hclassify : ((new frameId monitor).after steps).classify =
      health (lastSome Moment.solution? ((new frameId monitor).history steps)) := by
    rw [classify_eq_health, trackerLast_after]
  cases query with
  | classification => rw [answer, hclassify]; rfl
  | telemetry => rw [answer, telemetry_after]; rfl
  | diagnostic => rw [answer, diagnostic, hclassify, telemetry_after]; rfl
  | lastPosition => rw [answer, lastPosition_after]; rfl
  | lastVelocity => rw [answer, lastVelocity_after]; rfl

end

end Engine

namespace Session

/-- A call through a handle is a step of the engine behind its lock and leaves the others
as they are. -/
theorem Call.perform_eq (call : Call) (engines : Engines) :
    call.perform engines = call.handle.locked (fun engine => engine.act call.step) engines := by
  obtain ⟨handle, reading, request⟩ := call
  cases request <;>
    simp [perform, SharedEngine.acceptPosition, SharedEngine.acceptVelocity,
      SharedEngine.acceptSolution, SharedEngine.diagnostic, SharedEngine.locked, Engine.act,
      Engine.answer, step, Request.action]

theorem Call.moment_eq (call : Call) (engines : Engines) :
    call.moment engines = (engines call.handle.lock).moment call.step := by
  rw [moment, perform_eq, Engine.moment]
  simp [SharedEngine.locked]

theorem Call.next_eq (call : Call) (engines : Engines) (lock : Nat) :
    next engines call lock =
      if lock = call.handle.lock then (engines lock).next call.step else engines lock := by
  rw [next, perform_eq]
  by_cases h : lock = call.handle.lock <;> simp [SharedEngine.locked, Engine.next, h]

theorem stepsOf_cons (lock : Nat) (call : Call) (rest : List Call) :
    stepsOf lock (call :: rest) =
      if call.handle.lock = lock then call.step :: stepsOf lock rest else stepsOf lock rest := by
  by_cases h : call.handle.lock = lock <;> simp [stepsOf, h]

theorem momentsOf_cons (lock : Nat) (entry : Nat × Moment) (rest : List (Nat × Moment)) :
    momentsOf lock (entry :: rest) =
      if entry.1 = lock then entry.2 :: momentsOf lock rest else momentsOf lock rest := by
  by_cases h : entry.1 = lock <;> simp [momentsOf, h]

/-- After some calls the engine behind a lock is as after the steps of the calls that
took the lock, whatever was called on the other engines between them. -/
theorem afterCalls_eq (engines : Engines) (calls : List Call) (lock : Nat) :
    calls.foldl Call.next engines lock = (engines lock).after (stepsOf lock calls) := by
  induction calls generalizing engines with
  | nil => rfl
  | cons call rest ih =>
      rw [List.foldl_cons, ih, Call.next_eq, stepsOf_cons]
      by_cases h : call.handle.lock = lock
      · rw [if_pos h.symm, if_pos h, Engine.after_cons]
      · rw [if_neg (Ne.symm h), if_neg h]

theorem momentsOf_served (engines : Engines) (calls : List Call) (lock : Nat) :
    momentsOf lock (Call.served engines calls) =
      (engines lock).history (stepsOf lock calls) := by
  induction calls generalizing engines with
  | nil => rfl
  | cons call rest ih =>
      rw [Call.served, momentsOf_cons, ih, Call.next_eq, stepsOf_cons]
      by_cases h : call.handle.lock = lock
      · rw [if_pos h, if_pos h.symm, if_pos h, Engine.history_cons, Call.moment_eq, h]
      · rw [if_neg h, if_neg (Ne.symm h), if_neg h]

end Session

namespace Engine

/-- What can be observed of a new engine after any run is what the last report of each
kind says, with the outputs made from them; the health is an error exactly when the last
solution report has no fix. It is the same for an engine that is reached through handles:
its moments are those of a run of its own, and its diagnostic is what they say. -/
theorem observed_from_last_reports (frameId : String) (monitor : Option RateMonitor) :
    (∀ steps reading query,
      let history := (new frameId monitor).history steps
      (((new frameId monitor).after steps).moment ⟨reading, .query query⟩).output =
        reported history query ∧
      ((health (lastSome Moment.solution? history)).1 = .error ↔
        (lastSome Moment.solution? history).map SolutionReport.fixType = some .noFix)) ∧
    (∀ (others : Engines) (lock : Nat) (calls : List Call) (reading : Timestamp),
      let engines : Engines := fun l => if l = lock then new frameId monitor else others l
      let moments := momentsOf lock (Call.served engines calls)
      moments = (new frameId monitor).history (stepsOf lock calls) ∧
      (Call.moment ⟨⟨lock⟩, reading, .diagnostic⟩ (calls.foldl Call.next engines)).output =
        reported moments .diagnostic) := by
  refine ⟨?_, ?_⟩
  · intro steps reading query history
    exact ⟨answer_after frameId monitor steps query, health_eq_error_iff _⟩
  · intro others lock calls reading engines moments
    have hnew : engines lock = new frameId monitor := if_pos rfl
    have hmoments : moments = (new frameId monitor).history (stepsOf lock calls) := by
      rw [← hnew]
      exact momentsOf_served engines calls lock
    refine ⟨hmoments, ?_⟩
    rw [Call.moment_eq, afterCalls_eq, hnew, hmoments]
    exact answer_after frameId monitor (stepsOf lock calls) .diagnostic

end Engine
end GnssFusion
