import GnssFusion.Fusion.Engine

/-!
Runs of an engine as histories. At each step the clock shows some reading, and a report
arrives, the engine is asked something, or nothing but the clock moves. Readings are
arbitrary, so every clock is covered; `NeverBack` singles out the clocks that do not go
back. A history keeps what came of each step. `lastEpoch_after` says that an engine holds
of it exactly the latest report of each stream with the stamp of its output, and
`monitor_after` that its rate monitor sees exactly the stamps of the fixes.
-/

namespace GnssFusion
namespace Session

/-- What an engine can be asked without being changed. -/
inductive Query
  | classification
  | telemetry
  | diagnostic
  | lastPosition
  | lastVelocity
  deriving DecidableEq, Repr

inductive Action
  | position (report : PositionReport)
  | velocity (report : VelocityReport)
  | solution (report : SolutionReport)
  | query (query : Query)
  /-- Only the clock moves. -/
  | wait
  deriving DecidableEq, Repr

structure Step where
  reading : Timestamp
  action : Action
  deriving DecidableEq, Repr

inductive Output
  | fix (fix : FusedFix)
  | velocity (velocity : FusedVelocity)
  | classification (level : Severity) (message : String)
  | telemetry (fields : List DiagnosticField)
  | diagnostic (diagnostic : Diagnostic)
  | lastPosition (last : Option (Stamped PositionReport))
  | lastVelocity (last : Option (Stamped VelocityReport))
  | nothing
  deriving DecidableEq

structure Moment extends Step where
  output : Output
  events : List Log.Event
  deriving DecidableEq

/-- The two streams whose reports are stamped. -/
inductive Stream
  | position
  | velocity
  deriving DecidableEq, Repr

def Stream.sibling : Stream → Stream
  | .position => .velocity
  | .velocity => .position

/-- Stream and epoch of a report that is stamped. -/
def Action.mark? : Action → Option (Stream × UInt32)
  | .position report => some (.position, report.iTow)
  | .velocity report => some (.velocity, report.iTow)
  | _ => none

def Output.stamp? : Output → Option Timestamp
  | .fix output => some output.stamp
  | .velocity output => some output.stamp
  | _ => none

/-- A stamped report: stream, epoch, the clock's reading at its arrival, and its stamp. -/
structure Stamping where
  stream : Stream
  iTow : UInt32
  reading : Timestamp
  stamp : Timestamp
  deriving DecidableEq, Repr

/-- What an engine holds of a stamped report for its sibling stream. -/
def Stamping.epoch (mark : Stamping) : UInt32 × Timestamp := (mark.iTow, mark.stamp)

def Moment.stamping? (moment : Moment) : Option Stamping :=
  match moment.action.mark?, moment.output.stamp? with
  | some (stream, iTow), some stamp => some ⟨stream, iTow, moment.reading, stamp⟩
  | _, _ => none

/-- What a rate monitor sees of a moment: the stamp of a fix. -/
def Moment.fixTick? (moment : Moment) : Option Duration :=
  match moment.output with
  | .fix fix => some fix.stamp.monotonic
  | _ => none

/-- The stamped reports of a history, in the merged order of both streams. -/
def stampings (history : List Moment) : List Stamping := history.filterMap Moment.stamping?

@[simp] theorem stampings_nil : stampings [] = [] := rfl

theorem stampings_cons (moment : Moment) (rest : List Moment) :
    stampings (moment :: rest) = moment.stamping?.toList ++ stampings rest := by
  cases h : moment.stamping? <;> simp [stampings, h]

theorem stampings_append (earlier later : List Moment) :
    stampings (earlier ++ later) = stampings earlier ++ stampings later :=
  List.filterMap_append

/-- The last of some stamped reports that is of the stream. -/
def latest (stream : Stream) (marks : List Stamping) : Option Stamping :=
  (marks.filter (·.stream = stream)).getLast?

def lastReport (stream : Stream) (earlier : List Moment) : Option UInt32 :=
  (latest stream (stampings earlier)).map Stamping.iTow

theorem latest_append (stream : Stream) (earlier later : List Stamping) :
    latest stream (earlier ++ later) = (latest stream later).or (latest stream earlier) := by
  simp only [latest, List.filter_append, List.getLast?_append]

theorem latest_concat_same {stream : Stream} (earlier : List Stamping) {x : Stamping}
    (h : x.stream = stream) : latest stream (earlier ++ [x]) = some x := by
  simp [latest, List.filter_append, h]

theorem latest_concat_other {stream : Stream} (earlier : List Stamping) {x : Stamping}
    (h : x.stream ≠ stream) : latest stream (earlier ++ [x]) = latest stream earlier := by
  simp [latest, List.filter_append, h]

/-- After the latest report of a stream come only reports of the other one. -/
theorem eq_append_cons_of_latest {stream : Stream} {marks : List Stamping} {x : Stamping}
    (h : latest stream marks = some x) :
    ∃ before after, marks = before ++ x :: after ∧ x.stream = stream ∧
      ∀ y ∈ after, y.stream ≠ stream := by
  obtain ⟨initial, hinitial⟩ := List.getLast?_eq_some_iff.mp h
  obtain ⟨before, rest, rfl, -, hrest⟩ := List.filter_eq_append_iff.mp hinitial
  obtain ⟨gap, after, rfl, hgap, hx, hafter⟩ := List.filter_eq_cons_iff.mp hrest
  refine ⟨before ++ gap, after, by simp, by simpa using hx, ?_⟩
  intro y hy
  simpa using List.filter_eq_nil_iff.mp hafter y hy

/-- The clock never goes back from one step to a later one. -/
def NeverBack (steps : List Step) : Prop :=
  steps.Pairwise fun earlier later => earlier.reading.monotonic ≤ later.reading.monotonic

instance (steps : List Step) : Decidable (NeverBack steps) :=
  inferInstanceAs (Decidable (List.Pairwise _ _))

/-- The only thing that is logged of a stamp is that it was used before. -/
theorem eq_of_mem_events_correlate {iTow : UInt32} {sibling : Option (UInt32 × Timestamp)}
    {now : Timestamp} {event : Log.Event} (h : event ∈ (correlate iTow sibling now).events) :
    event = .stampReused iTow := by
  unfold correlate at h
  split at h
  · split at h
    · exact List.mem_singleton.mp h
    · nomatch h
  · nomatch h

end Session

open Session

namespace Engine

def answer (engine : Engine) : Query → Output
  | .classification => .classification engine.classify.1 engine.classify.2
  | .telemetry => .telemetry engine.telemetry
  | .diagnostic => .diagnostic engine.diagnostic
  | .lastPosition => .lastPosition engine.lastPosition
  | .lastVelocity => .lastVelocity engine.lastVelocity

def act (engine : Engine) (step : Step) : Logged (Output × Engine) := do
  match step.action with
  | .position report =>
      let (fix, engine) ← engine.acceptPosition step.reading report
      return (.fix fix, engine)
  | .velocity report =>
      let (velocity, engine) ← engine.acceptVelocity step.reading report
      return (.velocity velocity, engine)
  | .solution report => return (.nothing, ← engine.acceptSolution report)
  | .query query => return (engine.answer query, engine)
  | .wait => return (.nothing, engine)

def next (engine : Engine) (step : Step) : Engine := (engine.act step).value.2

def moment (engine : Engine) (step : Step) : Moment :=
  ⟨step, (engine.act step).value.1, (engine.act step).events⟩

def after (engine : Engine) (steps : List Step) : Engine := steps.foldl next engine

def history (engine : Engine) : List Step → List Moment
  | [] => []
  | step :: rest => engine.moment step :: history (engine.next step) rest

/-- Epoch and stamp of the last report of a stream. -/
def lastEpoch (engine : Engine) : Stream → Option (UInt32 × Timestamp)
  | .position => engine.positionEpoch
  | .velocity => engine.velocityEpoch

@[simp] theorem lastEpoch_new (frameId : String) (monitor : Option RateMonitor)
    (stream : Stream) : (new frameId monitor).lastEpoch stream = none := by
  cases stream <;> rfl

@[simp] theorem after_cons (engine : Engine) (step : Step) (rest : List Step) :
    engine.after (step :: rest) = (engine.next step).after rest := rfl

@[simp] theorem history_cons (engine : Engine) (step : Step) (rest : List Step) :
    engine.history (step :: rest) = engine.moment step :: (engine.next step).history rest :=
  rfl

@[simp] theorem toStep_moment (engine : Engine) (step : Step) :
    (engine.moment step).toStep = step := rfl

theorem stamping?_moment (engine : Engine) (step : Step) :
    (engine.moment step).stamping? = step.action.mark?.map fun mark =>
      ⟨mark.1, mark.2, step.reading,
        (correlate mark.2 (engine.lastEpoch mark.1.sibling) step.reading).value⟩ := by
  obtain ⟨reading, action⟩ := step
  cases action with
  | position report | velocity report | solution report | wait => rfl
  | query query => cases query <;> rfl

/-- A step changes what the engine holds of a stream by its own report alone. -/
theorem lastEpoch_next (engine : Engine) (step : Step) (stream : Stream) :
    (engine.next step).lastEpoch stream =
      ((latest stream (engine.moment step).stamping?.toList).map Stamping.epoch).or
        (engine.lastEpoch stream) := by
  rw [stamping?_moment]
  obtain ⟨reading, action⟩ := step
  cases action <;> cases stream <;> rfl

/-- What an engine holds of a stream is the latest report of its history, or what it
held at the start. -/
theorem lastEpoch_after (engine : Engine) (steps : List Step) (stream : Stream) :
    (engine.after steps).lastEpoch stream =
      ((latest stream (stampings (engine.history steps))).map Stamping.epoch).or
        (engine.lastEpoch stream) := by
  induction steps generalizing engine with
  | nil => rfl
  | cons step rest ih =>
      rw [after_cons, ih, lastEpoch_next, history_cons, stampings_cons, latest_append]
      cases latest stream (stampings ((engine.next step).history rest)) <;> rfl

theorem monitor_next (engine : Engine) (step : Step) :
    (engine.next step).monitor = engine.monitor.map fun monitor =>
      (engine.moment step).fixTick?.toList.foldl RateMonitor.tick monitor := by
  obtain ⟨reading, action⟩ := step
  cases action with
  | position report => rfl
  | velocity report | solution report | wait => exact Option.map_id'.symm
  | query query => cases query <;> exact Option.map_id'.symm

/-- The monitor of an engine is ticked with the stamps of its fixes and nothing else. -/
theorem monitor_after (engine : Engine) (steps : List Step) :
    (engine.after steps).monitor = engine.monitor.map fun monitor =>
      ((engine.history steps).filterMap Moment.fixTick?).foldl RateMonitor.tick monitor := by
  induction steps generalizing engine with
  | nil => exact Option.map_id'.symm
  | cons step rest ih =>
      rw [after_cons, ih, monitor_next, Option.map_map, history_cons, List.filterMap_cons]
      cases (engine.moment step).fixTick? <;> rfl

theorem map_toStep_history (engine : Engine) (steps : List Step) :
    (engine.history steps).map Moment.toStep = steps := by
  induction steps generalizing engine with
  | nil => rfl
  | cons step rest ih => simp [ih]

/-- Every part of a history is the history of the steps of that part. -/
theorem history_eq_append_cons {engine : Engine} {steps : List Step}
    {earlier later : List Moment} {m : Moment}
    (h : engine.history steps = earlier ++ m :: later) :
    ∃ before step, engine.history before = earlier ∧ (engine.after before).moment step = m := by
  induction earlier generalizing engine steps with
  | nil =>
      cases steps with
      | nil => simp [history] at h
      | cons step rest =>
          rw [history_cons, List.nil_append] at h
          exact ⟨[], step, rfl, (List.cons.inj h).1⟩
  | cons first earlier ih =>
      cases steps with
      | nil => simp [history] at h
      | cons step rest =>
          rw [history_cons, List.cons_append] at h
          obtain ⟨hfirst, hrest⟩ := List.cons.inj h
          obtain ⟨before, last, hbefore, hlast⟩ := ih hrest
          exact ⟨step :: before, last, by rw [history_cons, hfirst, hbefore], hlast⟩

end Engine
end GnssFusion
