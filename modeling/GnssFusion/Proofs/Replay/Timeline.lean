import GnssFusion.Proofs.Fusion.Session
import GnssFusion.Proofs.Replay.Feed
import GnssFusion.Proofs.Replay.ReportFields

/-!
A replay that succeeds is a run of the engine. The recording prescribes its steps: at
each entry the clock shows the latest receive time so far, and the engine gets the
entry's report. Engine, clock, counts and rows after a replay are read off the history of
these steps (`feed_of_sound`), and velocities are counted as sharing their stamp exactly
when the engine reused one.
-/

namespace GnssFusion

namespace Entry

def position? (entry : Entry) : Option PositionReport :=
  match entry.report with
  | .position report => some report
  | _ => none

/-- What the engine is given; a solution without a decoding is not sound. -/
def action (entry : Entry) : Session.Action :=
  match entry.report with
  | .position report => .position report
  | .velocity report => .velocity report
  | .solution record => record.decode?.elim .wait .solution

end Entry

namespace Log.Counts

def add (a b : Counts) : Counts where
  positions := a.positions + b.positions
  velocities := a.velocities + b.velocities
  solutions := a.solutions + b.solutions
  correlated := a.correlated + b.correlated

theorem add_assoc (a b c : Counts) : (a.add b).add c = a.add (b.add c) := by
  simp only [add, Nat.add_assoc]

theorem zero_add (a : Counts) : add ⟨0, 0, 0, 0⟩ a = a := by
  simp only [add, Nat.zero_add]

end Log.Counts

namespace Session.Moment

def row? (m : Moment) : Option Replay.Row :=
  match m.action, m.output with
  | .position report, .fix fix => some (.fix report.iTow fix)
  | .velocity report, .velocity velocity => some (.velocity report.iTow velocity)
  | _, _ => none

/-- A velocity was given the stamp of the last position. -/
def reuses (m : Moment) : Bool :=
  match m.action with
  | .velocity report => decide (Log.Event.stampReused report.iTow ∈ m.events)
  | _ => false

end Session.Moment

namespace Replay

open Session (Moment Stream)

def Row.mark : Row → Stream × UInt32
  | .fix iTow _ => (.position, iTow)
  | .velocity iTow _ => (.velocity, iTow)

/-- The latest of a time and the receive times of some entries. -/
def latestTime (start : Duration) (entries : List Entry) : Duration :=
  (entries.map Entry.elapsed).foldl max start

/-- The steps that a recording prescribes from a clock. -/
def timeline (clock : SimulatedClock) (entries : List Entry) : List Session.Step :=
  entries.mapIdx fun i entry =>
    ⟨SimulatedClock.now ⟨clock.epoch, latestTime clock.elapsed (entries.take (i + 1))⟩,
      entry.action⟩

/-- Epoch of the nearest position before an entry, the engine's own counting as the one
before all of the recording. -/
def nearestEpoch (engine : Engine) (earlier : List Entry) : Option UInt32 :=
  ((earlier.filterMap Entry.position?).getLast?.or (engine.lastPosition.map (·.value))).map
    (·.iTow)

/-- Entry `i` is a velocity of the epoch of the nearest position. -/
def sharesEpoch (engine : Engine) (entries : List Entry) (i : Nat) : Bool :=
  match entries[i]?.map Entry.report with
  | some (.velocity report) =>
      decide (nearestEpoch engine (entries.take i) = some report.iTow)
  | _ => false

def written (options : Options) (history : List Moment) : List Row :=
  if options.tabulate then history.filterMap Moment.row? else []

def tally (entries : List Entry) (history : List Moment) : Log.Counts where
  positions := entries.countP (·.report.kind = .position)
  velocities := entries.countP (·.report.kind = .velocity)
  solutions := entries.countP (·.report.kind = .solution)
  correlated := history.countP Moment.reuses

theorem tally_cons (entry : Entry) (entries : List Entry) (m : Moment)
    (history : List Moment) :
    tally (entry :: entries) (m :: history) = (tally [entry] [m]).add (tally entries history) := by
  simp only [tally, Log.Counts.add, List.countP_cons, List.countP_nil, Nat.zero_add]
  congr 1 <;> exact Nat.add_comm _ _

theorem written_cons (options : Options) (m : Moment) (history : List Moment) :
    written options (m :: history) = written options [m] ++ written options history := by
  cases h : options.tabulate with
  | false => simp [written, h]
  | true =>
      simp only [written, h, if_true]
      exact List.filterMap_append (l := [m])

theorem latestTime_take_succ (start : Duration) {entries : List Entry} {i : Nat}
    {entry : Entry} (h : entries[i]? = some entry) :
    latestTime start (entries.take (i + 1)) =
      max (latestTime start (entries.take i)) entry.elapsed := by
  simp [latestTime, List.take_add_one, h]

theorem timeline_cons (clock : SimulatedClock) (entry : Entry) (rest : List Entry) :
    timeline clock (entry :: rest) =
      ⟨(clock.advanceTo entry.elapsed).now, entry.action⟩ ::
        timeline (clock.advanceTo entry.elapsed) rest := by
  simp only [timeline, List.mapIdx_cons]
  rfl

theorem mem_events_correlate {iTow : UInt32} {sibling : Option (UInt32 × Timestamp)}
    {now : Timestamp} :
    .stampReused iTow ∈ (correlate iTow sibling now).events ↔
      sibling.map Prod.fst = some iTow := by
  cases sibling with
  | none => simp [correlate]
  | some last =>
      obtain ⟨epoch, stamp⟩ := last
      by_cases h : epoch = iTow <;> simp [correlate, h, Logged.emit]

/-- The test of a replay for a shared stamp agrees with the correlator's decision. -/
theorem siblingStamp_eq_iff {s : State} {iTow : UInt32} {now : Timestamp} :
    s.siblingStamp iTow = some (correlate iTow s.engine.positionEpoch now).value ↔
      .stampReused iTow ∈ (correlate iTow s.engine.positionEpoch now).events := by
  rw [mem_events_correlate]
  cases h : s.engine.lastPosition with
  | none => simp [State.siblingStamp, Engine.positionEpoch, h]
  | some last =>
      by_cases epoch : last.value.iTow = iTow
      · simp [State.siblingStamp, Engine.positionEpoch, correlate, h, epoch, Option.filter]
      · simp [State.siblingStamp, Engine.positionEpoch, h, epoch]

theorem reuses_velocity {engine : Engine} {now : Timestamp} {report : VelocityReport} :
    (engine.moment ⟨now, .velocity report⟩).reuses = true ↔
      .stampReused report.iTow ∈ (correlate report.iTow engine.positionEpoch now).events := by
  simp [Moment.reuses, Engine.moment, Engine.act, Engine.acceptVelocity]

theorem nearestEpoch_nil (engine : Engine) :
    nearestEpoch engine [] = engine.lastPosition.map (·.value.iTow) := by
  simp [nearestEpoch]
  rfl

/-- The engine holds the nearest position after each entry. -/
theorem nearestEpoch_cons (engine : Engine) (now : Timestamp) (entry : Entry)
    (earlier : List Entry) :
    nearestEpoch engine (entry :: earlier) =
      nearestEpoch (engine.next ⟨now, entry.action⟩) earlier := by
  obtain ⟨time, report⟩ := entry
  cases report with
  | position report =>
      simp only [nearestEpoch, List.filterMap_cons, Entry.position?, List.getLast?_cons]
      cases (earlier.filterMap Entry.position?).getLast? <;> rfl
  | velocity report => rfl
  | solution record =>
      cases hdecode : record.decode? <;>
        simp [nearestEpoch, Entry.position?, Entry.action, hdecode, Engine.next, Engine.act,
          Engine.acceptSolution]

theorem sharesEpoch_zero (engine : Engine) (now : Timestamp) (entry : Entry)
    (rest : List Entry) :
    sharesEpoch engine (entry :: rest) 0 = (engine.moment ⟨now, entry.action⟩).reuses := by
  obtain ⟨time, report⟩ := entry
  cases report with
  | position report => rfl
  | velocity report =>
      have hreuses : (engine.moment ⟨now, .velocity report⟩).reuses = true ↔
          nearestEpoch engine [] = some report.iTow := by
        rw [reuses_velocity, mem_events_correlate, nearestEpoch_nil, Engine.positionEpoch,
          Option.map_map]
        rfl
      rw [Bool.eq_iff_iff]
      exact decide_eq_true_iff.trans hreuses.symm
  | solution record =>
      cases hdecode : record.decode? <;>
        simp [sharesEpoch, Entry.action, hdecode, Engine.moment, Moment.reuses]

theorem sharesEpoch_succ (engine : Engine) (now : Timestamp) (entry : Entry)
    (rest : List Entry) (i : Nat) :
    sharesEpoch engine (entry :: rest) (i + 1) =
      sharesEpoch (engine.next ⟨now, entry.action⟩) rest i := by
  simp only [sharesEpoch, List.getElem?_cons_succ, List.take_succ_cons,
    nearestEpoch_cons engine now]

theorem countP_sharesEpoch (engine : Engine) (clock : SimulatedClock) (entries : List Entry) :
    (List.range entries.length).countP (sharesEpoch engine entries) =
      (engine.history (timeline clock entries)).countP Moment.reuses := by
  induction entries generalizing engine clock with
  | nil => rfl
  | cons entry rest ih =>
      have hlater : sharesEpoch engine (entry :: rest) ∘ Nat.succ = sharesEpoch
          (engine.next ⟨(clock.advanceTo entry.elapsed).now, entry.action⟩) rest := by
        funext i
        exact sharesEpoch_succ engine _ entry rest i
      rw [timeline_cons, Engine.history_cons, List.countP_cons, ← ih, List.length_cons,
        List.range_succ_eq_map, List.countP_cons, List.countP_map, hlater,
        sharesEpoch_zero engine (clock.advanceTo entry.elapsed).now]

section
variable (options : Options) (s : State)

theorem write_eq (row : Row) :
    s.write options row =
      { s with rows := s.rows ++ if options.tabulate then [row] else [] } := by
  cases h : options.tabulate <;> simp [State.write, h]

theorem position_value (report : PositionReport) :
    let given : Session.Step := ⟨s.clock.now, .position report⟩
    (s.position options report).value =
      { s with
        engine := s.engine.next given
        counts := s.counts.add ⟨1, 0, 0, 0⟩
        rows := s.rows ++ written options [s.engine.moment given] } := by
  simp only [State.position, Logged.value_bind, Logged.value_pure, write_eq]
  rfl

theorem velocity_value (report : VelocityReport) :
    let given : Session.Step := ⟨s.clock.now, .velocity report⟩
    let shared := if (s.engine.moment given).reuses then 1 else 0
    (s.velocity options report).value =
      { s with
        engine := s.engine.next given
        counts := s.counts.add ⟨0, 1, 0, shared⟩
        rows := s.rows ++ written options [s.engine.moment given] } := by
  have hshared : s.siblingStamp report.iTow =
      some (s.engine.acceptVelocity s.clock.now report).value.1.stamp ↔
        (s.engine.moment ⟨s.clock.now, .velocity report⟩).reuses = true :=
    siblingStamp_eq_iff.trans reuses_velocity.symm
  simp only [State.velocity, Logged.value_bind, Logged.value_pure, write_eq, hshared]
  rfl

theorem solution_value (report : SolutionReport) :
    let given : Session.Step := ⟨s.clock.now, .solution report⟩
    (s.solution options report).value =
      { s with
        engine := s.engine.next given
        counts := s.counts.add ⟨0, 0, 1, 0⟩ } := rfl

/-- A sound entry is one step of the engine, at the clock's reading at its arrival. -/
theorem step_of_sound {entry : Entry} (sound : entry.Sound) (index : Nat) :
    let clock := s.clock.advanceTo entry.elapsed
    let given : Session.Step := ⟨clock.now, entry.action⟩
    (step options index entry s).value =
      ({ engine := s.engine.next given
         clock
         counts := s.counts.add (tally [entry] [s.engine.moment given])
         rows := s.rows ++ written options [s.engine.moment given] }, none) := by
  obtain ⟨timely, known⟩ := sound
  have hvalid := entry.isValidTime_iff.mpr timely
  obtain ⟨time, report⟩ := entry
  cases report with
  | position report =>
      simp only [step, hvalid, if_true, Logged.value_bind, Logged.value_pure, position_value]
      rfl
  | velocity report =>
      have hcounts (m : Moment) : tally [⟨time, .velocity report⟩] [m] =
          ⟨0, 1, 0, if m.reuses then 1 else 0⟩ := by
        simp [tally, Report.kind, List.countP_cons]
      simp only [step, hvalid, if_true, Logged.value_bind, Logged.value_pure, velocity_value,
        hcounts]
      rfl
  | solution record =>
      obtain ⟨report, hdecode⟩ := Option.isSome_iff_exists.mp (known record rfl)
      have haction : Entry.action ⟨time, .solution record⟩ = .solution report := by
        simp [Entry.action, hdecode]
      have hwritten (now : Timestamp) :
          written options [s.engine.moment ⟨now, .solution report⟩] = [] := by
        cases h : options.tabulate <;> simp [written, h, Moment.row?, Engine.moment]
      simp only [step, hvalid, if_true, Logged.value_bind, Logged.value_pure, hdecode,
        solution_value, haction, hwritten, List.append_nil]
      rfl

end

/-- The run lemma of replays: feeding sound entries runs the engine on their timeline. -/
theorem feed_of_sound {options : Options} {entries : List Entry}
    (sound : ∀ entry ∈ entries, entry.Sound) (index : Nat) (s : State) :
    let steps := timeline s.clock entries
    (feed options index entries s).value =
      ({ engine := s.engine.after steps
         clock := ⟨s.clock.epoch, latestTime s.clock.elapsed entries⟩
         counts := s.counts.add (tally entries (s.engine.history steps))
         rows := s.rows ++ written options (s.engine.history steps) }, none) := by
  induction entries generalizing index s with
  | nil =>
      simp [feed, timeline, tally, Log.Counts.add, written, latestTime, Engine.after,
        Engine.history]
  | cons entry rest ih =>
      obtain ⟨hentry, hrest⟩ := List.forall_mem_cons.mp sound
      rw [feed_cons_of_sound hentry, ih hrest, step_of_sound options s hentry]
      simp only [timeline_cons, Engine.history_cons, Engine.after_cons]
      rw [tally_cons entry rest, written_cons options _ (Engine.history _ _),
        Log.Counts.add_assoc, List.append_assoc]
      rfl

theorem map_mark_history (engine : Engine) (steps : List Session.Step) :
    ((engine.history steps).filterMap Moment.row?).map Row.mark =
      steps.filterMap (·.action.mark?) := by
  induction steps generalizing engine with
  | nil => rfl
  | cons given rest ih =>
      have hrow : (engine.moment given).row?.map Row.mark = given.action.mark? := by
        obtain ⟨reading, action⟩ := given
        cases action <;> rfl
      rw [Engine.history_cons, List.filterMap_cons, List.filterMap_cons, ← hrow, ← ih]
      cases (engine.moment given).row? <;> rfl

theorem mark_timeline (clock : SimulatedClock) (entries : List Entry) :
    (timeline clock entries).filterMap (·.action.mark?) =
      entries.filterMap (·.action.mark?) := by
  induction entries generalizing clock with
  | nil => rfl
  | cons entry rest ih => rw [timeline_cons, List.filterMap_cons, List.filterMap_cons, ih]

/-- The state that a replay of sound entries ends in, from an engine, a clock, and the
rows written before. -/
structure Replayed (options : Options) (recording : Recording) (engine : Engine)
    (clock : SimulatedClock) (rows : List Row) (final : State) : Prop where
  positions : final.counts.positions =
    recording.entries.countP (·.report.kind = .position)
  velocities : final.counts.velocities =
    recording.entries.countP (·.report.kind = .velocity)
  solutions : final.counts.solutions =
    recording.entries.countP (·.report.kind = .solution)
  /-- Sharing by the epochs that stand in the recording. -/
  shared : final.counts.correlated =
    (List.range recording.entries.length).countP (sharesEpoch engine recording.entries)
  /-- Sharing by what the correlator did. -/
  reused : final.counts.correlated =
    (engine.history (timeline clock recording.entries)).countP Moment.reuses
  /-- The clock when an entry is handed over, after the entries before it. -/
  arrival : ∀ i entry, recording.entries[i]? = some entry →
    let earlier := { recording with entries := recording.entries.take i }
    let before := (run options earlier (.start engine clock rows)).value.1
    (before.arrive i entry.time).value.clock =
      ⟨clock.epoch, latestTime clock.elapsed (recording.entries.take (i + 1))⟩
  finalClock : final.clock = ⟨clock.epoch, latestTime clock.elapsed recording.entries⟩
  /-- The rows are the outputs of the engine in their order. -/
  finalRows : final.rows =
    rows ++ written options (engine.history (timeline clock recording.entries))
  /-- There is one row for each position and velocity, with its epoch. -/
  marks : (written options (engine.history (timeline clock recording.entries))).map Row.mark =
    if options.tabulate then recording.entries.filterMap (·.action.mark?) else []
  finalEngine : final.engine = engine.after (timeline clock recording.entries)
  ticks : final.engine.monitor = engine.monitor.map fun monitor =>
    ((engine.history (timeline clock recording.entries)).filterMap Moment.fixTick?).foldl
      RateMonitor.tick monitor

/-- A replay succeeds exactly on recordings of sound entries, and then it is the run of the
engine that the recording prescribes. -/
theorem run_replays_recording (options : Options) (recording : Recording) (engine : Engine)
    (clock : SimulatedClock) (rows : List Row) :
    let result := (run options recording (.start engine clock rows)).value
    (result.2 = none ↔ ∀ entry ∈ recording.entries, entry.Sound) ∧
    (result.2 = none → Replayed options recording engine clock rows result.1) := by
  intro result
  have hsound : result.2 = none ↔ ∀ entry ∈ recording.entries, entry.Sound := feed_error_iff
  refine ⟨hsound, fun success => ?_⟩
  have sound := hsound.mp success
  have hresult : result = _ := feed_of_sound sound 0 (.start engine clock rows)
  rw [hresult]
  constructor
  case positions | velocities | solutions | reused =>
    simp [State.start, Log.Counts.zero_add, tally]
  case shared =>
    rw [countP_sharesEpoch engine clock]
    simp [State.start, Log.Counts.zero_add, tally]
  case arrival =>
    intro i entry hentry earlier before
    have hearlier : ∀ e ∈ earlier.entries, e.Sound := fun e he =>
      sound e (List.mem_of_mem_take he)
    have hbefore : before = _ := congrArg Prod.fst (feed_of_sound hearlier 0 _)
    rw [hbefore, latestTime_take_succ clock.elapsed hentry]
    rfl
  case finalClock | finalRows | finalEngine => rfl
  case marks =>
    cases h : options.tabulate with
    | false => simp [written, h]
    | true => simp [written, h, map_mark_history, mark_timeline]
  case ticks => exact Engine.monitor_after engine _

/-- The second entry is received before the first, so the clock stays at two seconds. -/
example :
    let entries : List Entry := [
      ⟨.ofNat 2, .position ⟨5000, 0, 0, 0, 0, 1, 1⟩⟩,
      ⟨.ofNat 1, .velocity ⟨5000, 100, -200, 30, 40⟩⟩,
      ⟨.ofNat 3, .velocity ⟨6000, 100, -200, 30, 40⟩⟩]
    let start := State.start (.new "gps" none) .atUnixEpoch []
    let final := (run ⟨default, true⟩ ⟨"unsorted", entries⟩ start).value.1
    final.counts = ⟨1, 2, 0, 1⟩ ∧
      final.rows.map (·.stamp.monotonic) = [2000000000, 2000000000, 3000000000] := by
  decide +kernel

end Replay
end GnssFusion
