import GnssFusion.Proofs.Fusion.Observation

/-!
When fixes are acquired and lost. A solution report that is of another kind than the held
one, fix or no fix, is logged once, and no other report is (`events_record`). What an
engine's tracker logs is therefore told by the solution reports of its history alone
(`transitions_history`): fixes are acquired and lost in turn (`inTurn_changes`), and the last
record says whether there is a fix (`isAtLeast2D_finalType`), as the next output does.
-/

namespace GnssFusion

/-- The record of a fix that is acquired or lost: a level, and a text that names the report. -/
structure Log.Event.Announces (event : Log.Event) (level : Log.Level) (verb : String)
    (report : SolutionReport) : Prop where
  level : event.level = level
  text : event.text =
    s!"Fix {verb} at iTOW {report.iTow} ms: {report.fixType.name}, {report.numSv} SVs"

namespace Session

/-- What is kept of a call: the solution report that it brought, if any, and what it logged. -/
structure Note where
  report : Option SolutionReport
  events : List Log.Event
  deriving DecidableEq

def Moment.note (moment : Moment) : Note := ⟨moment.solution?, moment.events⟩

/-- Fix type of the last solution report, no fix before any. -/
def held (notes : List Note) : FixType :=
  ((lastSome Note.report notes).map SolutionReport.fixType).getD .noFix

/-- What the tracker has logged, in order. -/
def transitions (notes : List Note) : List Log.Event :=
  (notes.flatMap Note.events).filter (·.part = .tracker)

/-- Fixes are acquired and lost in turn, after a beginning with a fix or without one. -/
inductive InTurn : Bool → List Log.Event → Prop
  | nil {fix : Bool} : InTurn fix []
  | acquired {event : Log.Event} {report : SolutionReport} {rest : List Log.Event} :
      event.Announces .info "acquired" report → InTurn true rest → InTurn false (event :: rest)
  | lost {event : Log.Event} {report : SolutionReport} {rest : List Log.Event} :
      event.Announces .warn "lost" report → InTurn false rest → InTurn true (event :: rest)

/-- The last record of the tracker says that a fix was acquired. -/
def LastAcquired (notes : List Note) : Prop :=
  ∃ event report, (transitions notes).getLast? = some event ∧
    event.Announces .info "acquired" report

/-- The tracker logs each change between fix and no fix, once and when it comes. -/
structure LogsEachChange (notes : List Note) : Prop where
  acquired : ∀ earlier note later report, notes = earlier ++ note :: later →
    note.report = some report → (held earlier).isAtLeast2D = false →
    report.fixType.isAtLeast2D = true →
    ∃ event, note.events = [event] ∧ event.Announces .info "acquired" report
  lost : ∀ earlier note later report, notes = earlier ++ note :: later →
    note.report = some report → (held earlier).isAtLeast2D = true →
    report.fixType.isAtLeast2D = false →
    ∃ event, note.events = [event] ∧ event.Announces .warn "lost" report
  unchanged : ∀ earlier note later report, notes = earlier ++ note :: later →
    note.report = some report →
    report.fixType.isAtLeast2D = (held earlier).isAtLeast2D → note.events = []
  others : ∀ note ∈ notes, note.report = none → ∀ event ∈ note.events, event.part ≠ .tracker
  inTurn : InTurn false (transitions notes)

/-! What is logged of solution reports that follow one another. -/

/-- What is logged of a report that replaces one with a fix type. -/
def change (before : FixType) (report : SolutionReport) : List Log.Event :=
  if report.fixType.isAtLeast2D = before.isAtLeast2D then []
  else if report.fixType.isAtLeast2D then [.fixAcquired report]
  else [.fixLost report]

def changes : FixType → List SolutionReport → List Log.Event
  | _, [] => []
  | before, report :: rest => change before report ++ changes report.fixType rest

def finalType (before : FixType) (reports : List SolutionReport) : FixType :=
  (reports.getLast?.map SolutionReport.fixType).getD before

theorem announces_fixAcquired (report : SolutionReport) :
    (Log.Event.fixAcquired report).Announces .info "acquired" report := ⟨rfl, rfl⟩

theorem announces_fixLost (report : SolutionReport) :
    (Log.Event.fixLost report).Announces .warn "lost" report := ⟨rfl, rfl⟩

section
variable {before : FixType} {report : SolutionReport}

theorem change_of_unchanged (h : report.fixType.isAtLeast2D = before.isAtLeast2D) :
    change before report = [] := if_pos h

theorem change_of_acquired (hbefore : before.isAtLeast2D = false)
    (h : report.fixType.isAtLeast2D = true) : change before report = [.fixAcquired report] := by
  simp [change, hbefore, h]

theorem change_of_lost (hbefore : before.isAtLeast2D = true)
    (h : report.fixType.isAtLeast2D = false) : change before report = [.fixLost report] := by
  simp [change, hbefore, h]

end

theorem inTurn_changes (before : FixType) (reports : List SolutionReport) :
    InTurn before.isAtLeast2D (changes before reports) := by
  induction reports generalizing before with
  | nil => exact .nil
  | cons report rest ih =>
      have hrest := ih report.fixType
      rw [changes]
      cases hbefore : before.isAtLeast2D <;> cases h : report.fixType.isAtLeast2D <;>
        rw [h] at hrest
      · rw [change_of_unchanged (h.trans hbefore.symm)]
        exact hrest
      · rw [change_of_acquired hbefore h]
        exact .acquired (announces_fixAcquired report) hrest
      · rw [change_of_lost hbefore h]
        exact .lost (announces_fixLost report) hrest
      · rw [change_of_unchanged (h.trans hbefore.symm)]
        exact hrest

/-- Every record of the tracker says whether there is a fix from then on. -/
def leavesFix : Log.Event → Bool
  | .fixAcquired _ => true
  | _ => false

theorem isAtLeast2D_finalType (before : FixType) (reports : List SolutionReport) :
    (finalType before reports).isAtLeast2D =
      ((changes before reports).getLast?.map leavesFix).getD before.isAtLeast2D := by
  induction reports generalizing before with
  | nil => rfl
  | cons report rest ih =>
      have hfinal : finalType before (report :: rest) = finalType report.fixType rest := by
        simp [finalType, List.getLast?_cons, Option.getD_map]
      have hone : report.fixType.isAtLeast2D =
          ((change before report).getLast?.map leavesFix).getD before.isAtLeast2D := by
        cases hbefore : before.isAtLeast2D <;> cases h : report.fixType.isAtLeast2D <;>
          simp [change, hbefore, h, leavesFix]
      rw [hfinal, ih, changes, List.getLast?_append]
      cases (changes report.fixType rest).getLast? with
      | none => exact hone
      | some event => rfl

theorem mem_change {before : FixType} {report : SolutionReport} {event : Log.Event}
    (h : event ∈ change before report) :
    event = .fixAcquired report ∨ event = .fixLost report := by
  unfold change at h
  split at h
  · nomatch h
  · split at h
    · exact .inl (List.mem_singleton.mp h)
    · exact .inr (List.mem_singleton.mp h)

theorem mem_changes {before : FixType} {reports : List SolutionReport} {event : Log.Event}
    (h : event ∈ changes before reports) :
    ∃ report, event = .fixAcquired report ∨ event = .fixLost report := by
  induction reports generalizing before with
  | nil => nomatch h
  | cons report rest ih =>
      obtain h | h := List.mem_append.mp h
      · exact ⟨report, mem_change h⟩
      · exact ih h

/-- The tracker's records are told apart by what they announce. -/
theorem leavesFix_iff {before : FixType} {reports : List SolutionReport} {event : Log.Event}
    (h : event ∈ changes before reports) :
    leavesFix event = true ↔ ∃ report, event.Announces .info "acquired" report := by
  obtain ⟨report, rfl | rfl⟩ := mem_changes h
  · exact iff_of_true rfl ⟨report, announces_fixAcquired report⟩
  · refine iff_of_false Bool.false_ne_true ?_
    rintro ⟨other, announces⟩
    nomatch announces.level

theorem filter_change (before : FixType) (report : SolutionReport) :
    (change before report).filter (·.part = .tracker) = change before report := by
  refine List.filter_eq_self.mpr fun event h => ?_
  obtain rfl | rfl := mem_change h <;> rfl

/-! What is logged of calls. -/

theorem transitions_cons (note : Note) (rest : List Note) :
    transitions (note :: rest) = note.events.filter (·.part = .tracker) ++ transitions rest := by
  simp [transitions]

theorem lastSome_map {α β γ : Type} (f : β → Option γ) (g : α → β) (xs : List α) :
    lastSome f (xs.map g) = lastSome (fun x => f (g x)) xs := by
  rw [lastSome, List.filterMap_map]
  rfl

/-- The solution reports that some calls brought. -/
def solutionsOf (notes : List Note) : List SolutionReport := notes.filterMap Note.report

theorem held_eq_finalType (notes : List Note) :
    held notes = finalType .noFix (solutionsOf notes) := rfl

/-- If the tracker logs the changes between the reports, its last record says whether there
is a fix. -/
theorem lastAcquired_iff {notes : List Note}
    (h : transitions notes = changes .noFix (solutionsOf notes)) :
    LastAcquired notes ↔ (held notes).isAtLeast2D = true := by
  rw [held_eq_finalType, isAtLeast2D_finalType, LastAcquired, h]
  cases hlast : (changes .noFix (solutionsOf notes)).getLast? with
  | none =>
      refine iff_of_false ?_ Bool.false_ne_true
      rintro ⟨event, report, hevent, -⟩
      nomatch hevent
  | some event =>
      have hiff := leavesFix_iff (List.mem_of_getLast? hlast)
      simp [hiff]

end Session

open Session

theorem SolutionTracker.events_record (tracker : SolutionTracker) (report : SolutionReport) :
    (tracker.record report).events = change tracker.fixType report := by
  unfold change
  cases hbefore : tracker.fixType.isAtLeast2D <;> cases h : report.fixType.isAtLeast2D <;>
    simp [record, Logged.emitIf, hbefore, h]

namespace Engine

section
variable (engine : Engine) (step : Step)

theorem fixType_next :
    (engine.next step).tracker.fixType =
      finalType engine.tracker.fixType (engine.moment step).solution?.toList := by
  obtain ⟨reading, action⟩ := step
  cases action <;> rfl

/-- A solution report logs the change that it is, and the tracker logs of nothing else. -/
theorem events_moment :
    match (engine.moment step).solution? with
    | some report => (engine.moment step).events = change engine.tracker.fixType report
    | none => ∀ event ∈ (engine.moment step).events, event.part ≠ .tracker := by
  obtain ⟨reading, action⟩ := step
  cases action with
  | solution report =>
      have hevents := engine.tracker.events_record report
      simpa [Moment.solution?, moment, act, acceptSolution] using hevents
  | position report =>
      intro event hevent
      simp only [moment, act, acceptPosition, Logged.events_bind, Logged.events_pure,
        List.append_nil, List.mem_append] at hevent
      obtain hstamp | hfix := hevent
      · rw [eq_of_mem_events_correlate hstamp]
        exact Log.Part.noConfusion
      · rw [List.mem_singleton.mp hfix]
        exact Log.Part.noConfusion
  | velocity report =>
      intro event hevent
      simp only [moment, act, acceptVelocity, Logged.events_bind, Logged.events_pure,
        List.append_nil] at hevent
      rw [eq_of_mem_events_correlate hevent]
      exact Log.Part.noConfusion
  | query query => cases query <;> simp [Moment.solution?, moment, act]
  | wait => simp [Moment.solution?, moment, act]

end

/-- What the tracker of an engine logs is told by the solution reports of its history. -/
theorem transitions_history (engine : Engine) (steps : List Step) :
    transitions ((engine.history steps).map Moment.note) =
      changes engine.tracker.fixType (solutionsOf ((engine.history steps).map Moment.note)) := by
  induction steps generalizing engine with
  | nil => rfl
  | cons step rest ih =>
      have hevents := engine.events_moment step
      have hnext := engine.fixType_next step
      rw [history_cons, List.map_cons, transitions_cons, ih, hnext, solutionsOf, solutionsOf,
        List.filterMap_cons]
      cases hreport : (engine.moment step).solution? with
      | none =>
          rw [hreport] at hevents
          have hother : (engine.moment step).note.events.filter (·.part = .tracker) = [] :=
            List.filter_eq_nil_iff.mpr fun event h => by simpa using hevents event h
          rw [hother, show (engine.moment step).note.report = none from hreport]
          rfl
      | some report =>
          rw [hreport] at hevents
          have hown : (engine.moment step).note.events.filter (·.part = .tracker) =
              change engine.tracker.fixType report := by
            rw [show (engine.moment step).note.events = _ from hevents, filter_change]
          rw [hown, show (engine.moment step).note.report = some report from hreport]
          rfl

section
variable (frameId : String) (monitor : Option RateMonitor) (steps : List Step)

theorem held_history :
    held (((new frameId monitor).history steps).map Moment.note) =
      ((new frameId monitor).after steps).tracker.fixType := by
  have hlast := trackerLast_after frameId monitor steps
  rw [held, lastSome_map, SolutionTracker.fixType, hlast]
  change (Option.map _ (lastSome Moment.solution? _)).getD _ = _
  cases lastSome Moment.solution? ((new frameId monitor).history steps) <;> rfl

theorem lastAcquired_history :
    LastAcquired (((new frameId monitor).history steps).map Moment.note) ↔
      ((new frameId monitor).after steps).tracker.fixType.isAtLeast2D = true := by
  rw [← held_history]
  exact lastAcquired_iff (transitions_history (new frameId monitor) steps)

/-- What was logged of a solution report is its change from what was held before it. -/
theorem events_of_note {earlier later : List Note} {note : Note} {report : SolutionReport}
    (h : ((new frameId monitor).history steps).map Moment.note = earlier ++ note :: later)
    (hreport : note.report = some report) : note.events = change (held earlier) report := by
  obtain ⟨before, rest, hsplit, rfl, hrest⟩ := List.map_eq_append_iff.mp h
  obtain ⟨m, after, rfl, rfl, -⟩ := List.map_eq_cons_iff.mp hrest
  obtain ⟨first, step, rfl, rfl⟩ := history_eq_append_cons hsplit
  have hevents := ((new frameId monitor).after first).events_moment step
  rw [show (Engine.moment _ step).solution? = some report from hreport] at hevents
  rw [held_history]
  exact hevents

theorem logsEachChange_history :
    LogsEachChange (((new frameId monitor).history steps).map Moment.note) := by
  constructor
  case acquired =>
    intro earlier note later report h hreport hbefore hfix
    rw [events_of_note frameId monitor steps h hreport, change_of_acquired hbefore hfix]
    exact ⟨_, rfl, announces_fixAcquired report⟩
  case lost =>
    intro earlier note later report h hreport hbefore hfix
    rw [events_of_note frameId monitor steps h hreport, change_of_lost hbefore hfix]
    exact ⟨_, rfl, announces_fixLost report⟩
  case unchanged =>
    intro earlier note later report h hreport hsame
    rw [events_of_note frameId monitor steps h hreport, change_of_unchanged hsame]
  case others =>
    intro note hnote hreport
    obtain ⟨m, hm, rfl⟩ := List.mem_map.mp hnote
    obtain ⟨earlier, later, hsplit⟩ := List.append_of_mem hm
    obtain ⟨first, step, -, rfl⟩ := history_eq_append_cons hsplit
    have hevents := ((new frameId monitor).after first).events_moment step
    rw [show (Engine.moment _ step).solution? = none from hreport] at hevents
    exact hevents
  case inTurn =>
    rw [transitions_history]
    exact inTurn_changes .noFix _

theorem status_iff_lastAcquired (reading : Timestamp) (report : PositionReport) :
    ∃ fix, (((new frameId monitor).after steps).moment ⟨reading, .position report⟩).output =
        .fix fix ∧
      (fix.status = .fix ↔
        LastAcquired (((new frameId monitor).history steps).map Moment.note)) := by
  refine ⟨_, rfl, ?_⟩
  rw [lastAcquired_history]
  change fixStatus _ = .fix ↔ _
  unfold fixStatus
  split <;> simp_all

end
end Engine

/-! A tracker by itself. -/

namespace SolutionTracker

def after (tracker : SolutionTracker) (reports : List SolutionReport) : SolutionTracker :=
  reports.foldl (fun tracker report => (tracker.record report).value) tracker

def notes (tracker : SolutionTracker) : List SolutionReport → List Note
  | [] => []
  | report :: rest =>
      ⟨some report, (tracker.record report).events⟩ :: notes (tracker.record report).value rest

/-- A tracker is what it is in an engine that is given nothing but its reports. -/
theorem notes_eq_history (engine : Engine) (reading : Timestamp) (reports : List SolutionReport) :
    let steps := reports.map fun report => (⟨reading, .solution report⟩ : Step)
    engine.tracker.notes reports = (engine.history steps).map Moment.note ∧
      engine.tracker.after reports = (engine.after steps).tracker := by
  induction reports generalizing engine with
  | nil => exact ⟨rfl, rfl⟩
  | cons report rest ih =>
      obtain ⟨hnotes, hafter⟩ := ih (engine.next ⟨reading, .solution report⟩)
      refine ⟨?_, hafter⟩
      have hevents : (engine.moment ⟨reading, .solution report⟩).events =
          (engine.tracker.record report).events := by
        simp [Engine.moment, Engine.act, Engine.acceptSolution]
      rw [List.map_cons, Engine.history_cons, List.map_cons, ← hnotes, notes, Moment.note, hevents]
      rfl

/-- Each change between fix and no fix is logged once, when it comes and with its report, and
nothing else is: by a tracker alone, by the tracker of an engine between any other calls, and
by that of an engine that is shared. The last record tells the status of the next fix. -/
theorem changes_logged_once (frameId : String) (monitor : Option RateMonitor) :
    (∀ reports,
      LogsEachChange (empty.notes reports) ∧
      ((empty.after reports).fixType.isAtLeast2D = true ↔ LastAcquired (empty.notes reports))) ∧
    (∀ steps reading report,
      let engine := Engine.new frameId monitor
      let notes := (engine.history steps).map Moment.note
      LogsEachChange notes ∧
      ∃ fix, ((engine.after steps).moment ⟨reading, .position report⟩).output = .fix fix ∧
        (fix.status = .fix ↔ LastAcquired notes)) ∧
    ∀ (others : Engines) (lock : Nat) (calls : List Call) reading report,
      let engines : Engines := fun l => if l = lock then Engine.new frameId monitor else others l
      let notes := (momentsOf lock (Call.served engines calls)).map Moment.note
      LogsEachChange notes ∧
      ∃ fix, (Call.moment ⟨⟨lock⟩, reading, .position report⟩
          (calls.foldl Call.next engines)).output = .fix fix ∧
        (fix.status = .fix ↔ LastAcquired notes) := by
  refine ⟨?_, ?_, ?_⟩
  · intro reports
    obtain ⟨hnotes, hafter⟩ := notes_eq_history (.new frameId monitor) ⟨.epoch, 0⟩ reports
    rw [show empty.notes reports = _ from hnotes, show empty.after reports = _ from hafter]
    exact ⟨Engine.logsEachChange_history _ _ _, (Engine.lastAcquired_history _ _ _).symm⟩
  · intro steps reading report engine notes
    exact ⟨Engine.logsEachChange_history _ _ _,
      Engine.status_iff_lastAcquired frameId monitor steps reading report⟩
  · intro others lock calls reading report engines notes
    have hnew : engines lock = .new frameId monitor := if_pos rfl
    have hnotes : notes =
        ((Engine.new frameId monitor).history (stepsOf lock calls)).map Moment.note := by
      rw [← hnew]
      exact congrArg _ (momentsOf_served engines calls lock)
    rw [hnotes, Call.moment_eq, afterCalls_eq, hnew]
    exact ⟨Engine.logsEachChange_history _ _ _,
      Engine.status_iff_lastAcquired frameId monitor _ reading report⟩

end SolutionTracker
end GnssFusion
