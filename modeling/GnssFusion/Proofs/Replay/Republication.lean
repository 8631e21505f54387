import GnssFusion.Proofs.Replay.Timeline

/-!
Republishing and recording beside the fusion. The log of an entry is a warning if its time
lies in the past, its report if that is republished, and what the engine logs
(`events_step_of_sound`); only the second of these depends on the options. So two replays
that differ in their options alone go through the same engines, clocks and counts, and their
logs differ in the republished reports alone (`feed_alike`).
-/

namespace GnssFusion

open Settings (PublishToggles)

/-- What a republished report begins with in the log. -/
def receptionMarks : List String := ["NAV-POSLLH: ", "NAV-VELNED: ", "NAV-SOL: "]

namespace Log.Event

/-- The record of a republished report, which is told by its text. -/
def isReception (event : Event) : Bool :=
  receptionMarks.any fun mark => mark.toList.isPrefixOf event.text.toList

theorem isReception_eq (event : Event) :
    event.isReception = match event with
      | .positionReceived _ | .velocityReceived _ | .solutionReceived _ => true
      | _ => false := by
  cases event with
  | positionReceived report | velocityReceived report | solutionReceived report =>
      unfold isReception text
      simp [receptionMarks, List.isPrefixOf]
  | fixAcquired report | fixLost report =>
      unfold isReception text transition
      simp [receptionMarks, List.isPrefixOf, toString]
  | _ =>
      unfold isReception text
      simp [receptionMarks, List.isPrefixOf, toString]

end Log.Event

/-- The record of an entry whose report is republished. -/
def Entry.reception? (publish : PublishToggles) (entry : Entry) : Option Log.Event :=
  match entry.report with
  | .position report => if publish.navPosllh then some (.positionReceived report) else none
  | .velocity report => if publish.navVelned then some (.velocityReceived report) else none
  | .solution record =>
      record.decode?.bind fun report =>
        if publish.navSol then some (.solutionReceived report) else none

theorem isReception_of_reception? {publish : PublishToggles} {entry : Entry} {event : Log.Event}
    (h : entry.reception? publish = some event) : event.isReception = true := by
  rw [Log.Event.isReception_eq]
  obtain ⟨time, report⟩ := entry
  cases report with
  | position report | velocity report =>
      obtain ⟨-, hevent⟩ := Option.ite_none_right_eq_some.mp h
      cases hevent
      rfl
  | solution record =>
      obtain ⟨report, -, hsome⟩ := Option.bind_eq_some_iff.mp h
      obtain ⟨-, hevent⟩ := Option.ite_none_right_eq_some.mp hsome
      cases hevent
      rfl

theorem mem_events_emitIf {condition : Bool} {event other : Log.Event} :
    event ∈ (Logged.emitIf condition other).events ↔ condition = true ∧ event = other := by
  cases condition <;> simp [Logged.emitIf]

/-- An engine has its own parts to log for. -/
theorem part_of_mem_moment {engine : Engine} {given : Session.Step} {event : Log.Event}
    (h : event ∈ (engine.moment given).events) : event.part ≠ .replay := by
  have hcorrelate {iTow : UInt32} {sibling : Option (UInt32 × Timestamp)} {now : Timestamp}
      (h : event ∈ (correlate iTow sibling now).events) : event.part ≠ .replay := by
    rw [Session.eq_of_mem_events_correlate h]
    exact Log.Part.noConfusion
  obtain ⟨reading, action⟩ := given
  cases action with
  | position report =>
      simp only [Engine.moment, Engine.act, Engine.acceptPosition, Logged.events_bind,
        Logged.events_pure, List.append_nil, List.mem_append] at h
      obtain hstamp | hfix := h
      · exact hcorrelate hstamp
      · rw [List.mem_singleton.mp hfix]
        exact Log.Part.noConfusion
  | velocity report =>
      simp only [Engine.moment, Engine.act, Engine.acceptVelocity, Logged.events_bind,
        Logged.events_pure, List.append_nil] at h
      exact hcorrelate h
  | solution report =>
      simp only [Engine.moment, Engine.act, Engine.acceptSolution, SolutionTracker.record,
        Logged.events_bind, Logged.events_pure, List.append_nil, List.mem_append,
        mem_events_emitIf] at h
      obtain ⟨-, rfl⟩ | ⟨-, rfl⟩ := h <;> exact Log.Part.noConfusion
  | query query => cases h
  | wait => cases h

theorem isReception_moment {engine : Engine} {given : Session.Step} {event : Log.Event}
    (h : event ∈ (engine.moment given).events) : event.isReception = false := by
  have hpart := part_of_mem_moment h
  rw [Log.Event.isReception_eq]
  cases event <;> first | rfl | exact absurd rfl hpart

namespace Replay

section
variable {options : Options} {index : Nat} {s : State}

theorem events_arrive (time : Binary64) :
    (s.arrive index time).events =
      (Logged.emitIf (Duration.ofSeconds time < s.clock.elapsed) (.wentBack index time)).events :=
  List.append_nil _

theorem isReception_arrive {time : Binary64} {event : Log.Event}
    (h : event ∈ (s.arrive index time).events) : event.isReception = false := by
  rw [events_arrive, mem_events_emitIf] at h
  rw [Log.Event.isReception_eq, h.2]

/-- The log of a sound entry: the warning, the republished report, and the engine's part. -/
theorem events_step_of_sound {entry : Entry} (sound : entry.Sound) :
    (step options index entry s).events =
      (s.arrive index entry.time).events ++ ((entry.reception? options.publish).toList ++
        (s.engine.moment ⟨(s.clock.advanceTo entry.elapsed).now, entry.action⟩).events) := by
  obtain ⟨timely, known⟩ := sound
  have hvalid := entry.isValidTime_iff.mpr timely
  obtain ⟨time, report⟩ := entry
  cases report with
  | position report =>
      cases h : options.publish.navPosllh <;>
        simp [step, hvalid, State.position, Entry.reception?, h, Logged.emitIf, Engine.moment,
          Engine.act, Entry.action] <;> rfl
  | velocity report =>
      cases h : options.publish.navVelned <;>
        simp [step, hvalid, State.velocity, Entry.reception?, h, Logged.emitIf, Engine.moment,
          Engine.act, Entry.action] <;> rfl
  | solution record =>
      obtain ⟨report, hdecode⟩ := Option.isSome_iff_exists.mp (known record rfl)
      cases h : options.publish.navSol <;>
        simp [step, hvalid, State.solution, Entry.reception?, h, Logged.emitIf, Engine.moment,
          Engine.act, Entry.action, hdecode] <;> rfl

theorem events_step_of_not_timely {entry : Entry} (h : ¬ entry.Timely) :
    (step options index entry s).events = [] := by
  rw [← entry.isValidTime_iff] at h
  simp [step, h]

theorem events_step_of_unknown {entry : Entry} (timely : entry.Timely) {record : SolutionRecord}
    (hreport : entry.report = .solution record) (hdecode : record.decode? = none) :
    (step options index entry s).events = (s.arrive index entry.time).events := by
  have hvalid := entry.isValidTime_iff.mpr timely
  simp [step, hvalid, hreport, hdecode]

theorem events_feed_cons_of_sound {entry : Entry} (sound : entry.Sound) (rest : List Entry) :
    (feed options index (entry :: rest) s).events =
      (step options index entry s).events ++
        (feed options (index + 1) rest (step options index entry s).value.1).events := by
  have h : (step options index entry s).value.2 = none := step_error_of_sound sound
  simp only [feed, Logged.events_bind]
  rw [h]

theorem events_feed_cons_of_not_sound {entry : Entry} (unsound : ¬ entry.Sound)
    (rest : List Entry) :
    (feed options index (entry :: rest) s).events = (step options index entry s).events := by
  have hsome : (step options index entry s).value.2 ≠ none :=
    fun hnone => unsound (step_error_iff.mp hnone)
  obtain ⟨error, h⟩ := Option.ne_none_iff_exists'.mp hsome
  simp only [feed, Logged.events_bind]
  rw [h]
  exact List.append_nil _

end

/-! Two replays of the same entries. -/

/-- States that differ in their rows at most, and only if rows are not written alike. -/
structure Alike (one other : Options) (s t : State) : Prop where
  engine : s.engine = t.engine
  clock : s.clock = t.clock
  counts : s.counts = t.counts
  rows : one.tabulate = other.tabulate → s.rows = t.rows

/-- A log without the republished reports. -/
def ownEvents (events : List Log.Event) : List Log.Event := events.filter (!·.isReception)

theorem ownEvents_append (earlier later : List Log.Event) :
    ownEvents (earlier ++ later) = ownEvents earlier ++ ownEvents later :=
  List.filter_append _ _

section
variable {one other : Options} {s t : State}

theorem step_alike (h : Alike one other s t) (index : Nat) (entry : Entry) :
    (step one index entry s).value.2 = (step other index entry t).value.2 ∧
      Alike one other (step one index entry s).value.1 (step other index entry t).value.1 ∧
      ownEvents (step one index entry s).events = ownEvents (step other index entry t).events := by
  obtain ⟨engine, clock, counts, rows⟩ := s
  obtain ⟨_, _, _, rows'⟩ := t
  obtain ⟨rfl, rfl, rfl, hrows⟩ := h
  obtain sound | ⟨timely, record, hreport, hdecode⟩ | late := entry.sound_or_stops
  · rw [step_of_sound one _ sound, step_of_sound other _ sound, events_step_of_sound sound,
      events_step_of_sound sound, events_arrive, events_arrive]
    refine ⟨rfl, ⟨rfl, rfl, rfl, ?_⟩, ?_⟩
    · intro alike
      have hrows : rows = rows' := hrows alike
      simp only [hrows, written, alike]
    · have hreceived (o : Options) : ownEvents (entry.reception? o.publish).toList = [] := by
        refine List.filter_eq_nil_iff.mpr ?_
        intro event hevent
        rw [isReception_of_reception? (Option.mem_toList.mp hevent)]
        exact Bool.false_ne_true
      simp only [ownEvents_append, hreceived]
  · rw [step_of_unknown timely hreport hdecode, step_of_unknown timely hreport hdecode,
      events_step_of_unknown timely hreport hdecode, events_step_of_unknown timely hreport hdecode]
    exact ⟨rfl, ⟨rfl, rfl, rfl, hrows⟩, rfl⟩
  · rw [step_of_not_timely late, step_of_not_timely late, events_step_of_not_timely late,
      events_step_of_not_timely late]
    exact ⟨rfl, ⟨rfl, rfl, rfl, hrows⟩, rfl⟩

theorem feed_alike (h : Alike one other s t) (index : Nat) (entries : List Entry) :
    (feed one index entries s).value.2 = (feed other index entries t).value.2 ∧
      Alike one other (feed one index entries s).value.1 (feed other index entries t).value.1 ∧
      ownEvents (feed one index entries s).events =
        ownEvents (feed other index entries t).events := by
  induction entries generalizing index s t with
  | nil => exact ⟨rfl, h, rfl⟩
  | cons entry rest ih =>
      obtain ⟨herror, hstate, hevents⟩ := step_alike h index entry
      -- Whether an entry stops a replay is a property of the entry, hence the same in both.
      by_cases sound : entry.Sound
      · obtain ⟨hresult, hfinal, hlater⟩ := ih hstate (index + 1)
        rw [feed_cons_of_sound sound, feed_cons_of_sound sound, events_feed_cons_of_sound sound,
          events_feed_cons_of_sound sound, ownEvents_append, ownEvents_append, hevents, hlater]
        exact ⟨hresult, hfinal, rfl⟩
      · rw [feed_cons_of_not_sound sound, feed_cons_of_not_sound sound,
          events_feed_cons_of_not_sound sound, events_feed_cons_of_not_sound sound]
        exact ⟨herror, hstate, hevents⟩

end

/-! The republished reports. -/

/-- The entry at which a replay has stopped. -/
def Error.index : Error → Nat
  | .unknownFixType index _ | .invalidTime index _ => index

/-- The entries that a replay has got through: all of them, or those before the one at which
it has stopped, where the first one has the index `start`. -/
def passed (start : Nat) (entries : List Entry) : Option Error → List Entry
  | none => entries
  | some error => entries.take (error.index - start)

section
variable {options : Options} {index : Nat} {s : State} {error : Error}

theorem index_of_step {entry : Entry} (h : (step options index entry s).value.2 = some error) :
    error.index = index := by
  obtain sound | ⟨timely, record, hreport, hdecode⟩ | late := entry.sound_or_stops
  · rw [step_error_of_sound sound] at h
    cases h
  · rw [step_of_unknown timely hreport hdecode] at h
    cases h
    rfl
  · rw [step_of_not_timely late] at h
    cases h
    rfl

theorem le_index_of_feed {entries : List Entry}
    (h : (feed options index entries s).value.2 = some error) : index ≤ error.index := by
  induction entries generalizing index s with
  | nil => nomatch h
  | cons entry rest ih =>
      by_cases sound : entry.Sound
      · rw [feed_cons_of_sound sound] at h
        exact Nat.le_of_succ_le (ih h)
      · rw [feed_cons_of_not_sound sound] at h
        exact Nat.le_of_eq (index_of_step h).symm

theorem passed_cons_of_sound {entry : Entry} (sound : entry.Sound) (rest : List Entry) :
    let next := (step options index entry s).value.1
    passed index (entry :: rest) (feed options index (entry :: rest) s).value.2 =
      entry :: passed (index + 1) rest (feed options (index + 1) rest next).value.2 := by
  intro next
  rw [feed_cons_of_sound sound]
  cases h : (feed options (index + 1) rest next).value.2 with
  | none => rfl
  | some error =>
      have hindex := le_index_of_feed h
      have htake : error.index - index = error.index - (index + 1) + 1 := by omega
      rw [passed, htake, List.take_succ_cons]
      rfl

theorem passed_cons_of_not_sound {entry : Entry} (unsound : ¬ entry.Sound) (rest : List Entry) :
    passed index (entry :: rest) (feed options index (entry :: rest) s).value.2 = [] := by
  rw [feed_cons_of_not_sound unsound]
  cases h : (step options index entry s).value.2 with
  | none => exact absurd (step_error_iff.mp h) unsound
  | some error => rw [passed, index_of_step h, Nat.sub_self, List.take_zero]

theorem filter_events_eq_nil {events : List Log.Event} {p : Log.Event → Bool}
    (h : ∀ event ∈ events, p event = false) : events.filter p = [] :=
  List.filter_eq_nil_iff.mpr fun event hevent => Bool.eq_false_iff.mp (h event hevent)

theorem receptions_step_of_sound {entry : Entry} (sound : entry.Sound) :
    (step options index entry s).events.filter (·.isReception) =
      (entry.reception? options.publish).toList := by
  have harrive : (s.arrive index entry.time).events.filter (·.isReception) = [] :=
    filter_events_eq_nil fun _ h => isReception_arrive h
  have hengine (given : Session.Step) :
      (s.engine.moment given).events.filter (·.isReception) = [] :=
    filter_events_eq_nil fun _ h => isReception_moment h
  have hreceived : (entry.reception? options.publish).toList.filter (·.isReception) =
      (entry.reception? options.publish).toList :=
    List.filter_eq_self.mpr fun event h =>
      isReception_of_reception? (Option.mem_toList.mp h)
  rw [events_step_of_sound sound, List.filter_append, List.filter_append, harrive, hengine,
    hreceived, List.nil_append, List.append_nil]

theorem receptions_step_of_not_sound {entry : Entry} (unsound : ¬ entry.Sound) :
    (step options index entry s).events.filter (·.isReception) = [] := by
  obtain sound | ⟨timely, record, hreport, hdecode⟩ | late := entry.sound_or_stops
  · exact absurd sound unsound
  · rw [events_step_of_unknown timely hreport hdecode]
    exact filter_events_eq_nil fun _ h => isReception_arrive h
  · rw [events_step_of_not_timely late]
    rfl

/-- There is one record for each entry that was got through and whose report is republished,
in their order. -/
theorem receptions_feed (entries : List Entry) :
    (feed options index entries s).events.filter (·.isReception) =
      (passed index entries (feed options index entries s).value.2).filterMap
        (Entry.reception? options.publish) := by
  induction entries generalizing index s with
  | nil => rfl
  | cons entry rest ih =>
      by_cases sound : entry.Sound
      · rw [passed_cons_of_sound sound, events_feed_cons_of_sound sound, List.filter_append, ih,
          receptions_step_of_sound sound, List.filterMap_cons]
        cases entry.reception? options.publish <;> rfl
      · rw [passed_cons_of_not_sound sound, events_feed_cons_of_not_sound sound,
          receptions_step_of_not_sound sound, List.filterMap_nil]

end

/-- Toggles that a replay does not read. -/
def Options.withUnread (options : Options) (navSvinfo monHw : Bool) : Options :=
  { options with publish := { options.publish with navSvinfo, monHw } }

theorem feed_withUnread (options : Options) (navSvinfo monHw : Bool) (index : Nat)
    (entries : List Entry) (s : State) :
    feed (options.withUnread navSvinfo monHw) index entries s =
      feed options index entries s := by
  induction entries generalizing index s with
  | nil => rfl
  | cons entry rest ih =>
      simp only [feed, ih]
      rfl

/-- Two replays of one recording from one start, whatever they republish and whether or not
they write a table, have the same result and end in the same engine, clock and counts; tables
are written alike, and the logs agree without the republished reports. These are one for each
entry that was got through and whose kind is republished. Two of the toggles do nothing. -/
theorem run_regardless_of_options (one other : Options) (recording : Recording)
    (engine : Engine) (clock : SimulatedClock) (rows : List Row) :
    let start := State.start engine clock rows
    let first := run one recording start
    let second := run other recording start
    first.value.2 = second.value.2 ∧
    Alike one other first.value.1 second.value.1 ∧
    (one.tabulate = other.tabulate →
      tableText first.value.1.rows = tableText second.value.1.rows) ∧
    ownEvents first.events = ownEvents second.events ∧
    first.events.filter (·.isReception) =
      (passed 0 recording.entries first.value.2).filterMap (Entry.reception? one.publish) ∧
    ∀ navSvinfo monHw, run (one.withUnread navSvinfo monHw) recording start = first := by
  intro start first second
  have hstart : Alike one other start start := ⟨rfl, rfl, rfl, fun _ => rfl⟩
  obtain ⟨herror, hfinal, hevents⟩ := feed_alike hstart 0 recording.entries
  have hrun (options : Options) : (run options recording start).events =
      [.replayStarted recording.name recording.entries.length] ++
        (feed options 0 recording.entries start).events := rfl
  have hstarted : (Log.Event.replayStarted recording.name recording.entries.length).isReception
      = false := Log.Event.isReception_eq _
  refine ⟨herror, hfinal, fun alike => congrArg tableText (hfinal.rows alike), ?_, ?_, ?_⟩
  · rw [hrun one, hrun other, ownEvents_append, ownEvents_append, hevents]
  · rw [hrun one, List.singleton_append, List.filter_cons_of_neg (by simp [hstarted]),
      receptions_feed]
    rfl
  · intro navSvinfo monHw
    simp only [first, run, feed_withUnread]

end Replay
end GnssFusion
