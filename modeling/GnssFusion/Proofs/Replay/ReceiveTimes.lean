import GnssFusion.Proofs.Duration.Conversion
import GnssFusion.Proofs.Replay.Republication

/-!
The clock of a replay. An entry is processed at the latest of the clock's start and the
receive times so far (`arrivals_eq_clocks`), and what a replay warns of are the entries that
lie before this (`holds_of_feed`). Both follow from one step, which compares with the clock and
then moves it. So entries in the order of their receive times are processed at these times, as
the conversion of seconds keeps their order, and an entry that does not move the clock leaves
the others where they are (`clocks_insertIdx`). The clock of an entry is the one that the
engine is given with its report (`handed_clocks`), and that its stamp is read off unless the
sibling stream has one for it (`stamp_of_fresh`).
-/

namespace GnssFusion

namespace Log.Event

/-- The warnings of a replay, not of what it runs: its clock is held. -/
def isHold (event : Event) : Bool := event.level = .warn ∧ event.part = .replay

theorem isHold_of_part {event : Event} (h : event.part ≠ .replay) : event.isHold = false :=
  decide_eq_false fun hhold => h hhold.2

theorem isHold_of_isReception {event : Event} (h : event.isReception = true) :
    event.isHold = false := by
  rw [isReception_eq] at h
  cases event <;> first | rfl | cases h

end Log.Event

namespace Replay

/-! What is expected of the clock and of the warnings. -/

/-- The clocks at entries: each is moved to the latest receive time so far. -/
def clocks (clock : SimulatedClock) (entries : List Entry) : List SimulatedClock :=
  entries.mapIdx fun i _ => ⟨clock.epoch, latestTime clock.elapsed (entries.take (i + 1))⟩

/-- The warnings of entries that lie before a time or before an earlier one of them, where the
first one has the given index. -/
def holds (start : Duration) (first : ℕ) (entries : List Entry) : List Log.Event :=
  (entries.mapIdx fun i entry =>
    if entry.elapsed < latestTime start (entries.take i) then
      some (.wentBack (first + i) entry.time)
    else none).filterMap id

/-- Receive times that never decrease, the first of them not before a clock. -/
structure InOrder (start : Duration) (entries : List Entry) : Prop where
  ordered : entries.IsChain fun earlier later => earlier.time.le later.time
  fromStart : ∀ first ∈ entries.head?, start ≤ first.elapsed

section
variable {clock : SimulatedClock} {start : Duration} {first : ℕ}

theorem clocks_cons (clock : SimulatedClock) (entry : Entry) (rest : List Entry) :
    clocks clock (entry :: rest) =
      clock.advanceTo entry.elapsed :: clocks (clock.advanceTo entry.elapsed) rest := by
  simp only [clocks, List.mapIdx_cons]
  rfl

theorem holds_cons (start : Duration) (first : ℕ) (entry : Entry) (rest : List Entry) :
    holds start first (entry :: rest) =
      (if entry.elapsed < start then [.wentBack first entry.time] else []) ++
        holds (max start entry.elapsed) (first + 1) rest := by
  have hlater (i : ℕ) (later : Entry) :
      (if later.elapsed < latestTime start ((entry :: rest).take (i + 1)) then
        some (Log.Event.wentBack (first + (i + 1)) later.time) else none) =
      if later.elapsed < latestTime (max start entry.elapsed) (rest.take i) then
        some (.wentBack (first + 1 + i) later.time) else none := by
    have hindex : first + (i + 1) = first + 1 + i := by omega
    rw [hindex]
    rfl
  simp only [holds, List.mapIdx_cons, hlater]
  by_cases h : entry.elapsed < start <;> simp [latestTime, h]

theorem mem_holds {entries : List Entry} {event : Log.Event} :
    event ∈ holds start first entries ↔ ∃ i entry, entries[i]? = some entry ∧
      entry.elapsed < latestTime start (entries.take i) ∧
      event = .wentBack (first + i) entry.time := by
  simp only [holds, List.mem_filterMap, List.mem_mapIdx, id]
  constructor
  · rintro ⟨-, ⟨i, hi, rfl⟩, h⟩
    obtain ⟨hback, hevent⟩ := Option.ite_none_right_eq_some.mp h
    exact ⟨i, entries[i], List.getElem?_eq_getElem hi, hback, (Option.some.inj hevent).symm⟩
  · rintro ⟨i, entry, hentry, hback, rfl⟩
    obtain ⟨hi, rfl⟩ := List.getElem?_eq_some_iff.mp hentry
    exact ⟨_, ⟨i, hi, rfl⟩, if_pos hback⟩

/-- Time goes on from entry to entry, and the epoch stays. -/
theorem isChain_clocks (clock : SimulatedClock) (entries : List Entry) :
    (clock :: clocks clock entries).IsChain fun earlier later =>
      earlier.epoch = later.epoch ∧ earlier.elapsed ≤ later.elapsed := by
  induction entries generalizing clock with
  | nil => exact .singleton clock
  | cons entry rest ih =>
      rw [clocks_cons]
      exact .cons_cons ⟨rfl, le_max_left _ _⟩ (ih _)

theorem InOrder.tail {entry : Entry} {rest : List Entry} (h : InOrder start (entry :: rest)) :
    InOrder entry.elapsed rest := by
  refine ⟨h.ordered.tail, ?_⟩
  intro next hnext
  exact Duration.ofSeconds_mono (h.ordered.rel_head? hnext)

theorem inOrder_undisturbed {entries : List Entry} (h : InOrder clock.elapsed entries)
    (first : ℕ) :
    holds clock.elapsed first entries = [] ∧
      clocks clock entries = entries.map fun entry => ⟨clock.epoch, entry.elapsed⟩ := by
  induction entries generalizing clock first with
  | nil => exact ⟨rfl, rfl⟩
  | cons entry rest ih =>
      have hnext : clock.elapsed ≤ entry.elapsed := h.fromStart entry rfl
      have hmoved : clock.advanceTo entry.elapsed = ⟨clock.epoch, entry.elapsed⟩ := by
        rw [SimulatedClock.advanceTo, max_eq_right hnext]
      have hrest : InOrder (SimulatedClock.mk clock.epoch entry.elapsed).elapsed rest := h.tail
      obtain ⟨hholds, hclocks⟩ := ih hrest (first + 1)
      rw [holds_cons, if_neg hnext.not_gt, max_eq_right hnext, hholds, clocks_cons, hmoved,
        hclocks, List.map_cons]
      exact ⟨rfl, rfl⟩

/-- An entry that the clock is past at its place does not move it. -/
theorem clocks_insertIdx {entries : List Entry} {entry : Entry} {i : ℕ}
    (h : entry.elapsed ≤ latestTime clock.elapsed (entries.take i)) :
    (clocks clock (entries.insertIdx i entry)).eraseIdx i = clocks clock entries := by
  induction i generalizing clock entries with
  | zero =>
      have hheld : clock.advanceTo entry.elapsed = clock := by
        have hpast : entry.elapsed ≤ clock.elapsed := h
        rw [SimulatedClock.advanceTo, max_eq_left hpast]
      rw [List.insertIdx_zero, clocks_cons, List.eraseIdx_cons_zero, hheld]
  | succ i ih =>
      cases entries with
      | nil => rfl
      | cons first rest =>
          rw [List.insertIdx_succ_cons, clocks_cons, clocks_cons, List.eraseIdx_cons_succ, ih h]

end

/-! Stamps that are readings of the clock. -/

theorem correlate_value_of_ne {iTow : UInt32} {sibling : Option (UInt32 × Timestamp)}
    {now : Timestamp} (h : sibling.map Prod.fst ≠ some iTow) :
    (correlate iTow sibling now).value = now := by
  cases sibling with
  | none => rfl
  | some last =>
      have hother : last.1 ≠ iTow := by simpa using h
      simp [correlate, hother]

theorem events_correlate_subset {engine : Engine} {given : Session.Step}
    {stream : Session.Stream} {iTow : UInt32}
    (hmark : given.action.mark? = some (stream, iTow)) :
    (correlate iTow (engine.lastEpoch stream.sibling) given.reading).events ⊆
      (engine.moment given).events := by
  obtain ⟨reading, action⟩ := given
  cases action with
  | position report | velocity report =>
      cases hmark
      intro event hevent
      exact List.mem_append_left _ (List.mem_append_left _ hevent)
  | solution report | query query | wait => cases hmark

/-- A stamp that is not taken over from the sibling stream is read off the clock. -/
theorem stamp_of_fresh {engine : Engine} {given : Session.Step} {mark : Session.Stamping}
    (hmark : (engine.moment given).stamping? = some mark)
    (fresh : .stampReused mark.iTow ∉ (engine.moment given).events) :
    mark.stamp = given.reading := by
  rw [Engine.stamping?_moment] at hmark
  obtain ⟨⟨stream, iTow⟩, haction, rfl⟩ := Option.map_eq_some_iff.mp hmark
  refine correlate_value_of_ne fun hepoch => ?_
  exact fresh (events_correlate_subset haction (mem_events_correlate.mpr hepoch))

theorem stamp_of_fresh_history {engine : Engine} {steps : List Session.Step} {i : ℕ}
    {m : Session.Moment} {mark : Session.Stamping} (hm : (engine.history steps)[i]? = some m)
    (hmark : m.stamping? = some mark) (fresh : .stampReused mark.iTow ∉ m.events) :
    ∃ given, steps[i]? = some given ∧ mark.stamp = given.reading := by
  induction steps generalizing engine i with
  | nil => nomatch hm
  | cons given rest ih =>
      rw [Engine.history_cons] at hm
      cases i with
      | zero =>
          obtain rfl : engine.moment given = m := Option.some.inj hm
          exact ⟨given, rfl, stamp_of_fresh hmark fresh⟩
      | succ i => exact ih hm

/-! What a replay does. -/

/-- The clocks at which the entries of a recording are processed: a replay of the entries
before it leads to the state in which an entry arrives. -/
def arrivals (options : Options) (recording : Recording) (s : State) : List SimulatedClock :=
  recording.entries.mapIdx fun i entry =>
    let earlier := { recording with entries := recording.entries.take i }
    let before := (run options earlier s).value.1
    (before.arrive i entry.time).value.clock

/-- What an engine is given: the report of each entry, at the reading of the entry's clock. -/
def handed (clocks : List SimulatedClock) (entries : List Entry) : List Session.Step :=
  List.zipWith (fun clock entry => ⟨clock.now, entry.action⟩) clocks entries

theorem handed_clocks (clock : SimulatedClock) (entries : List Entry) :
    handed (clocks clock entries) entries = timeline clock entries := by
  induction entries generalizing clock with
  | nil => rfl
  | cons entry rest ih =>
      rw [clocks_cons, timeline_cons, ← ih]
      rfl

section
variable {options : Options} {recording : Recording} {s : State}

theorem clock_run_take (sound : ∀ entry ∈ recording.entries, entry.Sound) (i : ℕ) :
    (run options { recording with entries := recording.entries.take i } s).value.1.clock =
      ⟨s.clock.epoch, latestTime s.clock.elapsed (recording.entries.take i)⟩ := by
  have hearlier : ∀ e ∈ recording.entries.take i, e.Sound := fun e he =>
    sound e (List.mem_of_mem_take he)
  have hrun : (feed options 0 (recording.entries.take i) s).value = _ :=
    feed_of_sound hearlier 0 s
  exact congrArg (fun result => result.1.clock) hrun

theorem arrivals_eq_clocks (sound : ∀ entry ∈ recording.entries, entry.Sound) :
    arrivals options recording s = clocks s.clock recording.entries := by
  refine List.ext_getElem? ?_
  intro i
  rw [arrivals, clocks, List.getElem?_mapIdx, List.getElem?_mapIdx]
  cases hentry : recording.entries[i]? with
  | none => rfl
  | some entry =>
      have hbefore : (run options _ s).value.1.clock = _ := clock_run_take sound i
      have harrive (t : State) :
          (t.arrive i entry.time).value.clock = t.clock.advanceTo entry.elapsed := rfl
      rw [Option.map_some, Option.map_some, harrive, hbefore,
        latestTime_take_succ s.clock.elapsed hentry]
      rfl

/-- The comparison of an entry is with the clock that it then moves. -/
theorem holds_of_step {entry : Entry} (sound : entry.Sound) (index : ℕ) :
    (step options index entry s).events.filter (·.isHold) =
      if entry.elapsed < s.clock.elapsed then [.wentBack index entry.time] else [] := by
  have hreception : (entry.reception? options.publish).toList.filter (·.isHold) = [] :=
    filter_events_eq_nil fun event h => Log.Event.isHold_of_isReception
      (isReception_of_reception? (Option.mem_toList.mp h))
  have hengine (given : Session.Step) :
      (s.engine.moment given).events.filter (·.isHold) = [] :=
    filter_events_eq_nil fun event h => Log.Event.isHold_of_part (part_of_mem_moment h)
  rw [events_step_of_sound sound, List.filter_append, List.filter_append, hreception, hengine,
    List.append_nil, List.append_nil, events_arrive]
  by_cases h : entry.elapsed < s.clock.elapsed
  · rw [if_pos h, ← Entry.elapsed, decide_eq_true h]
    rfl
  · rw [if_neg h, ← Entry.elapsed, decide_eq_false h]
    rfl

theorem holds_of_feed {entries : List Entry} (sound : ∀ entry ∈ entries, entry.Sound)
    (index : ℕ) :
    (feed options index entries s).events.filter (·.isHold) =
      holds s.clock.elapsed index entries := by
  induction entries generalizing index s with
  | nil => rfl
  | cons entry rest ih =>
      obtain ⟨hentry, hrest⟩ := List.forall_mem_cons.mp sound
      have hclock : (step options index entry s).value.1.clock.elapsed =
          max s.clock.elapsed entry.elapsed := by
        rw [step_of_sound options s hentry]
        rfl
      rw [events_feed_cons_of_sound hentry, List.filter_append, holds_of_step hentry, ih hrest,
        hclock, holds_cons]

end

/-- How a replay that runs to its end keeps time. -/
structure KeepsTime (options : Options) (recording : Recording) (s : State) : Prop where
  /-- There are no warnings but those of the entries that lie in the past. -/
  warnings : (run options recording s).events.filter (·.isHold) =
    holds s.clock.elapsed 0 recording.entries
  warned_iff : ∀ i entry, recording.entries[i]? = some entry →
    (.wentBack i entry.time ∈ (run options recording s).events ↔
      entry.elapsed < latestTime s.clock.elapsed (recording.entries.take i))
  neverBack : (s.clock :: arrivals options recording s).IsChain fun earlier later =>
    earlier.epoch = later.epoch ∧ earlier.elapsed ≤ later.elapsed
  /-- The engine goes through the reports at these clocks, and its outputs are written. -/
  processed :
    let steps := handed (arrivals options recording s) recording.entries
    let final := (run options recording s).value.1
    final.engine = s.engine.after steps ∧
      final.rows = s.rows ++ written options (s.engine.history steps)
  /-- A stamp is such a clock's reading unless it is taken over from the sibling stream. -/
  stamped : ∀ (i : ℕ) (m : Session.Moment) (mark : Session.Stamping),
    let steps := handed (arrivals options recording s) recording.entries
    (s.engine.history steps)[i]? = some m → m.stamping? = some mark →
    .stampReused mark.iTow ∉ m.events →
    (arrivals options recording s)[i]?.map SimulatedClock.now = some mark.stamp
  inOrder : InOrder s.clock.elapsed recording.entries →
    (run options recording s).events.filter (·.isHold) = [] ∧
    arrivals options recording s =
      recording.entries.map fun entry => ⟨s.clock.epoch, entry.elapsed⟩
  /-- One more entry, that does not lie after the clock at its place. -/
  insertion : ∀ i entry,
    let before := run options { recording with entries := recording.entries.take i } s
    let longer := { recording with entries := recording.entries.insertIdx i entry }
    entry.elapsed ≤ before.value.1.clock.elapsed → (run options longer s).value.2 = none →
    (arrivals options longer s).eraseIdx i = arrivals options recording s

/-- The conversion of seconds keeps their order, and a replay that runs to its end never turns
time back. It warns of an entry exactly if that lies before the clock's start or an earlier
entry. The engine goes through the reports at the clocks of their entries. Entries in order are
processed at their own times and without a warning, and one that the clock is already past can
be put anywhere without moving the others. -/
theorem time_never_runs_back {options : Options} {recording : Recording} {s : State}
    (success : (run options recording s).value.2 = none) :
    (∀ a b : Binary64, a.le b → Duration.ofSeconds a ≤ Duration.ofSeconds b) ∧
      KeepsTime options recording s := by
  have sound : ∀ entry ∈ recording.entries, entry.Sound := feed_error_iff.mp success
  have hwarnings : (run options recording s).events.filter (·.isHold) =
      holds s.clock.elapsed 0 recording.entries := holds_of_feed sound 0
  have harrivals : arrivals options recording s = _ := arrivals_eq_clocks sound
  refine ⟨fun a b => Duration.ofSeconds_mono, ?_⟩
  constructor
  case warnings => exact hwarnings
  case warned_iff =>
    intro i entry hentry
    have hhold : (Log.Event.wentBack i entry.time).isHold = true := rfl
    have hmem : .wentBack i entry.time ∈ (run options recording s).events ↔
        .wentBack i entry.time ∈ holds s.clock.elapsed 0 recording.entries := by
      rw [← hwarnings, List.mem_filter]
      exact (and_iff_left hhold).symm
    rw [hmem, mem_holds]
    constructor
    · rintro ⟨j, other, hother, hback, hevent⟩
      obtain ⟨hindex, -⟩ := Log.Event.wentBack.inj hevent
      obtain rfl : i = j := by omega
      obtain rfl : entry = other := Option.some.inj (hentry.symm.trans hother)
      exact hback
    · intro hback
      exact ⟨i, entry, hentry, hback, by rw [Nat.zero_add]⟩
  case neverBack =>
    rw [harrivals]
    exact isChain_clocks s.clock recording.entries
  case processed =>
    intro steps final
    have hsteps : steps = timeline s.clock recording.entries := by
      rw [← handed_clocks, ← harrivals]
    have hfinal : final = _ := congrArg Prod.fst (feed_of_sound sound 0 s)
    rw [hfinal, hsteps]
    exact ⟨rfl, rfl⟩
  case stamped =>
    intro i m mark steps hm hmark fresh
    obtain ⟨given, hgiven, hstamp⟩ := stamp_of_fresh_history hm hmark fresh
    obtain ⟨clock, entry, hclock, -, rfl⟩ := List.getElem?_zipWith_eq_some.mp hgiven
    rw [hclock, hstamp]
    rfl
  case inOrder =>
    intro ordered
    rw [hwarnings, harrivals]
    exact inOrder_undisturbed ordered 0
  case insertion =>
    intro i entry before longer hpast hlonger
    have hsound : ∀ e ∈ longer.entries, e.Sound := feed_error_iff.mp hlonger
    have hclock : before.value.1.clock = _ := clock_run_take sound i
    rw [hclock] at hpast
    rw [harrivals, arrivals_eq_clocks hsound]
    exact clocks_insertIdx hpast

/-- Velocities received at two, two and three seconds. -/
def sorted : Recording where
  name := "sorted"
  entries := [
    ⟨.ofNat 2, .velocity ⟨5000, 100, -200, 30, 40⟩⟩,
    ⟨.ofNat 2, .velocity ⟨6000, 100, -200, 30, 40⟩⟩,
    ⟨.ofNat 3, .velocity ⟨7000, 100, -200, 30, 40⟩⟩]

/-- With one at one second between the first two, only this one is warned of, and all others
are processed when they were. -/
theorem time_never_runs_back_sorted :
    let options : Options := ⟨default, true⟩
    let start := State.start (.new "gps" none) .atUnixEpoch []
    let late : Entry := ⟨.ofNat 1, .velocity ⟨4000, 100, -200, 30, 40⟩⟩
    let longer := { sorted with entries := sorted.entries.insertIdx 1 late }
    (run options sorted start).value.2 = none ∧ InOrder start.clock.elapsed sorted.entries ∧
      (arrivals options sorted start).map (·.elapsed) = [2000000000, 2000000000, 3000000000] ∧
      (run options longer start).events.filter (·.isHold) = [.wentBack 1 (.ofNat 1)] ∧
      (arrivals options longer start).eraseIdx 1 = arrivals options sorted start := by
  intro options start late longer
  have success : (run options sorted start).value.2 = none := by decide +kernel
  have hlonger : (run options longer start).value.2 = none := by decide +kernel
  obtain ⟨-, keeps⟩ := time_never_runs_back success
  obtain ⟨-, keepsLonger⟩ := time_never_runs_back hlonger
  have ordered : InOrder start.clock.elapsed sorted.entries :=
    ⟨by decide +kernel, by decide +kernel⟩
  have hholds : holds start.clock.elapsed 0 longer.entries = [.wentBack 1 (.ofNat 1)] := by
    decide +kernel
  refine ⟨success, ordered, ?_, keepsLonger.warnings.trans hholds, ?_⟩
  · rw [(keeps.inOrder ordered).2]
    decide +kernel
  · exact keeps.insertion 1 late (by decide +kernel) hlonger

end Replay
end GnssFusion
