import GnssFusion.Replay.Run

/-!
Where a replay stops. The entries that it accepts are the sound ones: their receive time
is possible and, of a solution, the fix type is known. Feeding entries is feeding a part
of them and, if these are all sound, the rest from the state that they lead to
(`feed_append`). So a replay succeeds exactly on recordings of sound entries, and one
that fails leaves what the entries before the first unsound one lead to, but for the
clock, which a known time with an unknown fix type still moves.
-/

namespace GnssFusion
namespace Entry

/-- The receive time as the clock counts it. -/
def elapsed (entry : Entry) : Duration := .ofSeconds entry.time

def Timely (entry : Entry) : Prop :=
  entry.time.isFinite = true ∧ entry.time.lt (.ofNat 0) = false

def Known (entry : Entry) : Prop :=
  ∀ record, entry.report = .solution record → record.decode?.isSome

def Sound (entry : Entry) : Prop := entry.Timely ∧ entry.Known

theorem isValidTime_iff (entry : Entry) :
    Replay.State.isValidTime entry.time = true ↔ entry.Timely := by
  simp [Replay.State.isValidTime, Timely]

theorem exists_unknown {entry : Entry} (h : ¬ entry.Known) :
    ∃ record, entry.report = .solution record ∧ record.decode? = none := by
  simpa [Known] using h

/-- What a replay tells apart: it goes on, or it stops in one of two ways. -/
theorem sound_or_stops (entry : Entry) :
    entry.Sound ∨
      (entry.Timely ∧ ∃ record, entry.report = .solution record ∧ record.decode? = none) ∨
      ¬ entry.Timely := by
  by_cases timely : entry.Timely
  · by_cases known : entry.Known
    · exact .inl ⟨timely, known⟩
    · exact .inr (.inl ⟨timely, exists_unknown known⟩)
  · exact .inr (.inr timely)

end Entry

namespace Replay

section
variable {options : Options} {index : Nat} {entry : Entry} {s : State}

/-- An impossible time stops the replay before anything is changed, whatever the report. -/
theorem step_of_not_timely (h : ¬ entry.Timely) :
    (step options index entry s).value = (s, some (.invalidTime index entry.time)) := by
  rw [← entry.isValidTime_iff] at h
  simp [step, h]

/-- An unknown fix type stops the replay after the clock was moved. -/
theorem step_of_unknown (timely : entry.Timely) {record : SolutionRecord}
    (hreport : entry.report = .solution record) (hdecode : record.decode? = none) :
    (step options index entry s).value =
      ({ s with clock := s.clock.advanceTo entry.elapsed },
        some (.unknownFixType index record.gpsFix)) := by
  have hvalid := entry.isValidTime_iff.mpr timely
  simp only [step, hvalid, hreport, hdecode]
  rfl

theorem step_error_of_sound (sound : entry.Sound) :
    (step options index entry s).value.2 = none := by
  obtain ⟨timely, known⟩ := sound
  have hvalid := entry.isValidTime_iff.mpr timely
  cases hreport : entry.report with
  | position report | velocity report => simp [step, hvalid, hreport]
  | solution record =>
      obtain ⟨report, hdecode⟩ := Option.isSome_iff_exists.mp (known record hreport)
      simp [step, hvalid, hreport, hdecode]

theorem step_error_iff : (step options index entry s).value.2 = none ↔ entry.Sound := by
  refine ⟨?_, step_error_of_sound⟩
  intro h
  obtain sound | ⟨timely, record, hreport, hdecode⟩ | late := entry.sound_or_stops
  · exact sound
  · rw [step_of_unknown timely hreport hdecode] at h
    cases h
  · rw [step_of_not_timely late] at h
    cases h

theorem feed_cons_of_sound (sound : entry.Sound) (rest : List Entry) :
    (feed options index (entry :: rest) s).value =
      (feed options (index + 1) rest (step options index entry s).value.1).value := by
  have h : (step options index entry s).value.2 = none := step_error_of_sound sound
  simp only [feed, Logged.value_bind]
  rw [h]

theorem feed_cons_of_not_sound (unsound : ¬ entry.Sound) (rest : List Entry) :
    (feed options index (entry :: rest) s).value = (step options index entry s).value := by
  have hsome : (step options index entry s).value.2 ≠ none :=
    fun hnone => unsound (step_error_iff.mp hnone)
  obtain ⟨error, h⟩ := Option.ne_none_iff_exists'.mp hsome
  simp only [feed, Logged.value_bind]
  rw [h]
  exact Prod.ext rfl h.symm

end

/-- Sound entries are fed one part after another. -/
theorem feed_append {options : Options} {before : List Entry}
    (sound : ∀ entry ∈ before, entry.Sound) (index : Nat) (after : List Entry) (s : State) :
    (feed options index (before ++ after) s).value =
      (feed options (index + before.length) after
        (feed options index before s).value.1).value := by
  induction before generalizing index s with
  | nil => rfl
  | cons entry rest ih =>
      obtain ⟨hentry, hrest⟩ := List.forall_mem_cons.mp sound
      rw [List.cons_append, feed_cons_of_sound hentry, feed_cons_of_sound hentry,
        ih hrest, List.length_cons, Nat.add_assoc, Nat.add_comm 1]

theorem feed_error_iff {options : Options} {index : Nat} {entries : List Entry} {s : State} :
    (feed options index entries s).value.2 = none ↔ ∀ entry ∈ entries, entry.Sound := by
  induction entries generalizing index s with
  | nil => simp [feed]
  | cons entry rest ih =>
      by_cases sound : entry.Sound
      · rw [feed_cons_of_sound sound, ih, List.forall_mem_cons]
        exact (and_iff_right sound).symm
      · rw [feed_cons_of_not_sound sound, step_error_iff, List.forall_mem_cons]
        exact iff_of_false sound fun h => sound h.1

/-- The first entry that is not sound ends the replay in the state it is handed over in. -/
theorem feed_of_first_unsound {options : Options} {entries : List Entry} {k : Nat}
    {entry : Entry} (hk : entries[k]? = some entry) (unsound : ¬ entry.Sound)
    (sound : ∀ e ∈ entries.take k, e.Sound) (index : Nat) (s : State) :
    (feed options index entries s).value =
      (step options (index + k) entry
        (feed options index (entries.take k) s).value.1).value := by
  obtain ⟨hlt, hget⟩ := List.getElem?_eq_some_iff.mp hk
  have hsplit : entries = entries.take k ++ entry :: entries.drop (k + 1) := by
    rw [← hget, ← List.drop_eq_getElem_cons hlt, List.take_append_drop]
  have hlength : (entries.take k).length = k := List.length_take_of_le (Nat.le_of_lt hlt)
  conv => lhs; rw [hsplit]
  rw [feed_append sound, feed_cons_of_not_sound unsound, hlength]

theorem exists_first_unsound {entries : List Entry} (h : ¬ ∀ entry ∈ entries, entry.Sound) :
    ∃ k entry, entries[k]? = some entry ∧ ¬ entry.Sound ∧ ∀ e ∈ entries.take k, e.Sound := by
  induction entries with
  | nil => exact absurd (by simp) h
  | cons first rest ih =>
      by_cases sound : first.Sound
      · have hrest : ¬ ∀ entry ∈ rest, entry.Sound := by
          intro hrest
          exact h (List.forall_mem_cons.mpr ⟨sound, hrest⟩)
        obtain ⟨k, entry, hk, unsound, hbefore⟩ := ih hrest
        exact ⟨k + 1, entry, by simpa using hk, unsound,
          by simpa using ⟨sound, hbefore⟩⟩
      · exact ⟨0, first, rfl, sound, by simp⟩

/-- A replay that fails ends with the step at the first entry that is not sound. -/
theorem run_of_error {options : Options} {recording : Recording} {s : State} {error : Error}
    (h : (run options recording s).value.2 = some error) :
    ∃ k entry, recording.entries[k]? = some entry ∧ ¬ entry.Sound ∧
      (∀ earlier ∈ recording.entries.take k, earlier.Sound) ∧
      (run options recording s).value =
        (step options k entry (feed options 0 (recording.entries.take k) s).value.1).value := by
  have unsound : ¬ ∀ entry ∈ recording.entries, entry.Sound := by
    intro sound
    have hnone : (run options recording s).value.2 = none := feed_error_iff.mpr sound
    cases hnone.symm.trans h
  obtain ⟨k, entry, hk, hentry, sound⟩ := exists_first_unsound unsound
  refine ⟨k, entry, hk, hentry, sound, ?_⟩
  calc (run options recording s).value
      = (step options (0 + k) entry
          (feed options 0 (recording.entries.take k) s).value.1).value :=
        feed_of_first_unsound hk hentry sound 0 s
    _ = _ := by rw [Nat.zero_add]

/-- A failing replay stops at the first entry that is not sound and leaves what the entries
before it lead to. An impossible time is found before an unknown fix type and leaves the
clock alone; an unknown fix type is found when the clock has moved to the entry's time. -/
theorem run_stops_at_first_unsound {options : Options} {recording : Recording} {s : State}
    {error : Error} (h : (run options recording s).value.2 = some error) :
    ∃ k entry, recording.entries[k]? = some entry ∧ ¬ entry.Sound ∧
      (∀ earlier ∈ recording.entries.take k, earlier.Sound) ∧
      let before := { recording with entries := recording.entries.take k }
      let reached := (run options before s).value.1
      let final := (run options recording s).value.1
      (run options before s).value.2 = none ∧
      ((¬ entry.Timely ∧ error = .invalidTime k entry.time ∧ final = reached) ∨
        (entry.Timely ∧ ∃ record, entry.report = .solution record ∧
          record.decode? = none ∧ error = .unknownFixType k record.gpsFix ∧
          final = { reached with clock :=
            ⟨reached.clock.epoch, max reached.clock.elapsed entry.elapsed⟩ })) := by
  obtain ⟨k, entry, hk, hentry, sound, hrun⟩ := run_of_error h
  refine ⟨k, entry, hk, hentry, sound, feed_error_iff.mpr sound, ?_⟩
  rw [hrun] at h
  rw [hrun]
  by_cases timely : entry.Timely
  · obtain ⟨record, hreport, hdecode⟩ :=
      Entry.exists_unknown fun known => hentry ⟨timely, known⟩
    rw [step_of_unknown timely hreport hdecode] at h
    refine .inr ⟨timely, record, hreport, hdecode, (Option.some.inj h).symm, ?_⟩
    rw [step_of_unknown timely hreport hdecode]
    rfl
  · rw [step_of_not_timely timely] at h
    refine .inl ⟨timely, (Option.some.inj h).symm, ?_⟩
    rw [step_of_not_timely timely]
    rfl

/-- A velocity at the start of the clock, a solution with an unknown fix type a second
later, and a position without a time. -/
def interrupted : Recording where
  name := "interrupted"
  entries := [
    ⟨.ofNat 0, .velocity ⟨5000, 100, -200, 30, 40⟩⟩,
    ⟨.ofNat 1, .solution ⟨5000, 9, 1, 7⟩⟩,
    ⟨.nan, .position ⟨5000, 0, 0, 0, 0, 1, 1⟩⟩]

theorem run_stops_at_unknown_fix_type :
    let options : Options := ⟨default, true⟩
    let start := State.start (.new "gps" none) .atUnixEpoch []
    let result := (run options interrupted start).value
    result.2 = some (.unknownFixType 1 9) ∧ result.1.clock.elapsed = 1000000000 ∧
    ∃ k entry, interrupted.entries[k]? = some entry ∧ ¬ entry.Sound ∧
      ∀ earlier ∈ interrupted.entries.take k, earlier.Sound := by
  intro options start result
  have h : (run options interrupted start).value.2 = some (.unknownFixType 1 9) := by
    decide +kernel
  obtain ⟨k, entry, hk, unsound, sound, -⟩ := run_stops_at_first_unsound h
  exact ⟨h, by decide +kernel, k, entry, hk, unsound, sound⟩

end Replay
end GnssFusion
