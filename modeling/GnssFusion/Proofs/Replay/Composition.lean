import GnssFusion.Proofs.Replay.Timeline

/-!
Replaying in pieces. What a replay does to a state depends neither on what was counted and
written before nor on the index it starts from; these only shift its counts, its rows and the
index of its error (`feed_shift`). So a recording may be cut anywhere: replaying the second
part where the first one ended is replaying all of it. The table is then written on, and keeps
the one header that its first row brought (`tableLines_append`, `count_header`).
-/

namespace GnssFusion

/-- The entries of one recording and then those of another. -/
def Recording.followedBy (a b : Recording) : Recording :=
  { a with entries := a.entries ++ b.entries }

namespace Replay

/-- The error of the same entry when further entries stand before it. -/
def Error.shift (count : Nat) : Error → Error
  | .unknownFixType index code => .unknownFixType (index + count) code
  | .invalidTime index time => .invalidTime (index + count) time

theorem Error.shift_zero : Error.shift 0 = id := by
  funext error
  cases error <;> rfl

/-- A state with counts and rows of earlier entries put before its own. -/
def State.behind (counts : Log.Counts) (rows : List Row) (s : State) : State :=
  { s with counts := counts.add s.counts, rows := rows ++ s.rows }

theorem State.behind_start (s : State) :
    (start s.engine s.clock []).behind s.counts s.rows = s := by
  simp [behind, start, Log.Counts.add]

section
variable {options : Options} {index : Nat} {s : State}

theorem step_shift (counts : Log.Counts) (rows : List Row) (count : Nat) (entry : Entry) :
    (step options (index + count) entry (s.behind counts rows)).value =
      let result := (step options index entry s).value
      (result.1.behind counts rows, result.2.map (Error.shift count)) := by
  obtain sound | ⟨timely, record, hreport, hdecode⟩ | late := entry.sound_or_stops
  · rw [step_of_sound options _ sound, step_of_sound options _ sound]
    simp only [State.behind, Log.Counts.add_assoc, List.append_assoc, Option.map_none]
  · rw [step_of_unknown timely hreport hdecode, step_of_unknown timely hreport hdecode]
    rfl
  · rw [step_of_not_timely late, step_of_not_timely late]
    rfl

theorem feed_shift (counts : Log.Counts) (rows : List Row) (count : Nat)
    (entries : List Entry) :
    (feed options (index + count) entries (s.behind counts rows)).value =
      let result := (feed options index entries s).value
      (result.1.behind counts rows, result.2.map (Error.shift count)) := by
  induction entries generalizing index s with
  | nil => rfl
  | cons entry rest ih =>
      by_cases sound : entry.Sound
      · -- The state after the entry is again one with counts and rows put before its own.
        rw [feed_cons_of_sound sound, feed_cons_of_sound sound, step_shift,
          Nat.add_right_comm index count 1]
        exact ih
      · rw [feed_cons_of_not_sound sound, feed_cons_of_not_sound sound, step_shift]

/-- What a replay adds to a state is what it makes of a start with the same engine and clock. -/
theorem feed_eq_behind (count : Nat) (entries : List Entry) (s : State) :
    (feed options count entries s).value =
      let alone := (feed options 0 entries (.start s.engine s.clock [])).value
      (alone.1.behind s.counts s.rows, alone.2.map (Error.shift count)) := by
  calc (feed options count entries s).value
      = (feed options (0 + count) entries
          ((State.start s.engine s.clock []).behind s.counts s.rows)).value := by
        rw [State.behind_start, Nat.zero_add]
    _ = _ := feed_shift s.counts s.rows count entries

/-- Nothing is fed after a part that fails. -/
theorem feed_append_of_error {before : List Entry}
    (h : (feed options index before s).value.2 ≠ none) (after : List Entry) :
    (feed options index (before ++ after) s).value = (feed options index before s).value := by
  induction before generalizing index s with
  | nil => exact absurd rfl h
  | cons entry rest ih =>
      rw [List.cons_append]
      by_cases sound : entry.Sound
      · rw [feed_cons_of_sound sound] at h
        rw [feed_cons_of_sound sound, feed_cons_of_sound sound, ih h]
      · rw [feed_cons_of_not_sound sound, feed_cons_of_not_sound sound]

end

/-! The text of a table. -/

/-- Writes a row behind some text. Only where there is no text yet, the header comes first. -/
def appendRow (text : String) (row : Row) : String :=
  (if text = "" then line columns else text) ++ line row.fields

def tableLines (rows : List Row) : List String :=
  if rows.isEmpty then [] else line columns :: rows.map fun row => line row.fields

theorem tableText_concat (rows : List Row) (row : Row) :
    tableText (rows ++ [row]) = appendRow (tableText rows) row := by
  cases rows with
  | nil => simp [tableText, appendRow]
  | cons first rest =>
      have hne : tableText (first :: rest) ≠ "" := by
        intro h
        simpa [tableText, line] using congrArg String.length h
      rw [appendRow, if_neg hne]
      simp [tableText, String.append_assoc]

theorem tableText_append (rows added : List Row) :
    tableText (rows ++ added) = added.foldl appendRow (tableText rows) := by
  induction added generalizing rows with
  | nil => rw [List.append_nil, List.foldl_nil]
  | cons row rest ih => rw [List.append_cons, ih, tableText_concat, List.foldl_cons]

/-- The lines of a table behind some rows: the header is left out if they have brought it. -/
def linesBehind (rows added : List Row) : List String :=
  (tableLines added).drop (if rows = [] then 0 else 1)

theorem tableLines_append (rows added : List Row) :
    tableLines (rows ++ added) = tableLines rows ++ linesBehind rows added := by
  cases rows with
  | nil => rfl
  | cons first rest =>
      cases added with
      | nil => simp [tableLines, linesBehind]
      | cons row later => simp [tableLines, linesBehind]

theorem join_tableLines (rows : List Row) : String.join (tableLines rows) = tableText rows := by
  cases rows <;> rfl

/-- The first letter tells a row from the header. -/
theorem line_fields_ne_columns (row : Row) : line row.fields ≠ line columns := by
  intro h
  have hhead := congrArg (fun text => text.toList.head?) h
  cases row <;> simp [Row.fields, columns, line] at hhead

theorem count_header (rows : List Row) :
    (tableLines rows).count (line columns) = if rows = [] then 0 else 1 := by
  cases rows with
  | nil => rfl
  | cons row rest =>
      have hrows : line columns ∉ (row :: rest).map fun row => line row.fields := by
        intro h
        obtain ⟨other, -, hother⟩ := List.mem_map.mp h
        exact line_fields_ne_columns other hother
      change (line columns :: (row :: rest).map fun row => line row.fields).count _ = 1
      rw [List.count_cons_self, List.count_eq_zero_of_not_mem hrows]

/-- What a replay of all entries has of the replays of a first part and then of the rest.
The rest goes on writing behind the text that the first part has left. -/
structure Continues (count : Nat) (first second whole : State × Option Error) : Prop where
  engine : whole.1.engine = second.1.engine
  clock : whole.1.clock = second.1.clock
  rows : whole.1.rows = second.1.rows
  text : ∃ added, second.1.rows = first.1.rows ++ added ∧
    tableText whole.1.rows = added.foldl appendRow (tableText first.1.rows)
  counts : whole.1.counts = first.1.counts.add second.1.counts
  error : whole.2 = second.2.map (Error.shift count)

/-- A replay may be cut at any entry. If the first part succeeds, replaying the second one
from where it ended has the outcome of replaying both at once; if it fails, so does the
whole, in the same state. The lines of the whole are those of the first part and, if that
succeeds, those of a second one that writes a table of its own, with one header in all. -/
theorem run_followedBy (options : Options) (a b : Recording) (engine : Engine)
    (clock : SimulatedClock) (rows : List Row) :
    let first := (run options a (.start engine clock rows)).value
    let second := (run options b (.start first.1.engine first.1.clock first.1.rows)).value
    let whole := (run options (a.followedBy b) (.start engine clock rows)).value
    (first.2 = none → Continues a.entries.length first second whole) ∧
    (first.2 ≠ none → whole = first) ∧
    let alone := (run options b (.start first.1.engine first.1.clock [])).value
    let lines := tableLines first.1.rows ++
      if first.2 = none then linesBehind first.1.rows alone.1.rows else []
    tableLines whole.1.rows = lines ∧ String.join lines = tableText whole.1.rows ∧
      lines.count (line columns) = if whole.1.rows = [] then 0 else 1 := by
  intro first second whole
  have hfailure : first.2 ≠ none → whole = first := fun h => feed_append_of_error h b.entries
  let alone := (run options b (.start first.1.engine first.1.clock [])).value
  have hwhole (success : first.2 = none) :
      whole = (alone.1.behind first.1.counts first.1.rows,
        alone.2.map (Error.shift a.entries.length)) := by
    have sound : ∀ entry ∈ a.entries, entry.Sound := feed_error_iff.mp success
    calc whole = (feed options (0 + a.entries.length) b.entries first.1).value :=
          feed_append sound 0 b.entries _
      _ = (feed options a.entries.length b.entries first.1).value := by rw [Nat.zero_add]
      _ = _ := feed_eq_behind a.entries.length b.entries first.1
  have hsecond : second = (alone.1.behind ⟨0, 0, 0, 0⟩ first.1.rows, alone.2) := by
    have hadded : second = (alone.1.behind ⟨0, 0, 0, 0⟩ first.1.rows,
        alone.2.map (Error.shift 0)) := feed_eq_behind 0 b.entries _
    rw [hadded, Error.shift_zero, Option.map_id, id]
  have hlines : tableLines whole.1.rows = tableLines first.1.rows ++
      if first.2 = none then linesBehind first.1.rows alone.1.rows else [] := by
    split
    · next success =>
        rw [hwhole success]
        exact tableLines_append first.1.rows alone.1.rows
    · next failure => rw [hfailure failure, List.append_nil]
  refine ⟨?_, hfailure, hlines, ?_, ?_⟩
  · intro success
    rw [hwhole success, hsecond]
    refine ⟨rfl, rfl, rfl, ⟨alone.1.rows, rfl, tableText_append _ _⟩, ?_, rfl⟩
    exact congrArg first.1.counts.add (Log.Counts.zero_add alone.1.counts).symm
  · rw [← hlines, join_tableLines]
  · rw [← hlines, count_header]

/-- A position, cut off from the velocity of its epoch and from a solution with an unknown
fix type. -/
def beforeCut : Recording := ⟨"before", [⟨.ofNat 1, .position ⟨5000, 0, 0, 0, 0, 1, 1⟩⟩]⟩

def afterCut : Recording where
  name := "after"
  entries := [
    ⟨.ofNat 0, .velocity ⟨5000, 100, -200, 30, 40⟩⟩,
    ⟨.ofNat 2, .solution ⟨5000, 9, 1, 7⟩⟩]

theorem run_followedBy_across_epoch :
    let options : Options := ⟨default, true⟩
    let first := (run options beforeCut (.start (.new "gps" none) .atUnixEpoch [])).value
    let second := (run options afterCut (.start first.1.engine first.1.clock first.1.rows)).value
    let whole := (run options (beforeCut.followedBy afterCut)
      (.start (.new "gps" none) .atUnixEpoch [])).value
    first.2 = none ∧ second.1.counts = ⟨0, 1, 0, 1⟩ ∧ whole.1.counts = ⟨1, 1, 0, 1⟩ ∧
      whole.2 = some (.unknownFixType 2 9) ∧
      whole.1.rows.map (·.stamp.monotonic) = [1000000000, 1000000000] ∧
      Continues beforeCut.entries.length first second whole := by
  have success : (run ⟨default, true⟩ beforeCut
      (.start (.new "gps" none) .atUnixEpoch [])).value.2 = none := by decide +kernel
  have continues := (run_followedBy ⟨default, true⟩ beforeCut afterCut (.new "gps" none)
    .atUnixEpoch []).1 success
  exact ⟨success, by decide +kernel, by decide +kernel, by decide +kernel, by decide +kernel,
    continues⟩

end Replay
end GnssFusion
