import GnssFusion.Proofs.Decimal.ReadBack
import GnssFusion.Proofs.Replay.Composition

/-!
Reading the table of a replay. A reader that knows the names of the columns but nothing
else splits the text at line ends and commas and looks fields up under the header. Since no
field holds a separator, it gets back every line (`records?_join`), and since every field
can be read on its own, all that an output says (`readsAs_fields`). What it reads from a
replay, be it cut short or not, is what the engine put out (`run_table_reads_back`).
-/

namespace GnssFusion.Replay

/-- What a line of a table says. -/
inductive Reading
  | fix (iTow : UInt32) (stamp latitude longitude altitude horizontalVariance
      verticalVariance : Binary64) (status : FixStatus)
  | velocity (iTow : UInt32) (stamp east north up speedVariance : Binary64)
  deriving DecidableEq

/-- What an output says in a table. -/
def Row.reading : Row → Reading
  | .fix iTow output =>
      .fix iTow output.stamp.monotonic.seconds output.latitude output.longitude output.altitude
        output.horizontalVariance output.verticalVariance output.status
  | .velocity iTow output =>
      .velocity iTow output.stamp.monotonic.seconds output.east output.north output.up
        output.speedVariance

/-- The fields of a text by lines, each of which has to be ended. -/
def records? (text : String) : Option (List (List String)) :=
  let lines := text.toList.splitOn '\n'
  if lines.getLast? = some [] then
    some (lines.dropLast.map fun line => (line.splitOn ',').map String.ofList)
  else none

/-- The field under a name. -/
def cell? (header record : List String) (name : String) : Option String :=
  (header.zip record).lookup name

def number? (text : String) : Option Binary64 := Binary64.ofNumeral? text.toList

def counter? (text : String) : Option UInt32 :=
  let digits := text.toList
  if digits.all Char.isDigit ∧ digits ≠ [] ∧ digitsValue digits < 2 ^ 32 then
    some (.ofNat (digitsValue digits))
  else none

def status? (text : String) : Option FixStatus :=
  if text = "no_fix" then some .noFix else if text = "fix" then some .fix else none

def fixColumns : List String := [
  "latitude_deg", "longitude_deg", "altitude_m", "horizontal_variance_m2",
  "vertical_variance_m2", "status"]

def velocityColumns : List String := [
  "vel_e_m_s", "vel_n_m_s", "vel_u_m_s", "speed_variance_m2_s2"]

/-- Reads a line under its header. -/
def decode? (header record : List String) : Option Reading := do
  let cell := cell? header record
  let number (name : String) := (cell name).bind number?
  let iTow ← (cell "i_tow").bind counter?
  let stamp ← number "stamp_s"
  if cell "kind" = some "fix" then
    return .fix iTow stamp (← number "latitude_deg") (← number "longitude_deg")
      (← number "altitude_m") (← number "horizontal_variance_m2")
      (← number "vertical_variance_m2") (← (cell "status").bind status?)
  else if cell "kind" = some "velocity" then
    return .velocity iTow stamp (← number "vel_e_m_s") (← number "vel_n_m_s")
      (← number "vel_u_m_s") (← number "speed_variance_m2_s2")
  else none

def Row.kind : Row → String
  | .fix .. => "fix"
  | .velocity .. => "velocity"

def Row.ownColumns : Row → List String
  | .fix .. => fixColumns
  | .velocity .. => velocityColumns

def Row.otherColumns : Row → List String
  | .fix .. => velocityColumns
  | .velocity .. => fixColumns

/-- What a line of a table is for an output: all its fields are there, those of the other
kind are empty and those of its own are not, and it says what the output says. -/
structure ReadsAs (header record : List String) (row : Row) : Prop where
  length : record.length = 13
  kind : cell? header record "kind" = some row.kind
  filled : ∀ name ∈ row.ownColumns, ∃ text, cell? header record name = some text ∧ text ≠ ""
  blank : ∀ name ∈ row.otherColumns, cell? header record name = some ""
  decoded : decode? header record = some row.reading

theorem number?_tabular (x : Binary64) : number? x.tabular = some x :=
  x.ofNumeral?_tabular

theorem tabular_ne_empty (x : Binary64) : x.tabular ≠ "" := by
  intro h
  have hread := number?_tabular x
  rw [h] at hread
  cases hread

theorem toList_toString_counter (n : UInt32) :
    (toString n).toList = Nat.toDigits 10 n.toNat := Nat.toList_repr

theorem counter?_toString (n : UInt32) : counter? (toString n) = some n := by
  have hdigits := List.all_eq_true.mpr (allDigits_toDigits n.toNat)
  rw [counter?, toList_toString_counter, digitsValue_toDigits,
    if_pos ⟨hdigits, Nat.toDigits_ne_nil, n.toNat_lt⟩, UInt32.ofNat_toNat]

theorem status?_name (status : FixStatus) : status? status.name = some status := by
  cases status <;> decide

theorem cell?_of_getElem? {header record : List String} (distinct : header.Nodup) {i : ℕ}
    {name text : String} (hname : header[i]? = some name) (htext : record[i]? = some text) :
    cell? header record name = some text := by
  induction header generalizing record i with
  | nil => nomatch hname
  | cons first rest ih =>
      obtain ⟨hfirst, hrest⟩ := List.nodup_cons.mp distinct
      cases record with
      | nil => nomatch htext
      | cons field fields =>
          rw [cell?, List.zip_cons_cons, List.lookup_cons]
          cases i with
          | zero =>
              cases hname
              cases htext
              rw [beq_self_eq_true]
          | succ i =>
              have hne : name ≠ first := by
                rintro rfl
                exact hfirst (List.mem_of_getElem? hname)
              rw [beq_false_of_ne hne]
              exact ih hrest hname htext

theorem columns_nodup : columns.Nodup := by decide

theorem readsAs_fields (row : Row) : ReadsAs columns row.fields row := by
  have cell (i : ℕ) {name text : String} (hname : columns[i]? = some name)
      (htext : row.fields[i]? = some text) : cell? columns row.fields name = some text :=
    cell?_of_getElem? columns_nodup hname htext
  cases row with
  | fix iTow output =>
      have hstatus : output.status.name ≠ "" := by cases output.status <;> decide
      have kind := cell 0 rfl rfl
      have stamp := cell 1 rfl rfl
      have counter := cell 2 rfl rfl
      have latitude := cell 3 rfl rfl
      have longitude := cell 4 rfl rfl
      have altitude := cell 5 rfl rfl
      have horizontal := cell 6 rfl rfl
      have vertical := cell 7 rfl rfl
      have status := cell 8 rfl rfl
      constructor
      case length => rfl
      case kind => exact kind
      case filled =>
        simp [Row.ownColumns, fixColumns, latitude, longitude, altitude, horizontal, vertical,
          status, tabular_ne_empty, hstatus]
      case blank =>
        simp [Row.otherColumns, velocityColumns, cell 9 rfl rfl, cell 10 rfl rfl,
          cell 11 rfl rfl, cell 12 rfl rfl]
      case decoded =>
        simp [decode?, kind, stamp, counter, latitude, longitude, altitude, horizontal, vertical,
          status, Row.reading, Row.stampField, Row.stamp, number?_tabular, counter?_toString,
          status?_name]
  | velocity iTow output =>
      have kind := cell 0 rfl rfl
      have stamp := cell 1 rfl rfl
      have counter := cell 2 rfl rfl
      have east := cell 9 rfl rfl
      have north := cell 10 rfl rfl
      have up := cell 11 rfl rfl
      have speed := cell 12 rfl rfl
      constructor
      case length => rfl
      case kind => exact kind
      case filled =>
        simp [Row.ownColumns, velocityColumns, east, north, up, speed, tabular_ne_empty]
      case blank =>
        simp [Row.otherColumns, fixColumns, cell 3 rfl rfl, cell 4 rfl rfl, cell 5 rfl rfl,
          cell 6 rfl rfl, cell 7 rfl rfl, cell 8 rfl rfl]
      case decoded =>
        simp [decode?, kind, stamp, counter, east, north, up, speed, Row.reading, Row.stampField,
          Row.stamp, number?_tabular, counter?_toString]

/-! Lines. -/

/-- Text that neither ends a field nor needs quotes. -/
def Unquoted (text : List Char) : Prop := ∀ c ∈ text, c ≠ ',' ∧ c ≠ '\n' ∧ c ≠ '\r' ∧ c ≠ '"'

theorem unquoted_of_chars {text : List Char}
    (h : ∀ c ∈ text, c.isAlphanum ∨ c = '.' ∨ c = '-' ∨ c = '_') : Unquoted text := by
  intro c hc
  refine ⟨?_, ?_, ?_, ?_⟩ <;>
    · rintro rfl
      exact absurd (h _ hc) (by decide)

theorem unquoted_tabular (x : Binary64) : Unquoted x.tabular.toList := by
  refine unquoted_of_chars fun c hc => ?_
  obtain hletter | rfl | rfl := x.chars_tabular c hc
  · exact .inl hletter
  · exact .inr (.inl rfl)
  · exact .inr (.inr (.inl rfl))

theorem unquoted_counter (n : UInt32) : Unquoted (toString n).toList := by
  rw [toList_toString_counter]
  refine unquoted_of_chars fun c hc => .inl ?_
  rw [Char.isAlphanum, allDigits_toDigits _ c hc, Bool.or_true]

theorem unquoted_status (status : FixStatus) : Unquoted status.name.toList := by
  refine unquoted_of_chars (List.all_iff_forall_prop.mp ?_)
  cases status <;> decide

theorem unquoted_fields (row : Row) : ∀ field ∈ row.fields, Unquoted field.toList := by
  have hfix : Unquoted "fix".toList := unquoted_of_chars (List.all_iff_forall_prop.mp (by decide))
  have hvelocity : Unquoted "velocity".toList :=
    unquoted_of_chars (List.all_iff_forall_prop.mp (by decide))
  have hempty : Unquoted "".toList := fun c hc => nomatch hc
  cases row with
  | fix iTow output =>
      simp only [Row.fields, Row.blanks, List.replicate, List.cons_append, List.nil_append,
        List.forall_mem_cons, Row.stampField, unquoted_tabular, unquoted_counter, unquoted_status,
        hempty, hfix, true_and]
      exact List.forall_mem_nil _
  | velocity iTow output =>
      simp only [Row.fields, Row.blanks, List.replicate, List.cons_append, List.nil_append,
        List.forall_mem_cons, Row.stampField, unquoted_tabular, unquoted_counter, hempty,
        hvelocity, true_and]
      exact List.forall_mem_nil _

theorem unquoted_columns : ∀ field ∈ columns, Unquoted field.toList := by
  have hchars : ∀ field ∈ columns, field.toList.all
      fun c => c.isAlphanum ∨ c = '.' ∨ c = '-' ∨ c = '_' := by decide
  intro field hfield
  exact unquoted_of_chars (List.all_iff_forall_prop.mp (hchars field hfield))

theorem splitOn_line {fields : List String} (hne : fields ≠ [])
    (h : ∀ field ∈ fields, Unquoted field.toList) :
    ((String.intercalate "," fields).toList.splitOn ',').map String.ofList = fields := by
  have hcommas : ∀ text ∈ fields.map String.toList, ',' ∉ text := by
    intro text htext hcomma
    obtain ⟨field, hfield, rfl⟩ := List.mem_map.mp htext
    exact (h field hfield ',' hcomma).1 rfl
  have hsome : fields.map String.toList ≠ [] := by rwa [Ne, List.map_eq_nil_iff]
  have hsplit : ([','].intercalate (fields.map String.toList)).splitOn ',' =
      fields.map String.toList := List.splitOn_intercalate ',' hcommas hsome
  have hcomma : ",".toList = [','] := rfl
  have hback : String.ofList ∘ String.toList = id := funext fun text => String.ofList_toList
  rw [String.toList_intercalate, hcomma, hsplit, List.map_map, hback, List.map_id]

theorem mem_intercalate {α : Type} {separator : List α} {xs : List (List α)} {a : α}
    (h : a ∈ separator.intercalate xs) : a ∈ separator ∨ ∃ x ∈ xs, a ∈ x := by
  induction xs with
  | nil => nomatch h
  | cons first rest ih =>
      by_cases hrest : rest = []
      · rw [hrest, List.intercalate_singleton] at h
        exact .inr ⟨first, List.mem_cons_self, h⟩
      · rw [List.intercalate_cons_of_ne_nil hrest] at h
        obtain h | h := List.mem_append.mp h
        · obtain h | h := List.mem_append.mp h
          · exact .inr ⟨first, List.mem_cons_self, h⟩
          · exact .inl h
        · obtain h | ⟨x, hx, ha⟩ := ih h
          · exact .inl h
          · exact .inr ⟨x, List.mem_cons_of_mem first hx, ha⟩

theorem mem_line {fields : List String} {c : Char}
    (h : c ∈ (String.intercalate "," fields).toList) :
    c = ',' ∨ ∃ field ∈ fields, c ∈ field.toList := by
  rw [String.toList_intercalate] at h
  obtain h | ⟨text, htext, hc⟩ := mem_intercalate h
  · exact .inl (List.mem_singleton.mp h)
  · obtain ⟨field, hfield, rfl⟩ := List.mem_map.mp htext
    exact .inr ⟨field, hfield, hc⟩

theorem newline_not_mem_line {fields : List String}
    (h : ∀ field ∈ fields, Unquoted field.toList) :
    '\n' ∉ (String.intercalate "," fields).toList := by
  intro hmem
  obtain hcomma | ⟨field, hfield, hc⟩ := mem_line hmem
  · exact absurd hcomma (by decide)
  · exact (h field hfield _ hc).2.1 rfl

/-- Each line end ends a line, and nothing stands behind the last. -/
theorem splitOn_join {records : List (List String)}
    (h : ∀ record ∈ records, ∀ field ∈ record, Unquoted field.toList) :
    (String.join (records.map line)).toList.splitOn '\n' =
      records.map (fun record => (String.intercalate "," record).toList) ++ [[]] := by
  induction records with
  | nil => rfl
  | cons record rest ih =>
      obtain ⟨hrecord, hrest⟩ := List.forall_mem_cons.mp h
      rw [List.map_cons, String.join_cons, String.toList_append, line, String.toList_append,
        List.append_assoc]
      exact (List.splitOn_append_cons_self_of_not_mem (newline_not_mem_line hrecord) _).trans
        (congrArg _ (ih hrest))

theorem records?_join {records : List (List String)}
    (h : ∀ record ∈ records, record ≠ [] ∧ ∀ field ∈ record, Unquoted field.toList) :
    records? (String.join (records.map line)) = some records := by
  have hunquoted : ∀ record ∈ records, ∀ field ∈ record, Unquoted field.toList :=
    fun record hrecord => (h record hrecord).2
  simp only [records?, splitOn_join hunquoted, List.getLast?_concat, if_true,
    List.dropLast_concat, List.map_map]
  refine congrArg some ?_
  conv => rhs; rw [← List.map_id records]
  refine List.map_congr_left ?_
  intro record hrecord
  exact splitOn_line (h record hrecord).1 (h record hrecord).2

theorem quote_not_mem_join {records : List (List String)}
    (h : ∀ record ∈ records, ∀ field ∈ record, Unquoted field.toList) :
    '"' ∉ (String.join (records.map line)).toList := by
  rw [String.toList_join]
  intro hmem
  obtain ⟨text, htext, hmem⟩ := List.mem_flatMap.mp hmem
  obtain ⟨record, hrecord, rfl⟩ := List.mem_map.mp htext
  rw [line, String.toList_append] at hmem
  obtain hmem | hmem := List.mem_append.mp hmem
  · obtain hcomma | ⟨field, hfield, hc⟩ := mem_line hmem
    · exact absurd hcomma (by decide)
    · exact (h record hrecord field hfield _ hc).2.2.2 rfl
  · exact absurd hmem (by decide)

/-- The lines of a table: none without rows, and the header before the first. -/
def tableRecords (rows : List Row) : List (List String) :=
  if rows.isEmpty then [] else columns :: rows.map Row.fields

theorem tableText_eq_join (rows : List Row) :
    tableText rows = String.join ((tableRecords rows).map line) := by
  cases rows with
  | nil => rfl
  | cons row rest =>
      have hlines : (row :: rest).map (fun row => line row.fields) =
          ((row :: rest).map Row.fields).map line := by
        rw [List.map_map]
        rfl
      simp only [tableText, tableRecords, List.isEmpty_cons, Bool.false_eq_true, if_false, hlines,
        List.map_cons]

theorem unquoted_tableRecords (rows : List Row) :
    ∀ record ∈ tableRecords rows, record ≠ [] ∧ ∀ field ∈ record, Unquoted field.toList := by
  have hfields : ∀ record ∈ rows.map Row.fields,
      record ≠ [] ∧ ∀ field ∈ record, Unquoted field.toList := by
    intro record hrecord
    obtain ⟨row, -, rfl⟩ := List.mem_map.mp hrecord
    refine ⟨?_, unquoted_fields row⟩
    rw [← List.length_pos_iff, (readsAs_fields row).length]
    decide
  cases rows with
  | nil => exact List.forall_mem_nil _
  | cons row rest =>
      exact List.forall_mem_cons.mpr ⟨⟨List.cons_ne_nil _ _, unquoted_columns⟩, hfields⟩

/-- What a reader finds in the text of a table. -/
structure ReadsBack (text : String) (rows : List Row) : Prop where
  none : rows = [] → text = ""
  some : rows ≠ [] → ∃ records, records? text = .some (columns :: records) ∧
    columns.length = 13 ∧ List.Forall₂ (ReadsAs columns) records rows
  unquoted : '"' ∉ text.toList

theorem readsBack_tableText (rows : List Row) : ReadsBack (tableText rows) rows := by
  have hunquoted := unquoted_tableRecords rows
  constructor
  case none =>
    rintro rfl
    rfl
  case some =>
    intro hne
    refine ⟨rows.map Row.fields, ?_, rfl, ?_⟩
    · rw [tableText_eq_join, records?_join hunquoted, tableRecords,
        List.isEmpty_eq_false_iff.mpr hne, if_neg Bool.false_ne_true]
    · rw [List.forall₂_map_left_iff]
      exact List.forall₂_same.mpr fun row _ => readsAs_fields row
  case unquoted =>
    rw [tableText_eq_join]
    exact quote_not_mem_join fun record hrecord => (hunquoted record hrecord).2

theorem rows_step_of_not_sound {entry : Entry} (unsound : ¬ entry.Sound) (options : Options)
    (index : ℕ) (s : State) : (step options index entry s).value.1.rows = s.rows := by
  obtain sound | ⟨timely, record, hreport, hdecode⟩ | late := entry.sound_or_stops
  · exact absurd sound unsound
  · rw [step_of_unknown timely hreport hdecode]
  · rw [step_of_not_timely late]

/-- A replay processes the sound entries before the first one that is not, and writes what
the engine puts out for them. -/
theorem exists_processed (options : Options) (recording : Recording) (s : State) :
    ∃ processed rest, recording.entries = processed ++ rest ∧
      (∀ entry ∈ processed, entry.Sound) ∧ (∀ entry, rest.head? = some entry → ¬ entry.Sound) ∧
      ((run options recording s).value.2 = none ↔ rest = []) ∧
      (run options recording s).value.1.rows =
        s.rows ++ written options (s.engine.history (timeline s.clock processed)) := by
  cases herror : (run options recording s).value.2 with
  | none =>
      have sound := feed_error_iff.mp herror
      have hresult : (run options recording s).value = _ := feed_of_sound sound 0 s
      refine ⟨recording.entries, [], (List.append_nil _).symm, sound, ?_, iff_of_true rfl rfl, ?_⟩
      · intro entry h
        nomatch h
      · rw [hresult]
  | some error =>
      obtain ⟨k, entry, hk, unsound, sound, hrun⟩ := run_of_error herror
      have hfirst : (recording.entries.drop k).head? = some entry := by rw [List.head?_drop, hk]
      refine ⟨recording.entries.take k, recording.entries.drop k,
        (List.take_append_drop k _).symm, sound, ?_, ?_, ?_⟩
      · intro other hother
        rwa [← Option.some.inj (hfirst.symm.trans hother)]
      · refine iff_of_false nofun ?_
        intro hempty
        rw [hempty] at hfirst
        nomatch hfirst
      · rw [hrun, rows_step_of_not_sound unsound, feed_of_sound sound]

/-- Whatever a replay reads, the table that it has written by its end, regular or not, can be
read back: a line for each position and velocity that was processed, in their order, and
on it what the engine put out. -/
theorem run_table_reads_back (publish : Settings.PublishToggles) (recording : Recording)
    (engine : Engine) (clock : SimulatedClock) :
    let result := (run ⟨publish, true⟩ recording (.start engine clock [])).value
    ∃ processed rest, recording.entries = processed ++ rest ∧
      (∀ entry ∈ processed, entry.Sound) ∧ (∀ entry, rest.head? = some entry → ¬ entry.Sound) ∧
      (result.2 = none ↔ rest = []) ∧
      let rows := (engine.history (timeline clock processed)).filterMap Session.Moment.row?
      rows.map Row.mark = processed.filterMap (·.action.mark?) ∧
        ReadsBack (tableText result.1.rows) rows := by
  intro result
  obtain ⟨processed, rest, hsplit, sound, unsound, hend, hrows⟩ :=
    exists_processed ⟨publish, true⟩ recording (.start engine clock [])
  refine ⟨processed, rest, hsplit, sound, unsound, hend, ?_, ?_⟩
  · rw [map_mark_history, mark_timeline]
  · rw [hrows]
    exact readsBack_tableText _

end GnssFusion.Replay
