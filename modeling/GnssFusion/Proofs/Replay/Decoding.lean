import GnssFusion.Proofs.Replay.RecordingReading

/-!
Documents and the recordings they tell. With different names, a fold over members takes the
one value of each name it knows (`foldlM_beside?`), wherever its member stands. So a report,
an entry and a recording are read exactly from the documents that tell them
(`recordingOf?_iff`).
-/

namespace GnssFusion.Recording

open Json

/-! Members that are folded over. -/

/-- What a member of a name makes of what there was before it. -/
def Slot {α : Type} (name : String) (f : Document → Option α)
    (members : List (String × Document)) (before after : Option α) : Prop :=
  (name ∉ members.map Prod.fst ∧ after = before)
    ∨ before = none ∧ ∃ value a, (name, value) ∈ members ∧ f value = some a ∧ after = some a

section
variable {α β : Type} {name : String} {f : Document → Option α}
  {m : String × Document} {members : List (String × Document)} {before after : Option α}

theorem slot_nil : Slot name f [] before after ↔ after = before := by
  simp [Slot]

theorem slot_cons_of_ne (h : m.1 ≠ name) :
    Slot name f (m :: members) before after ↔ Slot name f members before after := by
  have hm : ∀ value, (name, value) ≠ m := fun value heq => h (by rw [← heq])
  simp [Slot, hm, h.symm]

theorem slot_of_notMem (h : name ∉ members.map Prod.fst) :
    Slot name f members before after ↔ after = before := by
  have hvalue : ∀ value, (name, value) ∉ members := fun value hmem =>
    h (List.mem_map_of_mem hmem)
  simp only [Slot, h, not_false_eq_true, true_and, hvalue, false_and, exists_false, and_false,
    or_false]

theorem slot_cons_of_eq (h : m.1 = name) (hmembers : name ∉ members.map Prod.fst) :
    Slot name f (m :: members) before after
      ↔ before = none ∧ ∃ a, f m.2 = some a ∧ after = some a := by
  obtain ⟨key, value⟩ := m
  obtain rfl : key = name := h
  have hvalue : ∀ value, (key, value) ∉ members := fun value hmem =>
    hmembers (List.mem_map_of_mem hmem)
  simp [Slot, hvalue]

/-- One step at the name of a slot, after which nothing more is taken into it. -/
theorem slot_step (h : m.1 = name) (hmembers : name ∉ members.map Prod.fst) :
    Slot name f (m :: members) before after
      ↔ ∃ taken, (if before.isSome then none else (f m.2).map some) = some taken
        ∧ Slot name f members taken after := by
  rw [slot_cons_of_eq h hmembers]
  simp only [slot_of_notMem hmembers]
  cases before with
  | some a => simp
  | none => cases f m.2 <;> simp [eq_comm]

theorem foldlM_once? (h : (members.map Prod.fst).Nodup) :
    members.foldlM (once? name f) before = some after ↔ Slot name f members before after := by
  induction members generalizing before with
  | nil => simp [slot_nil, eq_comm]
  | cons m members ih =>
      rw [List.map_cons, List.nodup_cons] at h
      rw [List.foldlM_cons, Option.bind_eq_bind, Option.bind_eq_some_iff]
      simp only [ih h.2]
      by_cases hname : m.1 = name
      · simp only [slot_step hname (hname ▸ h.1), once?, if_pos hname]
      · simp [slot_cons_of_ne hname, once?, if_neg hname]

theorem foldlM_beside? {others : β → String × Document → Option β} {b c : β}
    (h : (members.map Prod.fst).Nodup) :
    members.foldlM (beside? name f others) (before, b) = some (after, c)
      ↔ Slot name f members before after
        ∧ (members.filter fun m => m.1 ≠ name).foldlM others b = some c := by
  induction members generalizing before b with
  | nil => simp [slot_nil, eq_comm]
  | cons m members ih =>
      rw [List.map_cons, List.nodup_cons] at h
      rw [List.foldlM_cons, Option.bind_eq_bind, Option.bind_eq_some_iff]
      by_cases hname : m.1 = name
      · have hkeep : (m :: members).filter (fun m => m.1 ≠ name)
            = members.filter fun m => m.1 ≠ name := List.filter_cons_of_neg (by simp [hname])
        simp only [hkeep, slot_step hname (hname ▸ h.1), Prod.exists, ih h.2, beside?, if_pos hname]
        cases before with
        | some a => simp
        | none => cases f m.2 <;> simp
      · have hkeep : (m :: members).filter (fun m => m.1 ≠ name)
            = m :: members.filter fun m => m.1 ≠ name := List.filter_cons_of_pos (by simp [hname])
        simp only [hkeep, slot_cons_of_ne hname, List.foldlM_cons, Prod.exists, ih h.2, beside?,
          if_neg hname]
        cases others b m <;> simp

theorem slot_some_iff {a : α} :
    Slot name f members none (some a) ↔ ∃ value, (name, value) ∈ members ∧ f value = some a := by
  simp [Slot]

theorem slot_filter {other : String} (h : name ≠ other) :
    Slot name f (members.filter fun m => m.1 ≠ other) before after
      ↔ Slot name f members before after := by
  have hname : name ∈ (members.filter fun m => m.1 ≠ other).map Prod.fst
      ↔ name ∈ members.map Prod.fst := by
    simp [h]
  have hvalue : ∀ value, (name, value) ∈ members.filter (fun m => m.1 ≠ other)
      ↔ (name, value) ∈ members := by
    simp [h]
  simp only [Slot, hname, hvalue]

theorem nodup_filter (h : (members.map Prod.fst).Nodup) (test : String × Document → Bool) :
    ((members.filter test).map Prod.fst).Nodup :=
  h.sublist (List.filter_sublist.map _)

end

theorem mapM_eq_some_iff {α β : Type} {f : α → Option β} {as : List α} {bs : List β} :
    as.mapM f = some bs ↔ List.Forall₂ (fun a b => f a = some b) as bs := by
  induction as generalizing bs with
  | nil => cases bs <;> simp
  | cons a as ih =>
      cases bs with
      | nil => simp [Option.bind_eq_some_iff]
      | cons b bs => simp [Option.bind_eq_some_iff, ih, and_left_comm]

section
variable {β : Type} {fields : List (String × β)}

theorem lookup_eq_some_iff_mem (h : (fields.map Prod.fst).Nodup) {name : String} {value : β} :
    fields.lookup name = some value ↔ (name, value) ∈ fields := by
  induction fields with
  | nil => simp
  | cons field fields ih =>
      obtain ⟨key, first⟩ := field
      rw [List.map_cons, List.nodup_cons] at h
      by_cases hkey : name = key
      · subst hkey
        have hrest : (name, value) ∉ fields := fun hmem =>
          h.1 (List.mem_map_of_mem hmem : (name, value).1 ∈ fields.map Prod.fst)
        simp [hrest, eq_comm]
      · have hbeq : (name == key) = false := beq_eq_false_iff_ne.mpr hkey
        simp only [List.lookup_cons, hbeq, ih h.2, List.mem_cons, Prod.mk.injEq, hkey, false_and,
          false_or]

theorem lookup_eq_none_iff_notMem {name : String} :
    fields.lookup name = none ↔ name ∉ fields.map Prod.fst := by
  rw [List.lookup_eq_none_iff]
  constructor
  · rintro h hmem
    obtain ⟨field, hfield, rfl⟩ := List.mem_map.mp hmem
    simpa using h field hfield
  · intro h field hfield
    rw [bne_iff_ne]
    rintro rfl
    exact h (List.mem_map_of_mem hfield)

theorem unrepeated_of_nodup {fields : Fields} (h : (fields.map Prod.fst).Nodup)
    (known : List String) : unrepeated known fields = true := by
  rw [unrepeated, List.all_eq_true]
  intro name _
  have hcount := List.nodup_iff_count_le_one.mp h name
  rw [List.count, List.countP_map, List.countP_eq_length_filter] at hcount
  simpa [Function.comp_def] using hcount

end

/-! The fields of a report. -/

/-- The fields of which the values of members are read. -/
def Reads (members : List (String × Document)) (fields : Fields) : Prop :=
  List.Forall₂ (fun m field => Prod.mk m.1 <$> m.2.read? reportLevels = some field) members fields

theorem foldlM_field? {members : List (String × Document)} {fields : Fields} :
    members.foldlM field? [] = some fields ↔ Reads members fields := by
  have hfold := Json.Read.foldlM_append
    (fun m : String × Document => Prod.mk m.1 <$> m.2.read? reportLevels) members []
  rw [Reads, ← mapM_eq_some_iff]
  change members.foldlM (fun before m => Option.map _ _) [] = some fields ↔ _
  rw [hfold]
  simp

namespace Reads

variable {members : List (String × Document)} {fields : Fields}

theorem names (h : Reads members fields) : fields.map Prod.fst = members.map Prod.fst := by
  induction h with
  | nil => rfl
  | cons hfield htail ih =>
      obtain ⟨value, -, rfl⟩ := Option.map_eq_some_iff.mp hfield
      rw [List.map_cons, List.map_cons, ih]

theorem mem_iff (h : Reads members fields) {name : String} {value : Value} :
    (name, value) ∈ fields
      ↔ ∃ document, (name, document) ∈ members ∧ document.read? reportLevels = some value := by
  induction h with
  | nil => simp
  | @cons m field members fields hfield htail ih =>
      obtain ⟨first, hfirst, rfl⟩ := Option.map_eq_some_iff.mp hfield
      obtain ⟨key, document⟩ := m
      have hvalue : document.read? reportLevels = some value ↔ value = first := by
        rw [hfirst, Option.some.injEq, eq_comm]
      simp [ih, or_and_right, exists_or, and_assoc, hvalue]

theorem exists_of_isSome {members : List (String × Document)}
    (h : ∀ m ∈ members, (m.2.read? reportLevels).isSome) : ∃ fields, Reads members fields := by
  induction members with
  | nil => exact ⟨[], .nil⟩
  | cons m members ih =>
      obtain ⟨value, hvalue⟩ := Option.isSome_iff_exists.mp (h m List.mem_cons_self)
      obtain ⟨fields, hfields⟩ := ih fun m hm => h m (List.mem_cons_of_mem _ hm)
      exact ⟨(m.1, value) :: fields, .cons (by rw [hvalue]; rfl) hfields⟩

end Reads

/-! What a document tells. -/

/-- A member of a name is the literal of an integer. -/
def HasInteger (members : List (String × Document)) (name : String) (z : ℤ) : Prop :=
  ∃ literal : NumberText, (name, .number literal) ∈ members ∧ literal.IsInteger z

/-- The members give the kind of a report and the value of each of its fields. The flags may
be left out, and are zero then. -/
structure Tells (members : List (String × Document)) (report : Report) : Prop where
  kind : ("type", .string report.kind.name) ∈ members
  values : ∀ v ∈ report.values, HasInteger members v.1 v.2
    ∨ v = ("flags", 0) ∧ "flags" ∉ members.map Prod.fst

/-! Reports. -/

theorem kindOf?_eq_some_iff {document : Document} {kind : ReportKind} :
    kindOf? document = some kind ↔ document = .string kind.name := by
  cases document <;> simp [kindOf?, Document.string?, ofName?_eq_some_iff]

theorem type_notMem_fields (kind : ReportKind) : "type" ∉ kind.fields := by
  cases kind <;> decide

theorem name_ne_type {report : Report} {v : String × ℤ} (h : v ∈ report.values) :
    v.1 ≠ "type" := by
  intro hname
  refine type_notMem_fields report.kind ?_
  rw [← values_names, ← hname]
  exact List.mem_map_of_mem h

section
variable {members : List (String × Document)}

theorem fieldIs_iff {fields : Fields} (hnodup : (members.map Prod.fst).Nodup)
    (hreads : Reads (members.filter fun m => m.1 ≠ "type") fields) {v : String × ℤ}
    (hname : v.1 ≠ "type") (hrange : InRange v) :
    FieldIs fields v
      ↔ HasInteger members v.1 v.2 ∨ v = ("flags", 0) ∧ "flags" ∉ members.map Prod.fst := by
  have hfields : (fields.map Prod.fst).Nodup := by
    rw [hreads.names]
    exact nodup_filter hnodup _
  have hvalue : fields.lookup v.1 = some (.integer v.2) ↔ HasInteger members v.1 v.2 := by
    rw [lookup_eq_some_iff_mem hfields, hreads.mem_iff]
    have hwithin := fieldRange_within v.1
    have hlow := hwithin.1.trans hrange.1
    have hhigh := hrange.2.trans_lt hwithin.2
    simp only [Document.read?_eq_integer_iff, HasInteger]
    constructor
    · rintro ⟨-, hmem, literal, rfl, hinteger, -⟩
      exact ⟨literal, List.mem_of_mem_filter hmem, hinteger⟩
    · rintro ⟨literal, hmem, hinteger⟩
      exact ⟨_, List.mem_filter.mpr ⟨hmem, by simpa using hname⟩, literal, rfl, hinteger,
        hlow, hhigh⟩
  have hflags : fields.lookup "flags" = none ↔ "flags" ∉ members.map Prod.fst := by
    rw [lookup_eq_none_iff_notMem, hreads.names]
    simp
  rw [FieldIs, hvalue, hflags]

theorem eq_of_name (hnodup : (members.map Prod.fst).Nodup) {m : String × Document}
    (hm : m ∈ members) {value : Document} (h : (m.1, value) ∈ members) : m.2 = value := by
  have heq := List.inj_on_of_nodup_map hnodup hm h rfl
  rw [heq]

theorem Tells.readable {report : Report} (h : Tells members report)
    (hplain : PlainReport (.object members)) {m : String × Document} (hm : m ∈ members)
    (hname : m.1 ≠ "type") : (m.2.read? reportLevels).isSome := by
  by_cases hknown : m.1 ∈ report.kind.fields
  · rw [← values_names] at hknown
    obtain ⟨v, hv, hvname⟩ := List.mem_map.mp hknown
    obtain ⟨literal, hliteral, hinteger⟩ | ⟨rfl, hflags⟩ := h.values v hv
    · have hwithin := fieldRange_within v.1
      have hrange := values_inRange report v hv
      have hread : (Document.number literal).read? reportLevels = some (.integer v.2) :=
        Document.read?_eq_integer_iff.mpr ⟨literal, rfl, hinteger,
          hwithin.1.trans hrange.1, hrange.2.trans_lt hwithin.2⟩
      rw [hvname] at hliteral
      rw [eq_of_name hplain.1 hm hliteral, hread]
      rfl
    · have hmem : m.1 ∈ members.map Prod.fst := List.mem_map_of_mem hm
      rw [← hvname] at hmem
      exact absurd hmem hflags
  · have hunknown : m.1 ∉ "type" :: report.kind.fields := by simp [hname, hknown]
    have hscalar := ((hplain.2 _ h.kind).unknown m hm hunknown).scalar
    rw [Document.read?_of_scalar hscalar]
    exact hscalar

theorem reportOf?_eq_some_iff (hplain : PlainReport (.object members)) {report : Report} :
    reportOf? (.object members) = some report ↔ Tells members report := by
  simp only [reportOf?, Option.bind_eq_bind, Option.bind_eq_some_iff, Prod.exists,
    foldlM_beside? hplain.1, foldlM_field?]
  constructor
  · rintro ⟨-, fields, ⟨hslot, hreads⟩, kind, rfl, h⟩
    obtain ⟨value, hvalue, hkind⟩ := slot_some_iff.mp hslot
    obtain rfl := kindOf?_eq_some_iff.mp hkind
    rw [Option.ite_none_right_eq_some] at h
    obtain ⟨rfl, hvalues⟩ := report?_eq_some_iff.mp h.2
    exact ⟨hvalue, fun v hv => (fieldIs_iff hplain.1 hreads (name_ne_type hv)
      (values_inRange report v hv)).mp (hvalues v hv)⟩
  · intro h
    have hreadable : ∀ m ∈ members.filter (fun m => m.1 ≠ "type"),
        (m.2.read? reportLevels).isSome := fun m hm =>
      h.readable hplain (List.mem_of_mem_filter hm) (by simpa using (List.mem_filter.mp hm).2)
    obtain ⟨fields, hreads⟩ := Reads.exists_of_isSome hreadable
    have hfields : (fields.map Prod.fst).Nodup := by
      rw [hreads.names]
      exact nodup_filter hplain.1 _
    refine ⟨some report.kind, fields, ⟨slot_some_iff.mpr ⟨_, h.kind, kindOf?_eq_some_iff.mpr rfl⟩,
      hreads⟩, _, rfl, ?_⟩
    rw [if_pos (unrepeated_of_nodup hfields _), report?_eq_some_iff]
    exact ⟨rfl, fun v hv => (fieldIs_iff hplain.1 hreads (name_ne_type hv)
      (values_inRange report v hv)).mpr (h.values v hv)⟩

end

def TellsReport : Document → Report → Prop
  | .object members, report => Tells members report
  | _, _ => False

/-- The time and the report of an entry. -/
def TellsEntry : Document → Entry → Prop
  | .object members, entry =>
      (∃ literal number, ("t", .number literal) ∈ members
        ∧ Number.ofText? literal = some number ∧ entry.time = number.toFloat)
      ∧ ∃ report, ("report", report) ∈ members ∧ TellsReport report entry.report
  | _, _ => False

/-- The name of a recording, which is empty if there is none, and its entries one by one. -/
def TellsRecording : Document → Recording → Prop
  | .object members, recording =>
      (("name", .string recording.name) ∈ members
        ∨ recording.name = "" ∧ "name" ∉ members.map Prod.fst)
      ∧ ∃ items, ("entries", .array items) ∈ members
        ∧ List.Forall₂ TellsEntry items recording.entries
  | _, _ => False

theorem reportOf?_iff {document : Document} (hplain : PlainReport document) {report : Report} :
    reportOf? document = some report ↔ TellsReport document report := by
  cases document with
  | object members => exact reportOf?_eq_some_iff hplain
  | _ => simp [reportOf?, TellsReport]

theorem float?_eq_some_iff {document : Document} {x : Binary64} :
    document.float? = some x ↔ ∃ literal number, document = .number literal
      ∧ Number.ofText? literal = some number ∧ x = number.toFloat := by
  cases document <;> simp [Document.float?, eq_comm]

theorem string?_eq_some_iff {document : Document} {text : String} :
    document.string? = some text ↔ document = .string text := by
  cases document <;> simp [Document.string?]

theorem entryOf?_iff {document : Document} (hplain : PlainEntry document) {entry : Entry} :
    entryOf? document = some entry ↔ TellsEntry document entry := by
  cases document with
  | object members =>
      simp only [entryOf?, Option.bind_eq_bind, Option.bind_eq_some_iff, Prod.exists,
        foldlM_beside? hplain.1.nodup, foldlM_once? (nodup_filter hplain.1.nodup _),
        slot_filter (show "report" ≠ "t" by decide)]
      constructor
      · rintro ⟨-, -, ⟨htime, hreport⟩, time, rfl, report, rfl, h⟩
        obtain rfl := Option.some.inj h
        obtain ⟨value, ht, hvalue⟩ := slot_some_iff.mp htime
        obtain ⟨literal, number, rfl, hnumber⟩ := float?_eq_some_iff.mp hvalue
        obtain ⟨told, hmember, htold⟩ := slot_some_iff.mp hreport
        exact ⟨⟨literal, number, ht, hnumber⟩, told, hmember,
          (reportOf?_iff (hplain.2 told hmember)).mp htold⟩
      · rintro ⟨⟨literal, number, ht, hnumber⟩, told, hmember, htold⟩
        have htime := float?_eq_some_iff.mpr ⟨literal, number, rfl, hnumber⟩
        have hreport := (reportOf?_iff (hplain.2 told hmember)).mpr htold
        exact ⟨some entry.time, some entry.report, ⟨slot_some_iff.mpr ⟨_, ht, htime⟩,
          slot_some_iff.mpr ⟨told, hmember, hreport⟩⟩, _, rfl, _, rfl, rfl⟩
  | _ => simp [entryOf?, TellsEntry]

theorem entriesOf?_iff {items : List Document} (hplain : ∀ item ∈ items, PlainEntry item)
    {entries : List Entry} :
    entriesOf? (.array items) = some entries ↔ List.Forall₂ TellsEntry items entries := by
  rw [entriesOf?, mapM_eq_some_iff]
  induction items generalizing entries with
  | nil => simp
  | cons item items ih =>
      cases entries with
      | nil => simp
      | cons entry entries =>
          rw [List.forall₂_cons, List.forall₂_cons, entryOf?_iff (hplain item List.mem_cons_self),
            ih fun other hother => hplain other (List.mem_cons_of_mem item hother)]

theorem entries_of_isSome {document : Document} {entries : List Entry}
    (h : entriesOf? document = some entries) : ∃ items, document = .array items := by
  cases document with
  | array items => exact ⟨items, rfl⟩
  | _ => cases h

theorem recordingOf?_iff {document : Document} (hplain : PlainRecording document)
    {recording : Recording} :
    recordingOf? document = some recording ↔ TellsRecording document recording := by
  cases document with
  | object members =>
      simp only [recordingOf?, Option.bind_eq_bind, Option.bind_eq_some_iff, Prod.exists,
        foldlM_beside? hplain.1.nodup, foldlM_once? (nodup_filter hplain.1.nodup _),
        slot_filter (show "entries" ≠ "name" by decide)]
      constructor
      · rintro ⟨name, -, ⟨hname, hentries⟩, entries, rfl, h⟩
        obtain rfl := Option.some.inj h
        obtain ⟨value, hmember, hvalue⟩ := slot_some_iff.mp hentries
        obtain ⟨items, rfl⟩ := entries_of_isSome hvalue
        refine ⟨?_, items, hmember, (entriesOf?_iff (hplain.2 items hmember)).mp hvalue⟩
        obtain ⟨hnone, rfl⟩ | ⟨-, value, text, hmem, htext, rfl⟩ := hname
        · exact .inr ⟨rfl, hnone⟩
        · exact .inl (string?_eq_some_iff.mp htext ▸ hmem)
      · rintro ⟨hname, items, hmember, hitems⟩
        have hentries := slot_some_iff.mpr
          ⟨_, hmember, (entriesOf?_iff (hplain.2 items hmember)).mpr hitems⟩
        obtain hmem | ⟨hempty, hnone⟩ := hname
        · have hslot := slot_some_iff.mpr ⟨_, hmem, string?_eq_some_iff.mpr rfl⟩
          exact ⟨some recording.name, some recording.entries, ⟨hslot, hentries⟩, _, rfl, rfl⟩
        · refine ⟨none, some recording.entries, ⟨.inl ⟨hnone, rfl⟩, hentries⟩, _, rfl, ?_⟩
          rw [Option.getD_none, ← hempty]
          rfl
  | _ => simp [recordingOf?, TellsRecording]

end GnssFusion.Recording
