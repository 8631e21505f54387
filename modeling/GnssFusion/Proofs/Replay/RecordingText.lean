import GnssFusion.Proofs.Json.Accuracy
import GnssFusion.Proofs.Replay.Decoding

/-!
The recordings that texts are parsed as. The documents that tell a recording are known by
their members (`exists_tellsRecording_iff`), and telling does not depend on the order of
these (`tellsRecording_iff`). Neither does parsing, then, which takes exactly the texts of
such documents (`parse_told`). The time of an entry is the one value that a text can give
too precisely: the literal of the greatest finite number is not taken
(`parse_greatest_fails`).
-/

namespace GnssFusion.Recording

open Json

/-! Documents that tell a recording. -/

/-- The kind of a report and its fields are given, each as an integer that it can hold. -/
def AcceptableReport : Document → Prop
  | .object members => ∃ kind : ReportKind, ("type", .string kind.name) ∈ members
      ∧ ∀ name ∈ kind.fields, (∃ z, HasInteger members name z ∧ InRange (name, z))
        ∨ name = "flags" ∧ "flags" ∉ members.map Prod.fst
  | _ => False

/-- The times are literals of the kind that is given. -/
def AcceptableEntry (isTime : NumberText → Prop) : Document → Prop
  | .object members => (∃ literal, ("t", .number literal) ∈ members ∧ isTime literal)
      ∧ ∃ report, ("report", report) ∈ members ∧ AcceptableReport report
  | _ => False

/-- There are entries, and a name if any is a text. -/
def AcceptableRecording (isTime : NumberText → Prop) : Document → Prop
  | .object members =>
      ((∃ name, ("name", .string name) ∈ members) ∨ "name" ∉ members.map Prod.fst)
      ∧ ∃ items, ("entries", .array items) ∈ members
        ∧ ∀ item ∈ items, AcceptableEntry isTime item
  | _ => False

/-- The literals that are read as numbers. -/
def IsRead (literal : NumberText) : Prop := (Number.ofText? literal).isSome

theorem exists_tells_iff {members : List (String × Document)} :
    (∃ report, Tells members report) ↔ AcceptableReport (.object members) := by
  constructor
  · rintro ⟨report, htells⟩
    refine ⟨report.kind, htells.kind, fun name hname => ?_⟩
    rw [← values_names] at hname
    obtain ⟨v, hv, rfl⟩ := List.mem_map.mp hname
    obtain hinteger | ⟨rfl, hflags⟩ := htells.values v hv
    · exact .inl ⟨v.2, hinteger, values_inRange report v hv⟩
    · exact .inr ⟨rfl, hflags⟩
  · rintro ⟨kind, hkind, hfields⟩
    have hvalue : ∀ name, ∃ z, name ∈ kind.fields → InRange (name, z)
        ∧ (HasInteger members name z
          ∨ (name, z) = ("flags", 0) ∧ "flags" ∉ members.map Prod.fst) := by
      intro name
      by_cases hname : name ∈ kind.fields
      · obtain ⟨z, hinteger, hrange⟩ | ⟨rfl, hflags⟩ := hfields name hname
        · exact ⟨z, fun _ => ⟨hrange, .inl hinteger⟩⟩
        · exact ⟨0, fun _ => ⟨by decide, .inr ⟨rfl, hflags⟩⟩⟩
      · exact ⟨0, fun hmem => absurd hmem hname⟩
    choose f hf using hvalue
    obtain ⟨report, rfl, hvalues⟩ := exists_report kind fun name hname => (hf name hname).1
    refine ⟨report, hkind, fun v hv => ?_⟩
    rw [hvalues] at hv
    obtain ⟨name, hname, rfl⟩ := List.mem_map.mp hv
    exact (hf name hname).2

theorem exists_tellsReport_iff {document : Document} :
    (∃ report, TellsReport document report) ↔ AcceptableReport document := by
  cases document with
  | object members => exact exists_tells_iff
  | _ => simp [TellsReport, AcceptableReport]

theorem exists_tellsEntry_iff {document : Document} :
    (∃ entry, TellsEntry document entry) ↔ AcceptableEntry IsRead document := by
  cases document with
  | object members =>
      constructor
      · rintro ⟨entry, ⟨literal, number, ht, hnumber, -⟩, told, hmember, htold⟩
        exact ⟨⟨literal, ht, by rw [IsRead, hnumber]; rfl⟩, told, hmember,
          exists_tellsReport_iff.mp ⟨entry.report, htold⟩⟩
      · rintro ⟨⟨literal, ht, hread⟩, told, hmember, hacceptable⟩
        obtain ⟨number, hnumber⟩ := Option.isSome_iff_exists.mp hread
        obtain ⟨report, htold⟩ := exists_tellsReport_iff.mpr hacceptable
        exact ⟨⟨number.toFloat, report⟩, ⟨literal, number, ht, hnumber, rfl⟩, told, hmember, htold⟩
  | _ => simp [TellsEntry, AcceptableEntry]

theorem exists_forall₂_iff {α β : Type} {R : α → β → Prop} {as : List α} :
    (∃ bs, List.Forall₂ R as bs) ↔ ∀ a ∈ as, ∃ b, R a b := by
  induction as with
  | nil => simp
  | cons a as ih =>
      constructor
      · rintro ⟨bs, hbs⟩
        cases hbs with
        | cons hhead htail => exact List.forall_mem_cons.mpr ⟨⟨_, hhead⟩, ih.mp ⟨_, htail⟩⟩
      · intro h
        obtain ⟨⟨b, hb⟩, hrest⟩ := List.forall_mem_cons.mp h
        obtain ⟨bs, hbs⟩ := ih.mpr hrest
        exact ⟨b :: bs, .cons hb hbs⟩

theorem exists_tellsRecording_iff {document : Document} :
    (∃ recording, TellsRecording document recording) ↔ AcceptableRecording IsRead document := by
  cases document with
  | object members =>
      constructor
      · rintro ⟨recording, hname, items, hmember, hitems⟩
        refine ⟨hname.imp (fun h => ⟨_, h⟩) And.right, items, hmember, fun item hitem => ?_⟩
        exact exists_tellsEntry_iff.mp (exists_forall₂_iff.mp ⟨_, hitems⟩ item hitem)
      · rintro ⟨hname, items, hmember, hitems⟩
        obtain ⟨entries, hentries⟩ := exists_forall₂_iff.mpr fun item hitem =>
          exists_tellsEntry_iff.mpr (hitems item hitem)
        obtain ⟨name, hname⟩ | hnone := hname
        · exact ⟨⟨name, entries⟩, .inl hname, items, hmember, hentries⟩
        · exact ⟨⟨"", entries⟩, .inr ⟨rfl, hnone⟩, items, hmember, hentries⟩
  | _ => simp [TellsRecording, AcceptableRecording]

/-! The order of members. -/

theorem forall₂_mem_left {α β : Type} {R : α → β → Prop} {as : List α} {bs : List β}
    (h : List.Forall₂ R as bs) {a : α} (ha : a ∈ as) : ∃ b ∈ bs, R a b := by
  induction h with
  | nil => cases ha
  | cons hhead htail ih =>
      obtain rfl | ha := List.mem_cons.mp ha
      · exact ⟨_, List.mem_cons_self, hhead⟩
      · obtain ⟨b, hb, hr⟩ := ih ha
        exact ⟨b, List.mem_cons_of_mem _ hb, hr⟩

/-- The members of an object and those of a reordered one, name by name. -/
structure SameMembers (members members' : List (String × Document)) : Prop where
  names : (members.map Prod.fst).Perm (members'.map Prod.fst)
  forth : ∀ {name value}, (name, value) ∈ members →
    ∃ value', (name, value') ∈ members' ∧ Reordered value value'
  back : ∀ {name value'}, (name, value') ∈ members' →
    ∃ value, (name, value) ∈ members ∧ Reordered value value'

theorem names_eq {members members' : List (String × Document)}
    (h : List.Forall₂ (ReorderedMember Reordered) members members') :
    members.map Prod.fst = members'.map Prod.fst := by
  induction h with
  | nil => rfl
  | cons hhead htail ih =>
      cases hhead
      rw [List.map_cons, List.map_cons, ih]

theorem sameMembers {members between members' : List (String × Document)}
    (h : List.Forall₂ (ReorderedMember Reordered) members between)
    (horder : between.Perm members') : SameMembers members members' where
  names := by
    rw [names_eq h]
    exact horder.map _
  forth hmem := by
    obtain ⟨m, hm, hr⟩ := forall₂_mem_left h hmem
    cases hr with
    | mk name hvalue => exact ⟨_, horder.mem_iff.mp hm, hvalue⟩
  back hmem := by
    obtain ⟨m, hm, hr⟩ := forall₂_mem_left h.flip (horder.mem_iff.mpr hmem)
    cases hr with
    | mk name hvalue => exact ⟨_, hm, hvalue⟩

namespace SameMembers

variable {members members' : List (String × Document)} (h : SameMembers members members')
include h

theorem mem_iff {name : String} : name ∈ members.map Prod.fst ↔ name ∈ members'.map Prod.fst :=
  h.names.mem_iff

theorem number_iff {name : String} {literal : NumberText} :
    (name, .number literal) ∈ members ↔ (name, .number literal) ∈ members' := by
  constructor
  · intro hmem
    obtain ⟨value, hvalue, hr⟩ := h.forth hmem
    cases hr
    exact hvalue
  · intro hmem
    obtain ⟨value, hvalue, hr⟩ := h.back hmem
    cases hr
    exact hvalue

theorem string_iff {name text : String} :
    (name, .string text) ∈ members ↔ (name, .string text) ∈ members' := by
  constructor
  · intro hmem
    obtain ⟨value, hvalue, hr⟩ := h.forth hmem
    cases hr
    exact hvalue
  · intro hmem
    obtain ⟨value, hvalue, hr⟩ := h.back hmem
    cases hr
    exact hvalue

theorem tells_iff {report : Report} : Tells members report ↔ Tells members' report := by
  have hinteger : ∀ name z, HasInteger members name z ↔ HasInteger members' name z := by
    intro name z
    simp only [HasInteger, h.number_iff]
  constructor
  · rintro ⟨hkind, hvalues⟩
    simp only [hinteger, h.mem_iff] at hvalues
    exact ⟨h.string_iff.mp hkind, hvalues⟩
  · rintro ⟨hkind, hvalues⟩
    simp only [← hinteger, ← h.mem_iff] at hvalues
    exact ⟨h.string_iff.mpr hkind, hvalues⟩

theorem plainMembers {known : List String} (hplain : PlainMembers known members) :
    PlainMembers known members' := by
  refine ⟨h.names.nodup_iff.mp hplain.nodup, ?_⟩
  rintro ⟨name, value'⟩ hm hname
  obtain ⟨value, hvalue, hr⟩ := h.back hm
  have hvaluePlain := hplain.unknown (name, value) hvalue hname
  cases hr with
  | refl => exact hvaluePlain
  | array => cases hvaluePlain
  | object => cases hvaluePlain

end SameMembers

section
variable {document document' : Document} (h : Reordered document document')
include h

theorem tellsReport_iff {report : Report} :
    TellsReport document report ↔ TellsReport document' report := by
  cases h with
  | refl => exact Iff.rfl
  | array => exact Iff.rfl
  | object hmembers horder => exact (sameMembers hmembers horder).tells_iff

theorem tellsEntry_iff {entry : Entry} :
    TellsEntry document entry ↔ TellsEntry document' entry := by
  cases h with
  | refl => exact Iff.rfl
  | array => exact Iff.rfl
  | object hmembers horder =>
      have hsame := sameMembers hmembers horder
      simp only [TellsEntry, hsame.number_iff]
      refine and_congr_right fun _ => ⟨?_, ?_⟩
      · rintro ⟨report, hreport, htells⟩
        obtain ⟨report', hreport', hr⟩ := hsame.forth hreport
        exact ⟨report', hreport', (tellsReport_iff hr).mp htells⟩
      · rintro ⟨report', hreport', htells⟩
        obtain ⟨report, hreport, hr⟩ := hsame.back hreport'
        exact ⟨report, hreport, (tellsReport_iff hr).mpr htells⟩

omit h in
theorem tellsEntries_iff {items items' : List Document} (h : List.Forall₂ Reordered items items')
    {entries : List Entry} :
    List.Forall₂ TellsEntry items entries ↔ List.Forall₂ TellsEntry items' entries := by
  induction h generalizing entries with
  | nil => exact Iff.rfl
  | cons hhead htail ih =>
      cases entries with
      | nil => simp
      | cons entry entries => rw [List.forall₂_cons, List.forall₂_cons, tellsEntry_iff hhead, ih]

theorem tellsRecording_iff {recording : Recording} :
    TellsRecording document recording ↔ TellsRecording document' recording := by
  cases h with
  | refl => exact Iff.rfl
  | array => exact Iff.rfl
  | object hmembers horder =>
      have hsame := sameMembers hmembers horder
      simp only [TellsRecording, hsame.string_iff, hsame.mem_iff]
      refine and_congr_right fun _ => ⟨?_, ?_⟩
      · rintro ⟨items, hitems, htells⟩
        obtain ⟨value, hvalue, hr⟩ := hsame.forth hitems
        cases hr with
        | refl => exact ⟨items, hvalue, htells⟩
        | array hr => exact ⟨_, hvalue, (tellsEntries_iff hr).mp htells⟩
      · rintro ⟨items', hitems', htells⟩
        obtain ⟨value, hvalue, hr⟩ := hsame.back hitems'
        cases hr with
        | refl => exact ⟨items', hvalue, htells⟩
        | array hr => exact ⟨_, hvalue, (tellsEntries_iff hr).mpr htells⟩

theorem plainReport_of_reordered (hplain : PlainReport document) : PlainReport document' := by
  cases h with
  | refl => exact hplain
  | array => exact hplain
  | object hmembers horder =>
      have hsame := sameMembers hmembers horder
      exact ⟨hsame.names.nodup_iff.mp hplain.1, fun kind hkind =>
        hsame.plainMembers (hplain.2 kind (hsame.string_iff.mpr hkind))⟩

theorem plainEntry_of_reordered (hplain : PlainEntry document) : PlainEntry document' := by
  cases h with
  | refl => exact hplain
  | array => exact hplain
  | object hmembers horder =>
      have hsame := sameMembers hmembers horder
      refine ⟨hsame.plainMembers hplain.1, fun report' hreport' => ?_⟩
      obtain ⟨report, hreport, hr⟩ := hsame.back hreport'
      exact plainReport_of_reordered hr (hplain.2 report hreport)

theorem plainRecording_of_reordered (hplain : PlainRecording document) :
    PlainRecording document' := by
  cases h with
  | refl => exact hplain
  | array => exact hplain
  | object hmembers horder =>
      have hsame := sameMembers hmembers horder
      refine ⟨hsame.plainMembers hplain.1, fun items' hitems' item' hitem' => ?_⟩
      obtain ⟨value, hvalue, hr⟩ := hsame.back hitems'
      cases hr with
      | refl => exact hplain.2 items' hvalue item' hitem'
      | array hitems =>
          obtain ⟨item, hitem, hr⟩ := forall₂_mem_left hitems.flip hitem'
          exact plainEntry_of_reordered hr (hplain.2 _ hvalue item hitem)

end

/-! One solution. -/

/-- The literal of a whole number. -/
def wholeLiteral (n : ℕ) : NumberText := ⟨false, Nat.toDigits 10 n, none, none⟩

theorem isInteger_wholeLiteral (n : ℕ) : (wholeLiteral n).IsInteger n where
  fraction := rfl
  exponent := rfl
  zero := nofun
  value := by
    change (n : ℤ) = (digitsValue (Nat.toDigits 10 n) : ℤ)
    rw [digitsValue_toDigits]

theorem magnitude_wholeLiteral (n : ℕ) : (wholeLiteral n).magnitude = n := by
  simp [NumberText.magnitude, NumberText.fractionDigits, NumberText.power, wholeLiteral,
    digitsValue_toDigits]

theorem spells_wholeLiteral {n : ℕ} (zero : (Nat.toDigits 10 n).head? = some '0' →
    (Nat.toDigits 10 n).length = 1) :
    SpellsNumber (wholeLiteral n) (Nat.toDigits 10 n) := by
  have hdigits : IsDigits (Nat.toDigits 10 n) := ⟨Nat.toDigits_ne_nil, allDigits_toDigits n⟩
  have hspells := @SpellsNumber.mk false _ [] [] none none hdigits zero .none .none
  simpa [wholeLiteral] using hspells

theorem spells_digit {n : ℕ} (h : n < 10) :
    Spells (.number (wholeLiteral n)) [n.digitChar] := by
  have hdigits := Nat.toDigits_of_lt_base h
  have hspells := spells_wholeLiteral (n := n) fun _ => by rw [hdigits]; rfl
  rw [hdigits] at hspells
  exact .number hspells

theorem spells_member {name : String} {value : Document} {text : List Char}
    (hname : name.toList.all isOrdinary) (h : Spells value text) :
    SpellsMember Spells (name, value)
      ('"' :: (name.toList ++ ['"']) ++ ([] ++ ':' :: ([' '] ++ text))) :=
  .mk (quotes_self hname) blank_nil blank_space h

def solution : Document := .object [("type", .string "solution"),
  ("i_tow", .number (wholeLiteral 1)), ("gps_fix", .number (wholeLiteral 3)),
  ("num_sv", .number (wholeLiteral 8))]

def solutionText : String :=
  "\x7b\"type\": \"solution\", \"i_tow\": 1, \"gps_fix\": 3, \"num_sv\": 8\x7d"

theorem spells_solution : Spells solution solutionText.toList := by
  have hkind := Spells.string (quotes_self (show "solution".toList.all isOrdinary by decide))
  have htype := spells_member (show "type".toList.all isOrdinary by decide) hkind
  have htow := spells_member (show "i_tow".toList.all isOrdinary by decide)
    (spells_digit (show 1 < 10 by decide))
  have hfix := spells_member (show "gps_fix".toList.all isOrdinary by decide)
    (spells_digit (show 3 < 10 by decide))
  have hsatellites := spells_member (show "num_sv".toList.all isOrdinary by decide)
    (spells_digit (show 8 < 10 by decide))
  have hmembers := Spells.object (.first blank_nil htype (.next blank_nil blank_space htow
    (.next blank_nil blank_space hfix (.next blank_nil blank_space hsatellites (.nil blank_nil)))))
  rw [solution]
  convert hmembers using 1
  simp [solutionText]

/-- A recording of one solution, at a time. -/
def sample (time : NumberText) : Document :=
  .object [("entries", .array [.object [("t", .number time), ("report", solution)]])]

def sampleText (time : List Char) : String := String.join ["\x7b\"entries\": [\x7b\"t\": ",
  String.ofList time, ", \"report\": ", solutionText, "\x7d]\x7d"]

theorem writes_sample {time : NumberText} {text : List Char} (h : SpellsNumber time text) :
    Writes (sample time) (sampleText text) := by
  have ht := spells_member (show "t".toList.all isOrdinary by decide) (.number h)
  have hreport := spells_member (show "report".toList.all isOrdinary by decide)
    spells_solution
  have hentry := Spells.object
    (.first blank_nil ht (.next blank_nil blank_space hreport (.nil blank_nil)))
  have hentries := spells_member (show "entries".toList.all isOrdinary by decide)
    (.array (.first blank_nil hentry (.nil blank_nil)))
  have hall := Spells.object (.first blank_nil hentries (.nil blank_nil))
  have hwrites := Writes.mk blank_nil hall blank_nil
  rw [sample]
  convert hwrites using 1
  rw [← String.toList_inj]
  simp [sampleText]

theorem plain_sample (time : NumberText) : PlainRecording (sample time) := by
  have hkind : ∀ kind : ReportKind,
      ("type", .string kind.name) ∈ [("type", Document.string "solution")] → kind = .solution := by
    intro kind hkind
    cases kind <;> simp [ReportKind.name] at hkind ⊢
  have hsolution : PlainReport solution := by
    refine ⟨by decide, fun kind hmem => ?_⟩
    obtain rfl := hkind kind (by simpa using hmem)
    exact ⟨by decide, by simp [ReportKind.fields]⟩
  have hentry : PlainEntry (.object [("t", .number time), ("report", solution)]) :=
    ⟨⟨by simp, by simp⟩, by simpa using hsolution⟩
  exact ⟨⟨by simp, by simp⟩, by simpa using hentry⟩

theorem tells_solution : TellsReport solution (.solution ⟨1, 3, 0, 8⟩) where
  kind := List.mem_cons_self
  values := by
    have hwhole := isInteger_wholeLiteral
    simp only [Report.values, List.forall_mem_cons]
    exact ⟨.inl ⟨_, by simp, hwhole 1⟩, .inl ⟨_, by simp, hwhole 3⟩, .inr ⟨rfl, by decide⟩,
      .inl ⟨_, by simp, hwhole 8⟩, List.forall_mem_nil _⟩

theorem tells_sample {time : NumberText} {number : Number} (h : Number.ofText? time = some number) :
    TellsRecording (sample time) ⟨"", [⟨number.toFloat, .solution ⟨1, 3, 0, 8⟩⟩]⟩ := by
  refine ⟨.inr ⟨rfl, by simp⟩, _, List.mem_cons_self, .cons ?_ .nil⟩
  exact ⟨⟨time, number, by simp, h, rfl⟩, _, by simp, tells_solution⟩

theorem acceptable_sample_iff {isTime : NumberText → Prop} {time : NumberText} :
    AcceptableRecording isTime (sample time) ↔ isTime time := by
  have hsolution := exists_tellsReport_iff.mp ⟨_, tells_solution⟩
  simp [AcceptableRecording, AcceptableEntry, sample, hsolution]

/-! Parsing. -/

theorem parse_ok_iff {document : Document} {text : String} (hwrites : Writes document text)
    (hplain : PlainRecording document) {recording : Recording} :
    parse text = .ok recording ↔ TellsRecording document recording := by
  rw [← recordingOf?_iff hplain, ← parse_writes hwrites hplain]
  cases parse text <;> simp [Except.toOption]

theorem isFinite_time {document : Document} {recording : Recording}
    (h : TellsRecording document recording) {entry : Entry} (hentry : entry ∈ recording.entries) :
    entry.time.isFinite := by
  cases document with
  | object members =>
      obtain ⟨-, items, -, hitems⟩ := h
      obtain ⟨item, -, htells⟩ := forall₂_mem_left hitems.flip hentry
      cases item with
      | object members =>
          obtain ⟨⟨literal, number, -, hnumber, htime⟩, -⟩ := htells
          rw [htime]
          exact Number.isFinite_of_ofText? hnumber
      | _ => exact htells.elim
  | _ => exact h.elim

/-- A text whose objects hold nothing unknown but plain values is parsed exactly if its document
tells a recording, and as that recording, in whatever order the members stand. Its times are
finite. A literal below every number that its roundings can take to the bound is a time, and
one above every number that they can bring back is none. A time has the sign of its literal,
and its magnitude up to six roundings and a unit of the format. -/
theorem parse_told {document : Document} {text : String} (hwrites : Writes document text)
    (hplain : PlainRecording document) :
    ((∃ recording, parse text = .ok recording) ↔ AcceptableRecording IsRead document)
      ∧ (∀ recording, parse text = .ok recording ↔ TellsRecording document recording)
      ∧ (∀ recording, parse text = .ok recording →
          ∀ entry ∈ recording.entries, entry.time.isFinite)
      ∧ (∀ document' text', Reordered document document' → Writes document' text' →
          (parse text').toOption = (parse text).toOption)
      ∧ ∀ literal number, SpellsNumber literal number → number.length ≤ 2 ^ 30 →
          (literal.magnitude < Binary64.bound * Binary64.slack ^ 4 → IsRead literal)
          ∧ (Binary64.bound ≤ literal.magnitude * Binary64.slack ^ 4 → ¬ IsRead literal)
          ∧ ∀ read, Number.ofText? literal = some read →
            ∃ units hunits, read.toFloat = .finite literal.negative units hunits
              ∧ Binary64.Close 6 1 units (literal.magnitude * Binary64.one) := by
  refine ⟨?_, fun recording => parse_ok_iff hwrites hplain, ?_, ?_, ?_⟩
  · simp only [parse_ok_iff hwrites hplain]
    exact exists_tellsRecording_iff
  · intro recording hparse entry hentry
    exact isFinite_time ((parse_ok_iff hwrites hplain).mp hparse) hentry
  · intro document' text' hreordered hwrites'
    have hplain' := plainRecording_of_reordered hreordered hplain
    rw [parse_writes hwrites' hplain', parse_writes hwrites hplain]
    refine Option.ext fun recording => ?_
    rw [recordingOf?_iff hplain', recordingOf?_iff hplain]
    exact (tellsRecording_iff hreordered).symm
  · intro literal number hspells hlength
    refine ⟨Number.ofText?_isSome hspells hlength, fun hvalue hread => ?_,
      fun read hread => Number.exists_units_of_ofText? hspells hlength hread⟩
    rw [IsRead, Number.ofText?_eq_none hspells hlength hvalue] at hread
    cases hread

/-- Twelve seconds are parsed, and the flags that are left out are zero. -/
theorem parse_told_twelve :
    Writes (sample (wholeLiteral 12)) (sampleText ['1', '2'])
      ∧ PlainRecording (sample (wholeLiteral 12))
      ∧ parse (sampleText ['1', '2'])
        = .ok ⟨"", [⟨Binary64.ofInt 12, .solution ⟨1, 3, 0, 8⟩⟩]⟩ := by
  have hwrites : Writes (sample (wholeLiteral 12)) (sampleText ['1', '2']) :=
    writes_sample (spells_wholeLiteral (by decide))
  have hplain := plain_sample (wholeLiteral 12)
  have hnumber : Number.ofText? (wholeLiteral 12) = some (.integer 12) :=
    Number.ofText?_eq_integer_iff.mpr ⟨isInteger_wholeLiteral 12, by decide, by decide⟩
  have htells := tells_sample hnumber
  rw [Number.toFloat] at htells
  exact ⟨hwrites, hplain, ((parse_told hwrites hplain).2.1 _).mpr htells⟩

/-- The greatest finite number. -/
def greatest : ℕ := (2 ^ 53 - 1) * 2 ^ 971

/-- The literal of the greatest finite number is not parsed: as many of its digits as fit 64
bits are rounded up, as is the power of ten, and the product is beyond every finite number. -/
theorem parse_greatest_fails :
    Writes (sample (wholeLiteral greatest)) (sampleText (Nat.toDigits 10 greatest))
      ∧ PlainRecording (sample (wholeLiteral greatest))
      ∧ AcceptableRecording
        (fun literal => ∃ x : Binary64, x.isFinite ∧ x.value = literal.magnitude)
        (sample (wholeLiteral greatest))
      ∧ ∀ recording, parse (sampleText (Nat.toDigits 10 greatest)) ≠ .ok recording := by
  have hwrites : Writes (sample (wholeLiteral greatest)) (sampleText (Nat.toDigits 10 greatest)) :=
    writes_sample (spells_wholeLiteral (by decide +kernel))
  have hplain := plain_sample (wholeLiteral greatest)
  have hnone : Number.ofText? (wholeLiteral greatest) = none := by decide +kernel
  have hunits : Binary64.Representable (greatest * Binary64.one) := by decide +kernel
  have hmagnitude : (Binary64.finite false _ hunits).value = (wholeLiteral greatest).magnitude := by
    rw [Binary64.value_finite, magnitude_wholeLiteral, Nat.cast_mul,
      mul_div_cancel_right₀ _ Binary64.cast_one_pos.ne']
  refine ⟨hwrites, hplain, acceptable_sample_iff.mpr ⟨_, rfl, hmagnitude⟩, ?_⟩
  intro recording hparse
  have htells := (parse_ok_iff hwrites hplain).mp hparse
  have hread : IsRead (wholeLiteral greatest) :=
    acceptable_sample_iff.mp (exists_tellsRecording_iff.mp ⟨recording, htells⟩)
  rw [IsRead, hnone] at hread
  cases hread

end GnssFusion.Recording
