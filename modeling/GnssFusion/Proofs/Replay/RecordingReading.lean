import GnssFusion.Proofs.Json.Values
import GnssFusion.Proofs.Replay.ReportFields

/-!
Recordings read from the texts of documents. A recording, an entry and a report that are
objects are folds over their members (`recordingOf?`, `entryOf?`, `reportOf?`), whatever
text the document has (`parse_writes`).
-/

namespace GnssFusion.Recording

open Json Json.Read

/-! The documents whose unknown members are plain. -/

/-- The members have different names, and those that are not known hold plain values. -/
structure PlainMembers (known : List String) (members : List (String × Document)) : Prop where
  nodup : (members.map Prod.fst).Nodup
  unknown : ∀ m ∈ members, m.1 ∉ known → m.2.IsPlain

def PlainReport : Document → Prop
  | .array _ => False
  | .object members => (members.map Prod.fst).Nodup
      ∧ ∀ kind : ReportKind, ("type", .string kind.name) ∈ members →
          PlainMembers ("type" :: kind.fields) members
  | _ => True

def PlainEntry : Document → Prop
  | .array _ => False
  | .object members => PlainMembers ["t", "report"] members
      ∧ ∀ report, ("report", report) ∈ members → PlainReport report
  | _ => True

def PlainRecording : Document → Prop
  | .array _ => False
  | .object members => PlainMembers ["name", "entries"] members
      ∧ ∀ items, ("entries", .array items) ∈ members → ∀ item ∈ items, PlainEntry item
  | _ => True

/-! What documents hold. -/

def kindOf? (document : Document) : Option ReportKind := document.string?.bind ReportKind.ofName?

/-- Takes the value of a member that may be given once, and passes over the others. -/
def once? {α : Type} (name : String) (f : Document → Option α) (before : Option α)
    (m : String × Document) : Option (Option α) :=
  if m.1 = name then if before.isSome then none else (f m.2).map some else some before

/-- Takes the value of a member that may be given once, and leaves the others to `others`. -/
def beside? {α β : Type} (name : String) (f : Document → Option α)
    (others : β → String × Document → Option β) (before : Option α × β)
    (m : String × Document) : Option (Option α × β) :=
  if m.1 = name then if before.1.isSome then none else (f m.2).map fun a => (some a, before.2)
  else (others before.2 m).map fun b => (before.1, b)

def field? (before : Fields) (m : String × Document) : Option Fields :=
  (Prod.mk m.1 <$> m.2.read? reportLevels).map fun field => before ++ [field]

def reportOf? : Document → Option Report
  | .object members => do
      let (kind, fields) ← members.foldlM (beside? "type" kindOf? field?) (none, [])
      let kind ← kind
      if unrepeated kind.fields fields then report? kind fields else none
  | _ => none

def entryOf? : Document → Option Entry
  | .object members => do
      let (time, report) ←
        members.foldlM (beside? "t" Document.float? (once? "report" reportOf?)) (none, none)
      return ⟨← time, ← report⟩
  | _ => none

def entriesOf? : Document → Option (List Entry)
  | .array items => items.mapM entryOf?
  | _ => none

def recordingOf? : Document → Option Recording
  | .object members => do
      let (name, entries) ←
        members.foldlM (beside? "name" Document.string? (once? "entries" entriesOf?)) (none, none)
      return ⟨name.getD "", ← entries⟩
  | _ => none

/-! Reading. -/

@[simp] theorem result?_require {α : Type} (a : Option α) (text : List Char) :
    result? (require a) text = a.map (·, text) := by
  cases a <;> rfl

theorem readKind_yields {document : Document} {text : List Char} (h : Spells document text) :
    Yields readKind text (kindOf? document) := by
  intro before rest hbefore hrest
  simp only [readKind, result?_bind, text_yields h hbefore hrest, kindOf?, result?_require]
  cases document.string? <;> rfl

theorem reportMember_yields {m : String × Document} {text : List Char} (h : Spells m.2 text)
    (before : Option ReportKind × Fields) :
    YieldsMember (reportMember reportLevels before m.1) text
      (beside? "type" kindOf? field? before m) := by
  obtain ⟨kind, fields⟩ := before
  intro after space rest hafter hspace hrest
  simp only [reportMember, beside?]
  split
  · cases kind with
    | some kind => rfl
    | none =>
        simp only [Option.isSome_none, Bool.false_eq_true, if_false, result?_bind,
          result?_colon hafter, Option.bind_some, readKind_yields h hspace hrest, result?_pure]
        cases kindOf? m.2 <;> rfl
  · simp only [result?_bind, result?_colon hafter, Option.bind_some,
      value_yields reportLevels h hspace hrest, result?_pure, field?]
    cases m.2.read? reportLevels <;> rfl

theorem readReport_yields {document : Document} {text : List Char} (h : Spells document text)
    (hplain : PlainReport document) :
    Yields (readReport reportLevels) text (reportOf? document) := by
  intro before rest hbefore hrest
  obtain ⟨c, hc, htoken⟩ := result?_token_spells h hbefore rest
  rw [readReport, result?_bind, htoken, Option.bind_some]
  cases hc with
  | array items => exact hplain.elim
  | object members =>
      cases h with | object h =>
      have hmembers := result?_members h (fun m _ _ hvalue s => reportMember_yields hvalue s)
        (none, []) rest
      simp only [result?_bind, hmembers, reportOf?]
      cases members.foldlM (beside? "type" kindOf? field?) (none, []) with
      | none => rfl
      | some after =>
          obtain ⟨kind, fields⟩ := after
          cases kind with
          | none => rfl
          | some kind =>
              simp only [Option.map_some, Option.bind_some, Option.bind_eq_bind, result?_require]
              split
              · exact result?_require _ _
              · rfl
  | number literal hc =>
      dsimp only
      split
      case h_1 heq => cases heq; cases hc
      case h_2 heq => cases heq; cases hc
      case h_3 => exact result?_unexpected _
  | _ => exact result?_unexpected _

theorem once_yields {α : Type} {r : Read α} {text : List Char} {outcome : Option α}
    (h : Yields r text outcome) (before : Option α) :
    YieldsMember (once before r) text (if before.isSome then none else outcome.map some) := by
  intro after space rest hafter hspace hrest
  cases before with
  | some a => rfl
  | none =>
      simp only [once, Option.isSome_none, Bool.false_eq_true, if_false, result?_bind,
        result?_colon hafter, Option.bind_some, result?_map, h hspace hrest]
      cases outcome <;> rfl

section
variable {α β : Type} {first second : String} {f : Document → Option α} {g : Document → Option β}
  {m : String × Document} {text : List Char}

theorem first_yields {r : Read α} (h : Yields r text (f m.2)) (hname : m.1 = first)
    (a : Option α) (b : Option β) : YieldsMember (do return (← once a r, b)) text
      (beside? first f (once? second g) (a, b) m) := by
  intro after space rest hafter hspace hrest
  simp only [result?_bind, once_yields h a hafter hspace hrest, result?_pure, beside?, if_pos hname]
  cases a <;> cases f m.2 <;> rfl

theorem second_yields {r : Read β} (h : Yields r text (g m.2)) (hfirst : m.1 ≠ first)
    (hname : m.1 = second) (a : Option α) (b : Option β) :
    YieldsMember (do return (a, ← once b r)) text
      (beside? first f (once? second g) (a, b) m) := by
  intro after space rest hafter hspace hrest
  simp only [result?_bind, once_yields h b hafter hspace hrest, result?_pure, beside?,
    if_neg hfirst, once?, if_pos hname]
  cases b <;> cases g m.2 <;> rfl

theorem neither_yields (h : Spells m.2 text) (hplain : m.2.IsPlain) (hfirst : m.1 ≠ first)
    (hsecond : m.1 ≠ second) (a : Option α) (b : Option β) :
    YieldsMember (do colon; skip; return (a, b)) text
      (beside? first f (once? second g) (a, b) m) := by
  intro after space rest hafter hspace hrest
  simp only [result?_bind, result?_colon hafter, Option.bind_some,
    skip_yields h hplain.scalar hspace hrest, result?_pure, Option.map_some, beside?,
    if_neg hfirst, once?, if_neg hsecond]

end

theorem entryMember_yields {m : String × Document} {text : List Char} (h : Spells m.2 text)
    (hplain : m.1 ∉ ["t", "report"] → m.2.IsPlain) (hreport : m.1 = "report" → PlainReport m.2)
    (before : Option Binary64 × Option Report) :
    YieldsMember (entryMember before m.1) text
      (beside? "t" Document.float? (once? "report" reportOf?) before m) := by
  simp only [entryMember]
  split
  case h_1 ht => exact first_yields (float_yields h) ht before.1 before.2
  case h_2 hr =>
    exact second_yields (readReport_yields h (hreport hr)) (by rw [hr]; decide) hr before.1 before.2
  case h_3 ht hr =>
    exact neither_yields h (hplain (by simpa using ⟨ht, hr⟩)) ht hr before.1 before.2

theorem readEntry_yields {document : Document} {text : List Char} (h : Spells document text)
    (hplain : PlainEntry document) : Yields readEntry text (entryOf? document) := by
  intro before rest hbefore hrest
  obtain ⟨c, hc, htoken⟩ := result?_token_spells h hbefore rest
  rw [readEntry, result?_bind, htoken, Option.bind_some]
  cases hc with
  | array items => exact hplain.elim
  | object members =>
      cases h with | object h =>
      have hmembers := result?_members h (fun m hm _ hvalue s =>
        entryMember_yields hvalue (hplain.1.unknown m hm)
          (fun hname => hplain.2 m.2 (by rwa [← hname])) s) (none, none) rest
      simp only [result?_bind, hmembers, entryOf?]
      cases members.foldlM
          (beside? "t" Document.float? (once? "report" reportOf?)) (none, none) with
      | none => rfl
      | some after =>
          obtain ⟨time, report⟩ := after
          cases time <;> cases report <;> rfl
  | number literal hc =>
      dsimp only
      split
      case h_1 heq => cases heq; cases hc
      case h_2 heq => cases heq; cases hc
      case h_3 => exact result?_unexpected _
  | _ => exact result?_unexpected _

theorem readEntries_yields {document : Document} {text : List Char} (h : Spells document text)
    (hplain : ∀ items, document = .array items → ∀ item ∈ items, PlainEntry item) :
    Yields readEntries text (entriesOf? document) := by
  intro before rest hbefore hrest
  obtain ⟨c, hc, htoken⟩ := result?_token_spells h hbefore rest
  rw [readEntries, result?_bind, htoken, Option.bind_some]
  cases hc with
  | array items =>
      cases h with | array h =>
      exact result?_elements h visible_of_spells
        (fun item hitem _ hspells => readEntry_yields hspells (hplain items rfl item hitem)) rest
  | number literal hc =>
      have hbracket : c ≠ '[' := by
        rintro rfl
        cases hc
      simp [hbracket, entriesOf?]
  | _ => exact result?_unexpected _

theorem recordingMember_yields {m : String × Document} {text : List Char} (h : Spells m.2 text)
    (hplain : m.1 ∉ ["name", "entries"] → m.2.IsPlain)
    (hentries : m.1 = "entries" → ∀ items, m.2 = .array items → ∀ item ∈ items, PlainEntry item)
    (before : Option String × Option (List Entry)) :
    YieldsMember (recordingMember before m.1) text
      (beside? "name" Document.string? (once? "entries" entriesOf?) before m) := by
  simp only [recordingMember]
  split
  case h_1 hn => exact first_yields (text_yields h) hn before.1 before.2
  case h_2 he =>
    exact second_yields (readEntries_yields h (hentries he)) (by rw [he]; decide) he
      before.1 before.2
  case h_3 hn he =>
    exact neither_yields h (hplain (by simpa using ⟨hn, he⟩)) hn he before.1 before.2

theorem read_yields {document : Document} {text : List Char} (h : Spells document text)
    (hplain : PlainRecording document) : Yields read text (recordingOf? document) := by
  intro before rest hbefore hrest
  obtain ⟨c, hc, htoken⟩ := result?_token_spells h hbefore rest
  rw [read, result?_bind, htoken, Option.bind_some]
  cases hc with
  | array items => exact hplain.elim
  | object members =>
      cases h with | object h =>
      have hmembers := result?_members h (fun m hm _ hvalue s =>
        recordingMember_yields hvalue (hplain.1.unknown m hm)
          (fun hname items hitems => hplain.2 items (by rw [← hname, ← hitems]; exact hm)) s)
        (none, none) rest
      simp only [result?_bind, hmembers, recordingOf?]
      cases members.foldlM
          (beside? "name" Document.string? (once? "entries" entriesOf?)) (none, none) with
      | none => rfl
      | some after =>
          obtain ⟨name, entries⟩ := after
          cases entries <;> rfl
  | number literal hc =>
      dsimp only
      split
      case h_1 heq => cases heq; cases hc
      case h_2 heq => cases heq; cases hc
      case h_3 heq => cases heq
      case h_4 => exact result?_unexpected _
  | _ => exact result?_unexpected _

theorem toOption_parse (text : String) :
    (parse text).toOption
      = (result? read text.toList).bind fun p => (result? finish p.2).map fun _ => p.1 := by
  rw [parse, result?]
  cases read.run text.toList with
  | error fault => rfl
  | ok p =>
      obtain ⟨recording, rest⟩ := p
      change Except.toOption (finish.run rest >>= fun _ => _) = Option.map _ (result? finish rest)
      rw [result?]
      cases finish.run rest <;> rfl

theorem result?_finish {blank : List Char} (h : Blank blank) :
    result? finish blank = some ((), []) := by
  have hdrop : (blank ++ []).dropWhile isSpace = [] := List.dropWhile_append_of_pos h
  rw [List.append_nil] at hdrop
  simp [finish, hdrop]

/-- The outcome of parsing depends on the document only, whatever text it has. -/
theorem parse_writes {document : Document} {text : String} (h : Writes document text)
    (hplain : PlainRecording document) : (parse text).toOption = recordingOf? document := by
  cases h with
  | mk hbefore hspells hafter =>
      have hread := read_yields hspells hplain hbefore (stops_of_blank hafter stops_nil)
      rw [List.append_nil] at hread
      rw [toOption_parse, String.toList_ofList, hread]
      cases recordingOf? document with
      | none => rfl
      | some recording => simp [result?_finish hafter]

end GnssFusion.Recording
