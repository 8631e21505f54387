import GnssFusion.Proofs.Settings.Nesting

/-!
What lookups answer. Keys lead through groups to an element (`Holds`), and what stands at a
path decides the answer of each lookup: which of them gives the element, which gives its
default, and which of the errors the others give (`FromTable.answers`). In a settings tree
the element and the error always carry the absolute path that was asked for.
-/

namespace GnssFusion.Settings

/-- The keys lead to the element, all but the last of them to groups. -/
inductive Holds : List (String × Element) → List String → Element → Prop
  | here {entries : List (String × Element)} {key : String} {element : Element} :
      entries.lookup key = some element → Holds entries [key] element
  | inside {entries inner : List (String × Element)} {key path : String} {keys : List String}
      {element : Element} :
      entries.lookup key = some (.group path inner) → Holds inner keys element →
      Holds entries (key :: keys) element

theorem find?_eq_some_iff {entries : List (String × Element)} {keys : List String}
    {element : Element} : find? entries keys = some element ↔ Holds entries keys element := by
  induction entries, keys using find?.induct with
  | case1 entries =>
      constructor
      · intro h
        cases h
      · intro holds
        cases holds
  | case2 entries key =>
      constructor
      · exact .here
      · intro holds
        cases holds with
        | here hlookup => exact hlookup
        | inside _ hnone => cases hnone
  | case3 entries key rest hrest own inner hlookup ih =>
      simp only [find?, hlookup, ih]
      constructor
      · exact .inside hlookup
      · intro holds
        cases holds with
        | here => exact absurd rfl hrest
        | inside hgroup hbelow =>
            cases hlookup.symm.trans hgroup
            exact hbelow
  | case4 entries key rest hrest hother =>
      simp only [find?]
      constructor
      · intro h
        cases h
      · intro holds
        cases holds with
        | here => exact absurd rfl hrest
        | inside hgroup => exact absurd hgroup (hother _ _)

namespace Group

/-- The element stands at a path: the path is the keys that lead to it, joined by dots. -/
def Holds (group : Group) (path : String) (element : Element) : Prop :=
  ∃ keys, Nameable keys ∧ joined keys = path ∧ Settings.Holds group.entries keys element

def Lacks (group : Group) (path : String) : Prop := ∀ element, ¬ group.Holds path element

/-- A group stands at the path. -/
def Branches (group : Group) (path : String) : Prop :=
  ∃ own entries, group.Holds path (.group own entries)

theorem holds_iff {group : Group} {path : String} {element : Element} :
    group.Holds path element ↔ group.find? path = some element := by
  rw [find?, find?_eq_some_iff]
  constructor
  · rintro ⟨keys, hkeys, rfl, holds⟩
    rwa [keysOf_joined hkeys.nonempty hkeys.dotless]
  · intro holds
    exact ⟨keysOf path, nameable_keysOf path, joined_keysOf path, holds⟩

theorem lacks_iff {group : Group} {path : String} :
    group.Lacks path ↔ group.find? path = none := by
  rw [Option.eq_none_iff_forall_ne_some]
  exact forall_congr' fun element => not_congr holds_iff

end Group

/-- What a setting is taken for where some kind is wanted: itself, if it is of that kind,
and an integer also for a float. -/
inductive TakenFor : Kind → Setting → Setting → Prop
  | bool (value : Bool) : TakenFor .bool (.bool value) (.bool value)
  | int (value : Int) : TakenFor .int (.int value) (.int value)
  | float (value : Binary64) : TakenFor .float (.float value) (.float value)
  | floatOfInt (value : Int) : TakenFor .float (.int value) (.float (.ofInt value))
  | str (value : String) : TakenFor .str (.str value) (.str value)

/-- A cast gives what the parameter is taken for, or tells its path and the kind wanted. -/
structure Casts {α : Type} (p : Parameter) (wanted : Kind) (setting : α → Setting)
    (result : Except Error α) : Prop where
  ok : ∀ a, result = .ok a ↔ TakenFor wanted p.value (setting a)
  error : ∀ e, result = .error e ↔
    (∀ taken, ¬ TakenFor wanted p.value taken) ∧ e = .wrongKind p.path wanted

namespace Casts

variable {α : Type} {p : Parameter} {wanted : Kind} {setting : α → Setting}
  {result : Except Error α}

theorem of_ok {a : α} (taken : TakenFor wanted p.value (setting a))
    (unique : ∀ b, TakenFor wanted p.value (setting b) → a = b) (h : result = .ok a) :
    Casts p wanted setting result := by
  subst h
  constructor
  · intro b
    refine ⟨fun hb => ?_, fun hb => congrArg _ (unique b hb)⟩
    cases hb
    exact taken
  · intro e
    exact iff_of_false (fun h => nomatch h) fun h => h.1 _ taken

theorem of_error (none : ∀ taken, ¬ TakenFor wanted p.value taken)
    (h : result = .error (.wrongKind p.path wanted)) : Casts p wanted setting result := by
  subst h
  constructor
  · intro a
    exact iff_of_false (fun h => nomatch h) (none _)
  · intro e
    exact ⟨fun h => ⟨none, (Except.error.inj h).symm⟩, fun h => congrArg _ h.2.symm⟩

end Casts

theorem casts_asBool (p : Parameter) : Casts p .bool .bool p.asBool := by
  obtain ⟨path, value⟩ := p
  cases value with
  | bool value => exact .of_ok (.bool value) (by rintro _ ⟨⟩; rfl) rfl
  | int value | float value | str value => exact .of_error (fun _ h => nomatch h) rfl

theorem casts_asInt (p : Parameter) : Casts p .int .int p.asInt := by
  obtain ⟨path, value⟩ := p
  cases value with
  | int value => exact .of_ok (.int value) (by rintro _ ⟨⟩; rfl) rfl
  | bool value | float value | str value => exact .of_error (fun _ h => nomatch h) rfl

theorem casts_asFloat (p : Parameter) : Casts p .float .float p.asFloat := by
  obtain ⟨path, value⟩ := p
  cases value with
  | int value => exact .of_ok (.floatOfInt value) (by rintro _ ⟨⟩; rfl) rfl
  | float value => exact .of_ok (.float value) (by rintro _ ⟨⟩; rfl) rfl
  | bool value | str value => exact .of_error (fun _ h => nomatch h) rfl

theorem casts_asString (p : Parameter) : Casts p .str .str p.asString := by
  obtain ⟨path, value⟩ := p
  cases value with
  | str value => exact .of_ok (.str value) (by rintro _ ⟨⟩; rfl) rfl
  | bool value | int value | float value => exact .of_error (fun _ h => nomatch h) rfl

/-- What stands at a path of a settings tree: nothing, a group, or a parameter. An element
carries the path that was asked for. -/
theorem FromTable.stands {group : Group} (tree : FromTable group) (path : String) :
    group.find? path = none ∨
    (∃ entries, group.find? path = some (.group (childPath group.path path) entries)) ∨
    ∃ value, group.find? path = some (.parameter ⟨childPath group.path path, value⟩) := by
  cases hfind : group.find? path with
  | none => exact .inl rfl
  | some element =>
      have hpath := tree.path_of_find? hfind
      cases element with
      | group own entries => exact .inr (.inl ⟨entries, by rw [← hpath]; rfl⟩)
      | parameter p => exact .inr (.inr ⟨p.value, by rw [← hpath]; rfl⟩)

/-- What the lookups of a path answer, each by what stands there. -/
structure Answers (group : Group) (path : String) : Prop where
  carries : ∀ element, group.get path = .ok element → element.path = childPath group.path path
  get : ∀ element, group.get path = .ok element ↔ group.Holds path element
  getError : ∀ e, group.get path = .error e ↔
    group.Lacks path ∧ e = .notFound (childPath group.path path)
  parameter : ∀ p, group.getParameter path = .ok p ↔ group.Holds path (.parameter p)
  parameterError : ∀ e, group.getParameter path = .error e ↔
    group.Lacks path ∧ e = .notFound (childPath group.path path) ∨
    group.Branches path ∧ e = .notAParameter (childPath group.path path)
  optional : ∀ p, group.getParameter? path = .ok (some p) ↔ group.Holds path (.parameter p)
  optionalNone : group.getParameter? path = .ok none ↔ group.Lacks path
  optionalError : ∀ e, group.getParameter? path = .error e ↔
    group.Branches path ∧ e = .notAParameter (childPath group.path path)
  subgroup : ∀ inner, group.getGroup path = .ok inner ↔
    group.Holds path (.group inner.path inner.entries)
  subgroupError : ∀ e, group.getGroup path = .error e ↔
    group.Lacks path ∧ e = .notFound (childPath group.path path) ∨
    (∃ p, group.Holds path (.parameter p)) ∧ e = .notAGroup (childPath group.path path)
  /-- A truth value is the given one, whatever the default. -/
  truth : ∀ value, (∀ default, group.getBoolOr path default = .ok value) ↔
    ∃ p, group.Holds path (.parameter p) ∧ TakenFor .bool p.value (.bool value)
  truthDefault : (∀ default, group.getBoolOr path default = .ok default) ↔ group.Lacks path
  truthError : ∀ default e, group.getBoolOr path default = .error e ↔
    group.Branches path ∧ e = .notAParameter (childPath group.path path) ∨
    ∃ p, group.Holds path (.parameter p) ∧ (∀ taken, ¬ TakenFor .bool p.value taken) ∧
      e = .wrongKind (childPath group.path path) .bool
  casts : ∀ p, group.Holds path (.parameter p) → p.path = childPath group.path path ∧
    Casts p .bool .bool p.asBool ∧ Casts p .int .int p.asInt ∧
    Casts p .float .float p.asFloat ∧ Casts p .str .str p.asString

section
variable {group : Group} {path : String}

theorem lookups_of_none (h : group.find? path = none) :
    group.get path = .error (.notFound (childPath group.path path)) ∧
    group.getParameter path = .error (.notFound (childPath group.path path)) ∧
    group.getParameter? path = .ok none ∧
    group.getGroup path = .error (.notFound (childPath group.path path)) ∧
    ∀ default, group.getBoolOr path default = .ok default := by
  unfold Group.getBoolOr Group.getParameter Group.getGroup Group.getParameter? Group.get
  rw [h]
  exact ⟨rfl, rfl, rfl, rfl, fun _ => rfl⟩

theorem lookups_of_group {own : String} {entries : List (String × Element)}
    (h : group.find? path = some (.group own entries)) :
    group.get path = .ok (.group own entries) ∧
    group.getParameter path = .error (.notAParameter own) ∧
    group.getParameter? path = .error (.notAParameter own) ∧
    group.getGroup path = .ok ⟨own, entries⟩ ∧
    ∀ default, group.getBoolOr path default = .error (.notAParameter own) := by
  unfold Group.getBoolOr Group.getParameter Group.getGroup Group.getParameter? Group.get
  rw [h]
  exact ⟨rfl, rfl, rfl, rfl, fun _ => rfl⟩

theorem lookups_of_parameter {p : Parameter} (h : group.find? path = some (.parameter p)) :
    group.get path = .ok (.parameter p) ∧
    group.getParameter path = .ok p ∧
    group.getParameter? path = .ok (some p) ∧
    group.getGroup path = .error (.notAGroup p.path) ∧
    ∀ default, group.getBoolOr path default = p.asBool := by
  unfold Group.getBoolOr Group.getParameter Group.getGroup Group.getParameter? Group.get
  rw [h]
  exact ⟨rfl, rfl, rfl, rfl, fun _ => rfl⟩

theorem answers_of_none (h : group.find? path = none) : Answers group path := by
  obtain ⟨hget, hparameter, hoptional, hgroup, htruth⟩ := lookups_of_none h
  constructor
  all_goals
    simp [Group.lacks_iff, Group.Branches, Group.holds_iff, h, hget, hparameter, hoptional,
      hgroup, htruth, eq_comm]

theorem answers_of_group {entries : List (String × Element)}
    (h : group.find? path = some (.group (childPath group.path path) entries)) :
    Answers group path := by
  obtain ⟨hget, hparameter, hoptional, hgroup, htruth⟩ := lookups_of_group h
  constructor
  case carries =>
    intro element helement
    cases hget.symm.trans helement
    rfl
  case subgroup =>
    intro inner
    rw [hgroup, Group.holds_iff, h]
    obtain ⟨own, below⟩ := inner
    simp
  all_goals
    simp [Group.lacks_iff, Group.Branches, Group.holds_iff, h, hget, hparameter, hoptional,
      hgroup, htruth, eq_comm]

theorem answers_of_parameter {value : Setting}
    (h : group.find? path = some (.parameter ⟨childPath group.path path, value⟩)) :
    Answers group path := by
  obtain ⟨hget, hparameter, hoptional, hgroup, htruth⟩ := lookups_of_parameter h
  have hcast := casts_asBool ⟨childPath group.path path, value⟩
  constructor
  case carries =>
    intro element helement
    cases hget.symm.trans helement
    rfl
  case truth =>
    intro value
    simp only [htruth, forall_const, hcast.ok, Group.holds_iff, h]
    simp
  case truthDefault =>
    rw [Group.lacks_iff, h]
    refine iff_of_false (fun hall => ?_) (Option.some_ne_none _)
    -- A value that is given is one, and cannot be both defaults.
    cases (hall true).symm.trans ((htruth true).trans ((htruth false).symm.trans (hall false)))
  case truthError =>
    intro _ e
    simp [htruth, hcast.error, Group.Branches, Group.holds_iff, h]
  case casts =>
    intro p hp
    cases h.symm.trans (Group.holds_iff.mp hp)
    exact ⟨rfl, hcast, casts_asInt _, casts_asFloat _, casts_asString _⟩
  all_goals
    simp [Group.lacks_iff, Group.Branches, Group.holds_iff, h, hget, hparameter, hoptional,
      hgroup, eq_comm]

end

/-- In a settings tree, what stands at a path decides what every lookup of it answers, and each
element and each error carries the group's path, a dot and the path that was asked for. -/
theorem FromTable.lookups_carry_path {group : Group} (tree : FromTable group) (path : String) :
    Answers group path := by
  obtain h | ⟨entries, h⟩ | ⟨value, h⟩ := tree.stands path
  · exact answers_of_none h
  · exact answers_of_group h
  · exact answers_of_parameter h

/-- The group under the empty key of the crooked table. -/
def emptyKeyGroup : Group := ⟨".", [("deep", .parameter ⟨"..deep", .int 7⟩)]⟩

theorem lookups_carry_path_below_empty_key :
    FromTable emptyKeyGroup ∧ Answers emptyKeyGroup "deep" ∧
      emptyKeyGroup.getBoolOr "deep" true = .error (.wrongKind "..deep" .bool) ∧
      emptyKeyGroup.getParameter "deep." = .error (.notFound "..deep.") := by
  have tree : FromTable emptyKeyGroup :=
    .child (.root ofTable_crooked) (rfl : crookedGroup.getGroup "" = _)
  exact ⟨tree, FromTable.lookups_carry_path tree "deep", by cbv, by cbv⟩

end GnssFusion.Settings
