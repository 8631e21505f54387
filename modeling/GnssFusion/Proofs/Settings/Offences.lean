import GnssFusion.Proofs.Settings.Nesting
import GnssFusion.Proofs.Toml.Ascending

/-!
Tables that are no settings tree. A value that is not a table offends wherever groups stand,
so in the document's own table and below tables that are not parameters (`Offends`). The
keys that lead to two such values compare as a traversal meets them: depth first, and each
table in the order of its keys. The error of a table is the first of them, told by the path
of the table that holds it (`elements_eq_error_iff`).
-/

namespace GnssFusion.Settings

/-- The keys lead to a value that is not a table, past tables that are not parameters. -/
inductive Offends : Toml.Table → List String → Prop
  | here {table : Toml.Table} {key : String} {value : Toml.Value} :
      table.lookup key = some value → (∀ inner, value ≠ .table inner) → Offends table [key]
  | inside {table inner : Toml.Table} {key : String} {keys : List String} :
      table.lookup key = some (.table inner) → (∀ value, ¬ Denotes inner value) →
      Offends inner keys → Offends table (key :: keys)

theorem Offends.ne_nil {table : Toml.Table} {keys : List String} (h : Offends table keys) :
    keys ≠ [] := by
  cases h <;> exact List.cons_ne_nil _ _

/-- The first offence that a traversal meets. -/
structure FirstOffence (table : Toml.Table) (keys : List String) : Prop where
  offends : Offends table keys
  first : ∀ other, Offends table other → ¬ other < keys

theorem FirstOffence.unique {table : Toml.Table} {a b : List String} (ha : FirstOffence table a)
    (hb : FirstOffence table b) : a = b :=
  le_antisymm (not_lt.mp (ha.first b hb.offends)) (not_lt.mp (hb.first a ha.offends))

theorem bind_eq_error {ε α β : Type} {x : Except ε α} {f : α → Except ε β} {e : ε} :
    (x >>= f) = .error e ↔ x = .error e ∨ ∃ a, x = .ok a ∧ f a = .error e := by
  cases x <;> simp [bind, Except.bind]

theorem map_eq_error {ε α β : Type} {x : Except ε α} {f : α → β} {e : ε} :
    (f <$> x) = .error e ↔ x = .error e := by
  cases x <;> simp [Functor.map, Except.map]

theorem not_offends_of_elements {path : String} {table : Toml.Table}
    {entries : List (String × Element)} (h : elements path table = .ok entries)
    (keys : List String) : ¬ Offends table keys := by
  intro offends
  induction offends generalizing path entries with
  | here hlookup hvalue =>
      obtain ⟨hnone, -⟩ | ⟨inner, _, htable, -⟩ := lookup_elements h _
      · cases hlookup.symm.trans hnone
      · exact hvalue inner (Option.some.inj (hlookup.symm.trans htable))
  | inside hlookup hnone _ ih =>
      obtain ⟨hmissing, -⟩ | ⟨inner, element, htable, -, becomes⟩ := lookup_elements h _
      · cases hlookup.symm.trans hmissing
      · cases hlookup.symm.trans htable
        cases becomes with
        | parameter hvalue => exact hnone _ hvalue
        | group _ hinner => exact ih hinner

section
variable {key : String} {value : Toml.Value} {rest : Toml.Table}

theorem lt_of_lookup (hbelow : ∀ entry ∈ rest, key < entry.1) {other : String}
    {found : Toml.Value} (h : rest.lookup other = some found) : key < other := by
  obtain ⟨before, after, rfl, -⟩ := List.lookup_eq_some_iff.mp h
  exact hbelow (other, found) (by simp)

/-- What offends in the rest of a table comes after all under its first key. -/
theorem Offends.above (hbelow : ∀ entry ∈ rest, key < entry.1) {keys : List String}
    (h : Offends rest keys) (under : List String) : key :: under < keys := by
  cases h with
  | here hlookup => exact List.cons_lt_cons_iff.mpr (.inl (lt_of_lookup hbelow hlookup))
  | inside hlookup => exact List.cons_lt_cons_iff.mpr (.inl (lt_of_lookup hbelow hlookup))

theorem lookup_cons_of_lt {other : String} (h : key < other) :
    List.lookup other ((key, value) :: rest) = rest.lookup other := by
  rw [List.lookup_cons, beq_eq_false_iff_ne.mpr (ne_of_gt h)]

theorem Offends.of_rest (hbelow : ∀ entry ∈ rest, key < entry.1) {keys : List String}
    (h : Offends rest keys) : Offends ((key, value) :: rest) keys := by
  cases h with
  | here hlookup hvalue =>
      refine .here ?_ hvalue
      rwa [lookup_cons_of_lt (lt_of_lookup hbelow hlookup)]
  | inside hlookup hnone hinner =>
      refine .inside ?_ hnone hinner
      rwa [lookup_cons_of_lt (lt_of_lookup hbelow hlookup)]

/-- What offends in a table is its first value, or in that, or in the rest. -/
theorem Offends.uncons {keys : List String} (h : Offends ((key, value) :: rest) keys) :
    (keys = [key] ∧ ∀ inner, value ≠ .table inner) ∨
    (∃ inner under, keys = key :: under ∧ value = .table inner ∧
      (∀ value, ¬ Denotes inner value) ∧ Offends inner under) ∨
    Offends rest keys := by
  cases h with
  | @here _ other found hlookup hvalue =>
      rw [List.lookup_cons] at hlookup
      split at hlookup
      · next hkey =>
          cases hlookup
          exact .inl ⟨by rw [eq_of_beq hkey], hvalue⟩
      · exact .inr (.inr (.here hlookup hvalue))
  | @inside _ inner other under hlookup hnone hinner =>
      rw [List.lookup_cons] at hlookup
      split at hlookup
      · next hkey =>
          cases hlookup
          exact .inr (.inl ⟨inner, under, by rw [eq_of_beq hkey], rfl, hnone, hinner⟩)
      · exact .inr (.inr (.inside hlookup hnone hinner))

end

namespace FirstOffence

variable {key : String} {inner rest : Toml.Table} {keys : List String}
  (hbelow : ∀ entry ∈ rest, key < entry.1)
include hbelow

theorem of_value {value : Toml.Value} (hvalue : ∀ inner, value ≠ .table inner) :
    FirstOffence ((key, value) :: rest) [key] := by
  refine ⟨.here List.lookup_cons_self hvalue, ?_⟩
  intro other hother
  obtain ⟨rfl, -⟩ | ⟨inner, -, -, htable, -⟩ | hrest := hother.uncons
  · exact lt_irrefl _
  · exact absurd htable (hvalue inner)
  · exact lt_asymm (hrest.above hbelow [])

theorem of_inner (hnone : ∀ value, ¬ Denotes inner value) (h : FirstOffence inner keys) :
    FirstOffence ((key, .table inner) :: rest) (key :: keys) := by
  refine ⟨.inside List.lookup_cons_self hnone h.offends, ?_⟩
  intro other hother
  obtain ⟨-, hvalue⟩ | ⟨_, under, rfl, htable, -, hunder⟩ | hrest := hother.uncons
  · exact absurd rfl (hvalue inner)
  · cases htable
    intro hless
    obtain hless | ⟨-, hless⟩ := List.cons_lt_cons_iff.mp hless
    · exact lt_irrefl _ hless
    · exact h.first under hunder hless
  · exact lt_asymm (hrest.above hbelow keys)

/-- The first table is a parameter, or nothing offends in it. -/
theorem of_rest (hclean : (∀ value, ¬ Denotes inner value) → ∀ under, ¬ Offends inner under)
    (h : FirstOffence rest keys) : FirstOffence ((key, .table inner) :: rest) keys := by
  refine ⟨h.offends.of_rest hbelow, ?_⟩
  intro other hother
  obtain ⟨-, hvalue⟩ | ⟨_, under, -, htable, hnone, hunder⟩ | hrest := hother.uncons
  · exact absurd rfl (hvalue inner)
  · cases htable
    exact absurd hunder (hclean hnone under)
  · exact h.first other hrest

end FirstOffence

theorem exists_firstOffence_of_elements {path : String} {table : Toml.Table} {e : Error}
    (ascending : Toml.Table.Ascending table) (h : elements path table = .error e) :
    ∃ keys, FirstOffence table keys ∧ e = .notATable (keys.dropLast.foldl childPath path) := by
  fun_induction elements path table with
  | case1 path => cases h
  | case2 path key table rest child finish value hvalue =>
      rename_i ih
      obtain ⟨hbelow, -, hrest⟩ := ascending
      have hparameter := ofTable?_eq_some_iff.mp hvalue
      rw [pure_bind] at h
      obtain hothers | ⟨others, -, h⟩ := bind_eq_error.mp h
      · obtain ⟨keys, first, he⟩ := ih hrest hothers
        exact ⟨keys, first.of_rest hbelow fun hnone => absurd hparameter (hnone value), he⟩
      · cases h
  | case3 path key table rest child finish hvalue ihrest =>
      rename_i ihtable
      obtain ⟨hbelow, htable, hrest⟩ := ascending
      have hnone := ofTable?_eq_none_iff.mp hvalue
      obtain helement | ⟨element, helement, h⟩ := bind_eq_error.mp h
      · obtain ⟨keys, first, he⟩ := ihtable htable (map_eq_error.mp helement)
        refine ⟨key :: keys, first.of_inner hbelow hnone, ?_⟩
        have hkeys : keys ≠ [] := first.offends.ne_nil
        rw [he, List.dropLast_cons_of_ne_nil hkeys, List.foldl_cons]
      · obtain ⟨inner, hinner, -⟩ := map_eq_ok.mp helement
        obtain hothers | ⟨others, -, h⟩ := bind_eq_error.mp h
        · obtain ⟨keys, first, he⟩ := ihrest hrest hothers
          exact ⟨keys, first.of_rest hbelow fun _ => not_offends_of_elements hinner, he⟩
        · cases h
  | case4 path entry rest hother =>
      obtain ⟨key, value⟩ := entry
      obtain ⟨hbelow, -, -⟩ := ascending
      cases h
      exact ⟨[key], .of_value hbelow fun inner hvalue => hother key inner (by rw [hvalue]), rfl⟩

/-- A table is refused for its first offence, which the table that holds it is blamed for. -/
theorem elements_eq_error_iff {path : String} {table : Toml.Table} {e : Error}
    (ascending : Toml.Table.Ascending table) :
    elements path table = .error e ↔
      ∃ keys, FirstOffence table keys ∧ e = .notATable (keys.dropLast.foldl childPath path) := by
  refine ⟨exists_firstOffence_of_elements ascending, ?_⟩
  rintro ⟨keys, first, rfl⟩
  cases h : elements path table with
  | ok entries => exact absurd first.offends (not_offends_of_elements h keys)
  | error e =>
      obtain ⟨other, hother, rfl⟩ := exists_firstOffence_of_elements ascending h
      rw [first.unique hother]

theorem exists_error_iff {path : String} {table : Toml.Table}
    (ascending : Toml.Table.Ascending table) :
    (∃ e, elements path table = .error e) ↔ ∃ keys, Offends table keys := by
  constructor
  · rintro ⟨e, h⟩
    obtain ⟨keys, first, -⟩ := exists_firstOffence_of_elements ascending h
    exact ⟨keys, first.offends⟩
  · rintro ⟨keys, offends⟩
    cases h : elements path table with
    | ok entries => exact absurd offends (not_offends_of_elements h keys)
    | error e => exact ⟨e, rfl⟩

theorem Offends.append {table own : Toml.Table} {keys under : List String}
    (hreaches : Reaches table keys own) (hnone : ∀ value, ¬ Denotes own value)
    (h : Offends own under) : Offends table (keys ++ under) := by
  induction keys generalizing table with
  | nil =>
      cases hreaches.1
      exact h
  | cons key rest ih =>
      by_cases hrest : rest = []
      · subst hrest
        exact .inside (reaches_singleton.mp hreaches) hnone h
      · obtain ⟨inner, hlookup, hinner, hreaches⟩ := (reaches_cons hrest).mp hreaches
        exact .inside hlookup hinner (ih hreaches)

/-- The table has a type that is not a table, but is no parameter: there is no such type, or
its value is not of that type. -/
structure Mistyped (table : Toml.Table) : Prop where
  type : ∃ value, table.lookup "type" = some value ∧ ∀ inner, value ≠ .table inner
  none : ∀ value, ¬ Denotes table value

theorem Mistyped.offends {table own : Toml.Table} {keys : List String} (h : Mistyped own)
    (hreaches : Reaches table keys own) : Offends table (keys ++ ["type"]) := by
  obtain ⟨value, hlookup, hvalue⟩ := h.type
  exact .append hreaches h.none (.here hlookup hvalue)

theorem Denotes.offends {table : Toml.Table} {value : Setting} (h : Denotes table value) :
    Offends table ["type"] := by
  obtain ⟨kind, val, htype, -, -⟩ := h
  exact .here htype fun inner h => nomatch h

theorem Group.ofTable_eq_error_iff {table : Toml.Table} {e : Error} :
    Group.ofTable table = .error e ↔ elements "" table = .error e := by
  unfold Group.ofTable
  cases elements "" table <;> simp [bind, Except.bind, pure, Except.pure]

theorem Group.ofTable_eq_ok_iff {table : Toml.Table} {group : Group} :
    Group.ofTable table = .ok group ↔
      ∃ entries, elements "" table = .ok entries ∧ group = ⟨"", entries⟩ := by
  unfold Group.ofTable
  cases elements "" table <;> simp [bind, Except.bind, pure, Except.pure, eq_comm]

/-- The first offence is in the table whose type offends, unless one in another table comes
before. -/
theorem FirstOffence.dropLast_eq {table : Toml.Table} {found keys : List String}
    (first : FirstOffence table found) (offends : Offends table (keys ++ ["type"]))
    (hbefore : ∀ other, Offends table other → other < keys ++ ["type"] → other.dropLast = keys) :
    found.dropLast = keys := by
  obtain hless | rfl := lt_or_eq_of_le (not_lt.mp (first.first _ offends))
  · exact hbefore found first.offends hless
  · exact List.dropLast_concat

theorem find?_of_reaches_empty {path : String} {table : Toml.Table}
    {entries : List (String × Element)} {keys : List String}
    (h : elements path table = .ok entries) (hkeys : keys ≠ []) (hreaches : Reaches table keys []) :
    find? entries keys = some (.group (keys.foldl childPath path) []) := by
  obtain ⟨-, hnowhere⟩ | ⟨nested, element, hfound, hother, becomes⟩ := find?_elements h hkeys
  · exact absurd hreaches (hnowhere [])
  · rw [hfound]
    cases hreaches.unique hother
    cases becomes with
    | parameter hvalue =>
        obtain ⟨_, _, htype, -⟩ := hvalue
        cases htype
    | group _ hempty =>
        rw [elements] at hempty
        cases hempty
        rfl

/-- A document's table is refused exactly when something offends in it, and then for the first
offence, which the table that holds it is blamed for. A mistyped table is an offence too,
and is blamed for it unless one in another table comes before. Empty tables become empty
groups, and the document's own table is never taken for a parameter. -/
theorem Group.ofTable_fails_at_first_offence {table : Toml.Table}
    (ascending : Toml.Table.Ascending table) :
    ((∃ e, Group.ofTable table = .error e) ↔ ∃ keys, Offends table keys) ∧
    (∀ e, Group.ofTable table = .error e ↔
      ∃ keys, FirstOffence table keys ∧ e = .notATable (keys.dropLast.foldl childPath "")) ∧
    (∀ keys own, Reaches table keys own → Mistyped own →
      (∃ e, Group.ofTable table = .error e) ∧
      ((∀ other, Offends table other → other < keys ++ ["type"] → other.dropLast = keys) →
        Group.ofTable table = .error (.notATable (keys.foldl childPath "")))) ∧
    (∀ group, Group.ofTable table = .ok group → ∀ keys, keys ≠ [] → Reaches table keys [] →
      Settings.find? group.entries keys = some (.group (keys.foldl childPath "") [])) ∧
    (table = [] → Group.ofTable table = .ok .empty) ∧
    ∀ value, Denotes table value → ∃ e, Group.ofTable table = .error e := by
  have hfails : (∃ e, Group.ofTable table = .error e) ↔ ∃ keys, Offends table keys := by
    simp only [Group.ofTable_eq_error_iff]
    exact exists_error_iff ascending
  have herror : ∀ e, Group.ofTable table = .error e ↔
      ∃ keys, FirstOffence table keys ∧ e = .notATable (keys.dropLast.foldl childPath "") := by
    intro e
    rw [Group.ofTable_eq_error_iff]
    exact elements_eq_error_iff ascending
  refine ⟨hfails, herror, ?_, ?_, ?_, ?_⟩
  · intro keys own hreaches mistyped
    have offends := mistyped.offends hreaches
    obtain ⟨e, he⟩ := hfails.mpr ⟨_, offends⟩
    refine ⟨⟨e, he⟩, fun hbefore => ?_⟩
    obtain ⟨found, first, rfl⟩ := (herror e).mp he
    rw [he, first.dropLast_eq offends hbefore]
  · intro group h keys hkeys hreaches
    obtain ⟨entries, hentries, rfl⟩ := Group.ofTable_eq_ok_iff.mp h
    exact find?_of_reaches_empty hentries hkeys hreaches
  · rintro rfl
    exact Group.ofTable_eq_ok_iff.mpr ⟨[], by rw [elements], rfl⟩
  · intro value hvalue
    exact hfails.mpr ⟨_, hvalue.offends⟩

/-- A table whose value is not of its type, before a value that is no table. -/
def wrongValue : Toml.Table := [
  ("x", .table [("type", .string "int"), ("val", .string "hello")]),
  ("y", .integer 1)]

theorem ofTable_blames_wrongValue :
    Toml.Table.Ascending wrongValue ∧ FirstOffence wrongValue ["x", "type"] ∧
      Group.ofTable wrongValue = .error (.notATable ".x") := by
  have hparse : Toml.Table.parse? "y = 1\n[x]\nval = \"hello\"\ntype = \"int\"\n" =
      some wrongValue := by cbv
  have ascending := Toml.Table.ascending_of_parse? hparse
  obtain ⟨hkeys, ⟨hown, -⟩, -⟩ := id ascending
  have hint : ∀ inner, Toml.Value.string "int" ≠ .table inner := by
    intro inner h
    cases h
  have first : FirstOffence wrongValue ["x", "type"] :=
    .of_inner hkeys (ofTable?_eq_none_iff.mp rfl) (.of_value hown hint)
  refine ⟨ascending, first, ?_⟩
  exact ((Group.ofTable_fails_at_first_offence ascending).2.1 _).mpr ⟨_, first, rfl⟩

/-- A table of an unknown type, which holds a table with an offence of its own. -/
def unknownType : Toml.Table := [
  ("a", .table [("b", .integer 1)]),
  ("type", .string "badtype"),
  ("val", .boolean true)]

def unknownTypeDocument : Toml.Table := [("x", .table unknownType)]

/-- The table of unknown type is not blamed where an earlier key in it leads to an offence. -/
theorem unknownType_not_blamed :
    Toml.Table.Ascending unknownTypeDocument ∧
      Reaches unknownTypeDocument ["x"] unknownType ∧ Mistyped unknownType ∧
      Group.ofTable unknownTypeDocument = .error (.notATable ".x.a") ∧
      Group.ofTable unknownTypeDocument ≠ .error (.notATable (["x"].foldl childPath "")) := by
  have hparse : Toml.Table.parse? "[x]\ntype = \"badtype\"\nval = true\n[x.a]\nb = 1\n" =
      some unknownTypeDocument := by cbv
  have ascending := Toml.Table.ascending_of_parse? hparse
  have hone : ∀ inner, Toml.Value.integer 1 ≠ .table inner := by
    intro inner h
    cases h
  have htype : ∀ inner, Toml.Value.string "badtype" ≠ .table inner := by
    intro inner h
    cases h
  have mistyped : Mistyped unknownType := ⟨⟨_, rfl, htype⟩, ofTable?_eq_none_iff.mp rfl⟩
  obtain ⟨hkeys, ⟨hown, ⟨hunder, -⟩, -⟩, -⟩ := id ascending
  have first : FirstOffence unknownTypeDocument ["x", "a", "b"] :=
    .of_inner hkeys mistyped.none
      (.of_inner hown (ofTable?_eq_none_iff.mp rfl) (.of_value hunder hone))
  have herror : Group.ofTable unknownTypeDocument = .error (.notATable ".x.a") :=
    Group.ofTable_eq_error_iff.mpr ((elements_eq_error_iff ascending).mpr ⟨_, first, rfl⟩)
  refine ⟨ascending, reaches_singleton.mpr rfl, mistyped, herror, ?_⟩
  intro h
  have hpath := Error.notATable.inj (Except.error.inj (herror.symm.trans h))
  exact absurd hpath (by decide)

end GnssFusion.Settings
