import GnssFusion.Proofs.Settings.Paths
import Mathlib

/-!
Looking settings up in the document itself. A sequence of keys leads from table to table
(`tableAt?`), and a dotted path leads to what its keys lead to: to a parameter if that table
is the first one on the way that is a parameter, to a group if there is none, and nowhere
else (`find?_elements`). Dots separate keys, so elements under keys with a dot of their own
are out of reach; without them every lookup has the same result (`find?_undotted`).
-/

namespace GnssFusion.Settings

/-- The text under `type`, the value under `val`, and the setting that they make. An integer
is taken for a float, and a date or time for its text. -/
inductive Makes : String → Toml.Value → Setting → Prop
  | bool (value : Bool) : Makes "bool" (.boolean value) (.bool value)
  | int (value : Int) : Makes "int" (.integer value) (.int value)
  | float (value : Binary64) : Makes "float" (.float value) (.float value)
  | floatOfInt (value : Int) : Makes "float" (.integer value) (.float (.ofInt value))
  | str (value : String) : Makes "str" (.string value) (.str value)
  | strOfDate (value : Toml.DateTime) : Makes "str" (.dateTime value) (.str value.text)

/-- The table is a parameter with this value; its other keys do not count. -/
def Denotes (table : Toml.Table) (value : Setting) : Prop :=
  ∃ kind val, table.lookup "type" = some (.string kind) ∧ table.lookup "val" = some val ∧
    Makes kind val value

theorem ofTable?_eq_some_iff {table : Toml.Table} {value : Setting} :
    Setting.ofTable? table = some value ↔ Denotes table value := by
  constructor
  · intro h
    unfold Setting.ofTable? at h
    split at h
    case h_7 => nomatch h
    all_goals
      next htype hval =>
        cases h
        exact ⟨_, _, htype, hval, by constructor⟩
  · rintro ⟨kind, val, htype, hval, makes⟩
    unfold Setting.ofTable?
    rw [htype, hval]
    cases makes <;> rfl

theorem Denotes.unique {table : Toml.Table} {a b : Setting} (ha : Denotes table a)
    (hb : Denotes table b) : a = b := by
  rw [← ofTable?_eq_some_iff] at ha hb
  exact Option.some.inj (ha.symm.trans hb)

theorem ofTable?_eq_none_iff {table : Toml.Table} :
    Setting.ofTable? table = none ↔ ∀ value, ¬ Denotes table value := by
  rw [Option.eq_none_iff_forall_ne_some]
  exact forall_congr' fun value => not_congr ofTable?_eq_some_iff

/-- The table that some keys lead to, each within the table before it. -/
def tableAt? : Toml.Table → List String → Option Toml.Table
  | table, [] => some table
  | table, key :: keys =>
      match table.lookup key with
      | some (.table inner) => tableAt? inner keys
      | _ => none

theorem tableAt?_cons {table nested : Toml.Table} {key : String} {keys : List String} :
    tableAt? table (key :: keys) = some nested ↔
      ∃ inner, table.lookup key = some (.table inner) ∧ tableAt? inner keys = some nested := by
  rw [tableAt?]
  split
  · next inner hlookup => simp [hlookup]
  · next hother =>
      refine iff_of_false (fun h => nomatch h) ?_
      rintro ⟨inner, hlookup, -⟩
      exact hother inner hlookup

/-- The keys lead to the table, and none of the tables on the way is a parameter. The table
that they start from is not asked, nor is the one that they lead to. -/
def Reaches (table : Toml.Table) (keys : List String) (nested : Toml.Table) : Prop :=
  tableAt? table keys = some nested ∧
    ∀ way, way <+: keys → way ≠ [] → way ≠ keys → ∀ passed, tableAt? table way = some passed →
      ∀ value, ¬ Denotes passed value

theorem Reaches.unique {table a b : Toml.Table} {keys : List String}
    (ha : Reaches table keys a) (hb : Reaches table keys b) : a = b :=
  Option.some.inj (ha.1.symm.trans hb.1)

theorem reaches_singleton {table nested : Toml.Table} {key : String} :
    Reaches table [key] nested ↔ table.lookup key = some (.table nested) := by
  constructor
  · rintro ⟨hat, -⟩
    obtain ⟨inner, hlookup, hinner⟩ := tableAt?_cons.mp hat
    cases hinner
    exact hlookup
  · intro hlookup
    refine ⟨tableAt?_cons.mpr ⟨nested, hlookup, rfl⟩, ?_⟩
    intro way hway hne hproper
    obtain rfl | ⟨rest, rfl, hrest⟩ := List.prefix_cons_iff.mp hway
    · exact absurd rfl hne
    · rw [List.prefix_nil.mp hrest] at hproper
      exact absurd rfl hproper

/-- The first table on the way is none of the parameters, and the way goes on from it. -/
theorem reaches_cons {table nested : Toml.Table} {key : String} {keys : List String}
    (hkeys : keys ≠ []) :
    Reaches table (key :: keys) nested ↔
      ∃ inner, table.lookup key = some (.table inner) ∧ (∀ value, ¬ Denotes inner value) ∧
        Reaches inner keys nested := by
  constructor
  · rintro ⟨hat, hway⟩
    obtain ⟨inner, hlookup, hinner⟩ := tableAt?_cons.mp hat
    refine ⟨inner, hlookup, ?_, hinner, ?_⟩
    · refine hway [key] (by simp) (by simp) (by simpa using hkeys.symm) inner ?_
      exact tableAt?_cons.mpr ⟨inner, hlookup, rfl⟩
    · intro way hprefix _ hproper passed hpassed
      exact hway (key :: way) (List.cons_prefix_cons.mpr ⟨rfl, hprefix⟩) (by simp)
        (by simpa using hproper) passed (tableAt?_cons.mpr ⟨inner, hlookup, hpassed⟩)
  · rintro ⟨inner, hlookup, hfirst, hat, hway⟩
    refine ⟨tableAt?_cons.mpr ⟨inner, hlookup, hat⟩, ?_⟩
    intro way hprefix hne hproper passed hpassed
    obtain rfl | ⟨rest, rfl, hrest⟩ := List.prefix_cons_iff.mp hprefix
    · exact absurd rfl hne
    · obtain ⟨other, hother, hpassed⟩ := tableAt?_cons.mp hpassed
      cases hlookup.symm.trans hother
      by_cases hempty : rest = []
      · subst hempty
        cases hpassed
        exact hfirst
      · exact hway rest hrest hempty (by simpa using hproper) passed hpassed

/-- What a table at a path becomes in the tree. -/
inductive Becomes (path : String) (table : Toml.Table) : Element → Prop
  | parameter {value : Setting} : Denotes table value →
      Becomes path table (.parameter ⟨path, value⟩)
  | group {entries : List (String × Element)} : (∀ value, ¬ Denotes table value) →
      elements path table = .ok entries → Becomes path table (.group path entries)

theorem elements_cons {path key : String} {value : Toml.Value} {rest : Toml.Table}
    {entries : List (String × Element)} (h : elements path ((key, value) :: rest) = .ok entries) :
    ∃ inner element others, value = .table inner ∧ Becomes (childPath path key) inner element ∧
      elements path rest = .ok others ∧ entries = (key, element) :: others := by
  cases value with
  | table inner =>
      rw [elements] at h
      cases hvalue : Setting.ofTable? inner with
      | some value =>
          -- What stands below a parameter is not looked at, so it need not be tables.
          simp only [hvalue, pure_bind] at h
          obtain ⟨others, hothers, hentries⟩ := bind_eq_ok.mp h
          cases hentries
          exact ⟨inner, _, others, rfl, .parameter (ofTable?_eq_some_iff.mp hvalue), hothers, rfl⟩
      | none =>
          simp only [hvalue] at h
          obtain ⟨element, helement, h⟩ := bind_eq_ok.mp h
          obtain ⟨below, hbelow, rfl⟩ := map_eq_ok.mp helement
          obtain ⟨others, hothers, hentries⟩ := bind_eq_ok.mp h
          cases hentries
          exact ⟨inner, _, others, rfl, .group (ofTable?_eq_none_iff.mp hvalue) hbelow, hothers,
            rfl⟩
  | _ =>
      rw [elements] at h
      · cases h
      · simp

/-- A group has the keys of its table, with what the tables under them become. -/
theorem lookup_elements {path : String} {table : Toml.Table} {entries : List (String × Element)}
    (h : elements path table = .ok entries) (key : String) :
    table.lookup key = none ∧ entries.lookup key = none ∨
      ∃ inner element, table.lookup key = some (.table inner) ∧
        entries.lookup key = some element ∧ Becomes (childPath path key) inner element := by
  induction table generalizing entries with
  | nil =>
      rw [elements] at h
      cases h
      exact .inl ⟨rfl, rfl⟩
  | cons entry rest ih =>
      obtain ⟨first, value⟩ := entry
      obtain ⟨inner, element, others, rfl, becomes, hothers, rfl⟩ := elements_cons h
      rw [List.lookup_cons, List.lookup_cons]
      by_cases hkey : key = first
      · subst hkey
        simp only [beq_self_eq_true]
        exact .inr ⟨inner, element, rfl, rfl, becomes⟩
      · simp only [beq_eq_false_iff_ne.mpr hkey]
        exact ih hothers

/-- A path in the tree leads to what the table becomes that its keys reach. -/
theorem find?_elements {path : String} {table : Toml.Table} {entries : List (String × Element)}
    (h : elements path table = .ok entries) {keys : List String} (hkeys : keys ≠ []) :
    find? entries keys = none ∧ (∀ nested, ¬ Reaches table keys nested) ∨
      ∃ nested element, find? entries keys = some element ∧ Reaches table keys nested ∧
        Becomes (keys.foldl childPath path) nested element := by
  induction keys generalizing path table entries with
  | nil => exact absurd rfl hkeys
  | cons key rest ih =>
      obtain ⟨hkey, hentry⟩ | ⟨inner, found, hkey, hentry, becomes⟩ := lookup_elements h key
      · refine .inl ⟨by cases rest <;> simp [find?, hentry], ?_⟩
        rintro nested ⟨hat, -⟩
        obtain ⟨inner, hinner, -⟩ := tableAt?_cons.mp hat
        cases hkey.symm.trans hinner
      · -- The keys end here, or go on below a parameter, where nothing is, or below a group.
        cases rest with
        | nil => exact .inr ⟨inner, found, hentry, reaches_singleton.mpr hkey, becomes⟩
        | cons next keys =>
            have hrest := List.cons_ne_nil next keys
            cases becomes with
            | parameter hvalue =>
                refine .inl ⟨by simp [find?, hentry], ?_⟩
                intro nested hreaches
                obtain ⟨other, hother, hnone, -⟩ := (reaches_cons hrest).mp hreaches
                cases hkey.symm.trans hother
                exact hnone _ hvalue
            | @group below hnone hbelow =>
                have hfind : find? entries (key :: next :: keys) = find? below (next :: keys) := by
                  simp only [find?, hentry]
                rw [hfind]
                obtain ⟨hmissing, hnowhere⟩ | ⟨nested, element, hfound, hreaches, becomes⟩ :=
                  ih hbelow hrest
                · refine .inl ⟨hmissing, ?_⟩
                  intro nested hreaches
                  obtain ⟨other, hother, -, hinner⟩ := (reaches_cons hrest).mp hreaches
                  cases hkey.symm.trans hother
                  exact hnowhere nested hinner
                · exact .inr ⟨nested, element, hfound,
                    (reaches_cons hrest).mpr ⟨inner, hkey, hnone, hreaches⟩, becomes⟩

section
variable {path : String} {table : Toml.Table} {entries : List (String × Element)}
  {keys : List String} (h : elements path table = .ok entries) (hkeys : keys ≠ [])
include h hkeys

theorem find?_parameter_iff {value : Setting} :
    (∃ own, find? entries keys = some (.parameter ⟨own, value⟩)) ↔
      ∃ nested, Reaches table keys nested ∧ Denotes nested value := by
  obtain ⟨hmissing, hnowhere⟩ | ⟨nested, element, hfound, hreaches, becomes⟩ :=
    find?_elements h hkeys
  · simp [hmissing, hnowhere]
  · rw [hfound]
    constructor
    · rintro ⟨own, helement⟩
      cases helement
      cases becomes with
      | parameter hvalue => exact ⟨nested, hreaches, hvalue⟩
    · rintro ⟨other, hother, hvalue⟩
      rw [hother.unique hreaches] at hvalue
      cases becomes with
      | parameter hown => exact ⟨_, by rw [hown.unique hvalue]⟩
      | group hnone => exact absurd hvalue (hnone value)

theorem find?_group_iff :
    (∃ own below, find? entries keys = some (.group own below)) ↔
      ∃ nested, Reaches table keys nested ∧ ∀ value, ¬ Denotes nested value := by
  obtain ⟨hmissing, hnowhere⟩ | ⟨nested, element, hfound, hreaches, becomes⟩ :=
    find?_elements h hkeys
  · simp [hmissing, hnowhere]
  · rw [hfound]
    constructor
    · rintro ⟨own, below, helement⟩
      cases helement
      cases becomes with
      | group hnone => exact ⟨nested, hreaches, hnone⟩
    · rintro ⟨other, hother, hnone⟩
      rw [hother.unique hreaches] at hnone
      cases becomes with
      | parameter hvalue => exact absurd hvalue (hnone _)
      | group => exact ⟨_, _, rfl⟩

theorem find?_none_iff : find? entries keys = none ↔ ∀ nested, ¬ Reaches table keys nested := by
  obtain ⟨hmissing, hnowhere⟩ | ⟨nested, element, hfound, hreaches, -⟩ :=
    find?_elements h hkeys
  · exact iff_of_true hmissing hnowhere
  · rw [hfound]
    exact iff_of_false (Option.some_ne_none _) fun hnowhere => hnowhere nested hreaches

end

/-! Dotted paths and their keys. -/

/-- The path of some keys. -/
def joined (keys : List String) : String := String.intercalate "." keys

def Dotless (key : String) : Prop := '.' ∉ key.toList

instance (key : String) : Decidable (Dotless key) := inferInstanceAs (Decidable (¬ _))

theorem segments_of_dotless {chars : List Char} (h : '.' ∉ chars) : segments chars = [chars] := by
  induction chars with
  | nil => rfl
  | cons c rest ih =>
      rw [List.mem_cons, not_or] at h
      obtain ⟨hc, hrest⟩ := h
      rw [segments, if_neg (Ne.symm hc), ih hrest]

theorem segments_append_dot {chars : List Char} (h : '.' ∉ chars) (rest : List Char) :
    segments (chars ++ '.' :: rest) = chars :: segments rest := by
  induction chars with
  | nil => rfl
  | cons c chars ih =>
      rw [List.mem_cons, not_or] at h
      obtain ⟨hc, hchars⟩ := h
      rw [List.cons_append, segments, if_neg (Ne.symm hc), ih hchars]

theorem dotless_segments (chars : List Char) : ∀ segment ∈ segments chars, '.' ∉ segment := by
  induction chars with
  | nil => simp [segments]
  | cons c rest ih =>
      rw [segments]
      split
      · simpa using ih
      · next hc =>
          split
          · simpa using Ne.symm hc
          · next head tail hrest =>
              rw [hrest] at ih
              simpa [Ne.symm hc] using ih

theorem keysOf_joined {keys : List String} (hkeys : keys ≠ [])
    (dotless : ∀ key ∈ keys, Dotless key) : keysOf (joined keys) = keys := by
  induction keys with
  | nil => exact absurd rfl hkeys
  | cons key rest ih =>
      obtain ⟨hkey, hrest⟩ := List.forall_mem_cons.mp dotless
      cases rest with
      | nil => simp [keysOf, joined, segments_of_dotless hkey]
      | cons next keys =>
          have htoList : (joined (key :: next :: keys)).toList =
              key.toList ++ '.' :: (joined (next :: keys)).toList := by
            simp [joined]
          rw [keysOf, htoList, segments_append_dot hkey, List.map_cons, String.ofList_toList]
          exact congrArg _ (ih (List.cons_ne_nil next keys) hrest)

theorem dotless_keysOf (path : String) : ∀ key ∈ keysOf path, Dotless key := by
  intro key hkey
  obtain ⟨segment, hsegment, rfl⟩ := List.mem_map.mp hkey
  rw [Dotless, String.toList_ofList]
  exact dotless_segments _ segment hsegment

theorem keysOf_ne_nil (path : String) : keysOf path ≠ [] := by
  intro h
  have hsegments := flatMap_segments path.toList
  rw [List.map_eq_nil_iff.mp h] at hsegments
  nomatch hsegments

theorem foldl_childPath_joined {keys : List String} (hkeys : keys ≠ []) (path : String) :
    keys.foldl childPath path = childPath path (joined keys) := by
  induction keys generalizing path with
  | nil => exact absurd rfl hkeys
  | cons key rest ih =>
      cases rest with
      | nil => simp [joined]
      | cons next keys =>
          rw [List.foldl_cons, ih (List.cons_ne_nil next keys)]
          simp [joined, childPath, String.append_assoc]

theorem joined_keysOf (path : String) : joined (keysOf path) = path := by
  have hpath := foldl_childPath_joined (keysOf_ne_nil path) ""
  rw [foldl_childPath_keysOf] at hpath
  rw [← String.toList_inj]
  simpa [childPath] using (congrArg String.toList hpath).symm

/-! Elements under keys with a dot. -/

mutual

/-- The element without what stands in it under a key with a dot. -/
def Element.undotted : Element → Element
  | .parameter p => .parameter p
  | .group path entries => .group path (undottedEntries entries)

def undottedEntries : List (String × Element) → List (String × Element)
  | [] => []
  | (key, element) :: rest =>
      if Dotless key then (key, element.undotted) :: undottedEntries rest
      else undottedEntries rest

end

def Group.undotted (group : Group) : Group := ⟨group.path, undottedEntries group.entries⟩

theorem lookup_undottedEntries {key : String} (hkey : Dotless key)
    (entries : List (String × Element)) :
    (undottedEntries entries).lookup key = (entries.lookup key).map Element.undotted := by
  induction entries with
  | nil => rfl
  | cons entry rest ih =>
      obtain ⟨first, element⟩ := entry
      rw [undottedEntries, List.lookup_cons]
      by_cases hfirst : Dotless first
      · rw [if_pos hfirst, List.lookup_cons, ih]
        cases key == first <;> rfl
      · have hne : (key == first) = false := by
          rw [beq_eq_false_iff_ne]
          rintro rfl
          exact hfirst hkey
        rw [if_neg hfirst, hne, ih]

theorem find?_undotted (entries : List (String × Element)) {keys : List String}
    (dotless : ∀ key ∈ keys, Dotless key) :
    find? (undottedEntries entries) keys = (find? entries keys).map Element.undotted := by
  induction entries, keys using find?.induct with
  | case1 entries => rfl
  | case2 entries key => exact lookup_undottedEntries (dotless key (by simp)) entries
  | case3 entries key rest hrest own inner hlookup ih =>
      obtain ⟨hkey, hrest⟩ := List.forall_mem_cons.mp dotless
      have hpruned := lookup_undottedEntries hkey entries
      simp only [hlookup, Option.map_some, Element.undotted] at hpruned
      simp only [find?, hlookup, hpruned]
      exact ih hrest
  | case4 entries key rest hrest hother =>
      have hpruned := lookup_undottedEntries (dotless key (by simp)) entries
      cases hlookup : entries.lookup key with
      | none =>
          rw [hlookup] at hpruned
          simp [find?, hlookup, hpruned]
      | some element =>
          rw [hlookup] at hpruned
          cases element with
          | parameter p => simp [find?, hlookup, hpruned, Element.undotted]
          | group own inner => exact absurd hlookup (hother own inner)

theorem get_undotted (group : Group) (path : String) :
    group.undotted.get path = Element.undotted <$> group.get path := by
  have hfind : group.undotted.find? path = (group.find? path).map Element.undotted :=
    find?_undotted group.entries (dotless_keysOf path)
  unfold Group.get
  rw [hfind]
  cases group.find? path <;> rfl

/-- Keys that a path can name. -/
structure Nameable (keys : List String) : Prop where
  nonempty : keys ≠ []
  dotless : ∀ key ∈ keys, Dotless key

theorem nameable_keysOf (path : String) : Nameable (keysOf path) :=
  ⟨keysOf_ne_nil path, dotless_keysOf path⟩

theorem get_eq_ok_iff {group : Group} {path : String} {element : Element} :
    group.get path = .ok element ↔ group.find? path = some element := by
  unfold Group.get
  cases group.find? path <;> simp

theorem get_eq_notFound_iff {group : Group} {path : String} :
    group.get path = .error (.notFound (childPath group.path path)) ↔ group.find? path = none := by
  unfold Group.get
  cases group.find? path <;> simp

/-- What lookups in a settings tree have to do with the document's table. -/
structure Mirrors (group : Group) (table : Toml.Table) : Prop where
  toParameter : ∀ keys, Nameable keys → ∀ value,
    (∃ own, group.get (joined keys) = .ok (.parameter ⟨own, value⟩)) ↔
      ∃ nested, Reaches table keys nested ∧ Denotes nested value
  toGroup : ∀ keys, Nameable keys →
    ((∃ own entries, group.get (joined keys) = .ok (.group own entries)) ↔
      ∃ nested, Reaches table keys nested ∧ ∀ value, ¬ Denotes nested value)
  toNothing : ∀ keys, Nameable keys →
    (group.get (joined keys) = .error (.notFound (childPath group.path (joined keys))) ↔
      ∀ nested, ¬ Reaches table keys nested)
  /-- There are no other paths. -/
  paths : ∀ path, Nameable (keysOf path) ∧ joined (keysOf path) = path
  /-- What stands under a key with a dot is never found: without it lookups end the same. -/
  undotted : ∀ path, group.undotted.get path = Element.undotted <$> group.get path

/-- Lookups in the settings of a document find what its own tables say, key by key. -/
theorem get_mirrors_table {table : Toml.Table} {group : Group}
    (h : Group.ofTable table = .ok group) : Mirrors group table := by
  obtain ⟨entries, hentries, hgroup⟩ := bind_eq_ok.mp h
  cases hgroup
  have hfind {keys : List String} (hkeys : Nameable keys) :
      Group.find? ⟨"", entries⟩ (joined keys) = find? entries keys := by
    rw [Group.find?, keysOf_joined hkeys.nonempty hkeys.dotless]
  constructor
  case toParameter =>
    intro keys hkeys value
    simp only [get_eq_ok_iff, hfind hkeys]
    exact find?_parameter_iff hentries hkeys.nonempty
  case toGroup =>
    intro keys hkeys
    simp only [get_eq_ok_iff, hfind hkeys]
    exact find?_group_iff hentries hkeys.nonempty
  case toNothing =>
    intro keys hkeys
    rw [get_eq_notFound_iff, hfind hkeys]
    exact find?_none_iff hentries hkeys.nonempty
  case paths => exact fun path => ⟨nameable_keysOf path, joined_keysOf path⟩
  case undotted => exact get_undotted _

/-- A table under the empty key, a key with a dot, and a parameter with a table inside. -/
def crooked : Toml.Table := [
  ("", .table [
    ("deep", .table [("type", .string "int"), ("val", .integer 7)])]),
  ("a", .table [
    ("b.c", .table [("type", .string "bool"), ("val", .boolean true)])]),
  ("leaf", .table [
    ("below", .table [("type", .string "int"), ("val", .integer 1)]),
    ("type", .string "str"),
    ("val", .string "ubx")])]

def crookedGroup : Group := ⟨"", [
  ("", .group "." [("deep", .parameter ⟨"..deep", .int 7⟩)]),
  ("a", .group ".a" [("b.c", .parameter ⟨".a.b.c", .bool true⟩)]),
  ("leaf", .parameter ⟨".leaf", .str "ubx"⟩)]⟩

theorem ofTable_crooked : Group.ofTable crooked = .ok crookedGroup := by cbv

theorem get_mirrors_crooked :
    Group.ofTable crooked = .ok crookedGroup ∧ Mirrors crookedGroup crooked ∧
      crookedGroup.get ".deep" = .ok (.parameter ⟨"..deep", .int 7⟩) ∧
      crookedGroup.get "leaf.below" = .error (.notFound ".leaf.below") ∧
      crookedGroup.get "a.b.c" = .error (.notFound ".a.b.c") := by
  refine ⟨ofTable_crooked, get_mirrors_table ofTable_crooked, ?_, ?_, ?_⟩ <;> cbv

end GnssFusion.Settings
