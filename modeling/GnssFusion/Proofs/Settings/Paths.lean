import GnssFusion.Settings.Lookup

/-!
Absolute paths in settings trees. In a tree that was read from a table each element
carries the keys that lead to it, each behind a dot (`pathsFrom_elements`), so that an
element found under a relative path carries the group's path, a dot and that relative path
(`FromTable.path_of_find?`), dots at its ends or in a row included.
-/

namespace GnssFusion.Settings

def Element.path : Element → String
  | .parameter p => p.path
  | .group path _ => path

/-- The elements of a group at a path carry their own paths, and so do those below. -/
inductive PathsFrom : String → List (String × Element) → Prop
  | nil {path : String} : PathsFrom path []
  | parameter {path key : String} {value : Setting} {rest : List (String × Element)} :
      PathsFrom path rest →
      PathsFrom path ((key, .parameter ⟨childPath path key, value⟩) :: rest)
  | group {path key : String} {inner rest : List (String × Element)} :
      PathsFrom (childPath path key) inner → PathsFrom path rest →
      PathsFrom path ((key, .group (childPath path key) inner) :: rest)

/-- What is known of an element that stands at a path. -/
def Element.StandsAt (element : Element) (path : String) : Prop :=
  element.path = path ∧ ∀ own inner, element = .group own inner → PathsFrom own inner

theorem bind_eq_ok {ε α β : Type} {x : Except ε α} {f : α → Except ε β} {b : β} :
    (x >>= f) = .ok b ↔ ∃ a, x = .ok a ∧ f a = .ok b := by
  cases x with
  | error e => simp [bind, Except.bind]
  | ok a => simp [bind, Except.bind]

theorem map_eq_ok {ε α β : Type} {x : Except ε α} {f : α → β} {b : β} :
    (f <$> x) = .ok b ↔ ∃ a, x = .ok a ∧ f a = b := by
  cases x with
  | error e => simp [Functor.map, Except.map]
  | ok a => simp [Functor.map, Except.map]

theorem pathsFrom_elements {path : String} {table : Toml.Table}
    {entries : List (String × Element)} (h : elements path table = .ok entries) :
    PathsFrom path entries := by
  fun_induction elements path table generalizing entries with
  | case1 path =>
      cases h
      exact .nil
  | case2 path key table rest child finish value hvalue =>
      rename_i ih
      rw [pure_bind] at h
      obtain ⟨others, hothers, hentries⟩ := bind_eq_ok.mp h
      cases hentries
      exact .parameter (ih hothers)
  | case3 path key table rest child finish hvalue ihrest =>
      rename_i ihtable
      obtain ⟨element, helement, h⟩ := bind_eq_ok.mp h
      obtain ⟨inner, hinner, rfl⟩ := map_eq_ok.mp helement
      obtain ⟨others, hothers, hentries⟩ := bind_eq_ok.mp h
      cases hentries
      exact .group (ihtable hinner) (ihrest hothers)
  | case4 path head tail hother => nomatch h

theorem PathsFrom.lookup {path key : String} {entries : List (String × Element)}
    {element : Element} (h : PathsFrom path entries) (hlookup : entries.lookup key = some element) :
    element.StandsAt (childPath path key) := by
  induction h with
  | nil => nomatch hlookup
  | @parameter path first value rest hrest ih =>
      rw [List.lookup_cons] at hlookup
      split at hlookup
      · next hkey =>
          cases hlookup
          rw [eq_of_beq hkey]
          exact ⟨rfl, fun own inner h => nomatch h⟩
      · exact ih hlookup
  | @group path first inner rest hinner hrest _ ih =>
      rw [List.lookup_cons] at hlookup
      split at hlookup
      · next hkey =>
          cases hlookup
          rw [eq_of_beq hkey]
          refine ⟨rfl, ?_⟩
          intro own entries hgroup
          cases hgroup
          exact hinner
      · exact ih hlookup

theorem PathsFrom.find? {path : String} {entries : List (String × Element)}
    {keys : List String} {element : Element} (h : PathsFrom path entries)
    (hfind : Settings.find? entries keys = some element) :
    element.StandsAt (keys.foldl childPath path) := by
  induction entries, keys using find?.induct generalizing path with
  | case1 entries => nomatch hfind
  | case2 entries key => exact h.lookup hfind
  | case3 entries key rest hrest own inner hlookup ih =>
      obtain ⟨hown, hinner⟩ := h.lookup hlookup
      simp only [Settings.find?, hlookup] at hfind
      rw [List.foldl_cons, ← hown]
      exact ih (hinner own inner rfl) hfind
  | case4 entries key rest hrest hother =>
      simp only [Settings.find?] at hfind
      nomatch hfind

theorem flatMap_segments (chars : List Char) :
    (segments chars).flatMap ('.' :: ·) = '.' :: chars := by
  induction chars with
  | nil => rfl
  | cons c rest ih =>
      by_cases h : c = '.'
      · simp [segments, h, ih]
      · cases hrest : segments rest with
        | nil => simp [hrest] at ih
        | cons head tail =>
            simp only [hrest, List.flatMap_cons, List.cons_append, List.cons.injEq,
              true_and] at ih
            simp [segments, h, hrest, ih]

theorem toList_foldl_childPath (keys : List String) (path : String) :
    (keys.foldl childPath path).toList =
      path.toList ++ (keys.map String.toList).flatMap ('.' :: ·) := by
  induction keys generalizing path with
  | nil => simp
  | cons key rest ih => simp [ih, childPath]

/-- The keys of a relative path, each behind a dot, are a dot and that path. -/
theorem foldl_childPath_keysOf (path relative : String) :
    (keysOf relative).foldl childPath path = childPath path relative := by
  rw [← String.toList_inj, toList_foldl_childPath, keysOf, List.map_map]
  have hid : String.toList ∘ String.ofList = id := by
    funext chars
    exact String.toList_ofList
  simp [hid, flatMap_segments, childPath]

/-- The groups of settings trees: those of whole tables, and those reached from them. -/
inductive FromTable : Group → Prop
  | root {table : Toml.Table} {group : Group} : Group.ofTable table = .ok group → FromTable group
  | child {group inner : Group} {path : String} :
      FromTable group → group.getGroup path = .ok inner → FromTable inner

theorem find?_of_getGroup {group inner : Group} {path : String}
    (h : group.getGroup path = .ok inner) :
    group.find? path = some (.group inner.path inner.entries) := by
  obtain ⟨element, helement, hgroup⟩ := bind_eq_ok.mp h
  rw [Group.get] at helement
  cases hfind : group.find? path with
  | none => simp [hfind] at helement
  | some found =>
      rw [hfind] at helement
      cases helement
      cases element with
      | parameter p => nomatch hgroup
      | group own entries =>
          cases hgroup
          rfl

theorem FromTable.pathsFrom {group : Group} (h : FromTable group) :
    PathsFrom group.path group.entries := by
  induction h with
  | root h =>
      obtain ⟨entries, hentries, hgroup⟩ := bind_eq_ok.mp h
      cases hgroup
      exact pathsFrom_elements hentries
  | child _ hinner ih =>
      obtain ⟨-, hpaths⟩ := ih.find? (find?_of_getGroup hinner)
      exact hpaths _ _ rfl

/-- An element found under a relative path carries the absolute path asked for. -/
theorem FromTable.path_of_find? {group : Group} (h : FromTable group) {path : String}
    {element : Element} (hfind : group.find? path = some element) :
    element.path = childPath group.path path := by
  rw [← foldl_childPath_keysOf]
  exact (h.pathsFrom.find? hfind).1

end GnssFusion.Settings
