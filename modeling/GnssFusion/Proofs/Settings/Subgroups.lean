import GnssFusion.Proofs.Settings.Answers
import GnssFusion.Settings.Receiver

/-!
Looking up in one step and in two. The keys of a path that is continued behind a dot are the
keys of both parts (`keysOf_childPath`), so a continued path leads below the element that its
first part leads to (`find?_childPath`). In a settings tree the errors agree as well, since
a group carries the path that leads to it: a group below another answers every lookup as
that one does with the longer path (`FromTable.lookups_below`).
-/

namespace GnssFusion.Settings

theorem segments_append (front back : List Char) :
    segments (front ++ '.' :: back) = segments front ++ segments back := by
  induction front with
  | nil => simp [segments]
  | cons c rest ih =>
      by_cases h : c = '.'
      · simp [segments, h, ih]
      · rw [List.cons_append, segments, segments, if_neg h, if_neg h, ih]
        cases hrest : segments rest with
        | nil =>
            have hne := flatMap_segments rest
            rw [hrest] at hne
            exact absurd hne.symm (List.cons_ne_nil _ _)
        | cons head tail => rfl

theorem keysOf_childPath (path below : String) :
    keysOf (childPath path below) = keysOf path ++ keysOf below := by
  have htoList : (childPath path below).toList = path.toList ++ '.' :: below.toList := by
    simp [childPath]
  rw [keysOf, htoList, segments_append, List.map_append]
  rfl

theorem childPath_assoc (path middle below : String) :
    childPath path (childPath middle below) = childPath (childPath path middle) below := by
  simp [childPath, String.append_assoc]

/-- What stands directly in an element. There is nothing in a parameter. -/
def Element.entries : Element → List (String × Element)
  | .parameter _ => []
  | .group _ entries => entries

theorem find?_nil (keys : List String) : find? [] keys = none := by
  rcases keys with _ | ⟨key, _ | ⟨next, rest⟩⟩ <;> rfl

theorem find?_cons {keys : List String} (h : keys ≠ []) (entries : List (String × Element))
    (key : String) :
    find? entries (key :: keys) =
      (entries.lookup key).bind fun element => find? element.entries keys := by
  obtain ⟨next, rest, rfl⟩ := List.exists_cons_of_ne_nil h
  rw [find?]
  · cases entries.lookup key with
    | none => rfl
    | some element =>
        cases element with
        | parameter p => exact (find?_nil _).symm
        | group path inner => rfl
  · exact List.cons_ne_nil next rest

/-- Keys that go on lead from the element that the first of them lead to. -/
theorem find?_append {front back : List String} (hfront : front ≠ []) (hback : back ≠ [])
    (entries : List (String × Element)) :
    find? entries (front ++ back) =
      (find? entries front).bind fun element => find? element.entries back := by
  induction front generalizing entries with
  | nil => exact absurd rfl hfront
  | cons key rest ih =>
      rw [List.cons_append, find?_cons (by simp [hback])]
      cases rest with
      | nil => rfl
      | cons next keys =>
          have hrest := List.cons_ne_nil next keys
          rw [find?_cons hrest]
          cases entries.lookup key with
          | none => rfl
          | some element => exact ih hrest element.entries

namespace Group

theorem find?_childPath (group : Group) (path below : String) :
    group.find? (childPath path below) =
      (group.find? path).bind fun element => Settings.find? element.entries (keysOf below) := by
  rw [find?, keysOf_childPath, find?_append (keysOf_ne_nil _) (keysOf_ne_nil _)]
  rfl

/-- All that can be asked of settings by a path, with the answers. -/
structure Lookups where
  get : String → Except Error Element
  parameter : String → Except Error Parameter
  optional : String → Except Error (Option Parameter)
  subgroup : String → Except Error Group
  truth : String → Bool → Except Error Bool

def lookups (group : Group) : Lookups where
  get := group.get
  parameter := group.getParameter
  optional := group.getParameter?
  subgroup := group.getGroup
  truth := group.getBoolOr

/-- The lookups of paths that all begin with the same one. -/
def lookupsBelow (group : Group) (path : String) : Lookups where
  get below := group.get (childPath path below)
  parameter below := group.getParameter (childPath path below)
  optional below := group.getParameter? (childPath path below)
  subgroup below := group.getGroup (childPath path below)
  truth below default := group.getBoolOr (childPath path below) default

/-- Two groups answer alike if they find the same and their paths are the same. -/
theorem lookupsBelow_eq {group inner : Group} {path : String}
    (hfind : ∀ below, group.find? (childPath path below) = inner.find? below)
    (hpath : inner.path = childPath group.path path) :
    group.lookupsBelow path = inner.lookups := by
  have hget (below : String) : group.get (childPath path below) = inner.get below := by
    rw [get, get, hfind, hpath, childPath_assoc]
  have hoptional (below : String) :
      group.getParameter? (childPath path below) = inner.getParameter? below := by
    rw [getParameter?, getParameter?, hfind]
  simp only [lookupsBelow, getParameter, getGroup, getBoolOr, hget, hoptional]
  rfl

end Group

/-- The receiver's settings are resolved by lookups alone. -/
theorem ReceiverSettings.resolve_eq_of_lookups_eq {a b : Group} (h : a.lookups = b.lookups) :
    resolve a = resolve b := by
  have hoptional : a.getParameter? = b.getParameter? := congrArg Group.Lookups.optional h
  have htruth : a.getBoolOr = b.getBoolOr := congrArg Group.Lookups.truth h
  simp only [resolve, resolveFrameId, resolveRate, resolveNavRate, resolveNmea, resolvePublish,
    requiredByte, intIn, boolAt, hoptional, htruth]

theorem find?_of_getGroup_error {group : Group} {path : String} {e : Error}
    (h : group.getGroup path = .error e) :
    group.find? path = none ∨ ∃ p, group.find? path = some (.parameter p) := by
  cases hfind : group.find? path with
  | none => exact .inl rfl
  | some element =>
      cases element with
      | parameter p => exact .inr ⟨p, rfl⟩
      | group own entries =>
          obtain ⟨-, -, -, hgroup, -⟩ := lookups_of_group hfind
          nomatch hgroup.symm.trans h

/-- In a settings tree a group that a path leads to answers every lookup, errors included, as
the group that the path starts from does with the longer path, so that the same receiver
settings or the same fault is resolved of both. Below anything but a group nothing is found. -/
theorem FromTable.lookups_below {group : Group} (tree : FromTable group) (path : String) :
    (∀ inner, group.getGroup path = .ok inner →
      group.lookupsBelow path = inner.lookups ∧
        ∀ other : Group, other.lookups = group.lookupsBelow path →
          ReceiverSettings.resolve other = ReceiverSettings.resolve inner) ∧
    ∀ e, group.getGroup path = .error e → ∀ below,
      group.get (childPath path below) =
        .error (.notFound (childPath (childPath group.path path) below)) := by
  constructor
  · intro inner hinner
    have hfind := find?_of_getGroup hinner
    have heq : group.lookupsBelow path = inner.lookups := by
      refine Group.lookupsBelow_eq ?_ (tree.path_of_find? hfind)
      intro below
      rw [Group.find?_childPath, hfind]
      rfl
    refine ⟨heq, fun other hother => ?_⟩
    exact ReceiverSettings.resolve_eq_of_lookups_eq (hother.trans heq)
  · intro e he below
    have hnone : group.find? (childPath path below) = none := by
      rw [Group.find?_childPath]
      obtain hfind | ⟨p, hfind⟩ := find?_of_getGroup_error he
      · rw [hfind]
        rfl
      · rw [hfind]
        exact find?_nil _
    rw [Group.get, hnone, childPath_assoc]

theorem lookups_below_crooked :
    FromTable crookedGroup ∧ crookedGroup.getGroup "" = .ok emptyKeyGroup ∧
      crookedGroup.lookupsBelow "" = emptyKeyGroup.lookups ∧
      crookedGroup.getGroup "leaf" = .error (.notAGroup ".leaf") ∧
      crookedGroup.get "leaf.." = .error (.notFound ".leaf..") := by
  have tree : FromTable crookedGroup := .root ofTable_crooked
  have hempty : crookedGroup.getGroup "" = .ok emptyKeyGroup := rfl
  have hleaf : crookedGroup.getGroup "leaf" = .error (.notAGroup ".leaf") := by cbv
  exact ⟨tree, hempty, ((FromTable.lookups_below tree "").1 _ hempty).1, hleaf,
    (FromTable.lookups_below tree "leaf").2 _ hleaf "."⟩

end GnssFusion.Settings
