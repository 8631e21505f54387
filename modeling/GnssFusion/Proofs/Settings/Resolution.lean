import GnssFusion.Proofs.Settings.Paths
import GnssFusion.Settings.Receiver
import Mathlib

/-!
Which settings are examined, in which order, and what is wrong with one. Resolution gives
settings exactly when all examined requirements are met, and otherwise the fault of the
first one that is not (`examines_resolve`). A requirement that stands behind a switch that
is off is not examined, whatever is written there.
-/

namespace GnssFusion.Settings

/-- What a setting must be where it is given. -/
inductive Demand
  | text
  | rate
  | integer (low high : Int)
  | flag
  deriving DecidableEq, Repr

structure Requirement where
  path : String
  demand : Demand
  /-- Whether the setting must be given. -/
  mandatory : Bool
  deriving DecidableEq, Repr

def RateInRange (rate : Binary64) : Prop := minimumRate.le rate ∧ rate.le maximumRate

instance (rate : Binary64) : Decidable (RateInRange rate) :=
  inferInstanceAs (Decidable (_ ∧ _))

namespace Demand

/-- An integer may stand for a rate. -/
def Accepts : Demand → Setting → Prop
  | .text, .str _ => True
  | .rate, .float x => RateInRange x
  | .rate, .int value => RateInRange (.ofInt value)
  | .integer low high, .int value => low ≤ value ∧ value ≤ high
  | .flag, .bool _ => True
  | _, _ => False

/-- What is wrong with a value at an absolute path, if anything is. -/
def fault? (path : String) : Demand → Setting → Option ResolveError
  | .text, .str _ => none
  | .text, _ => some (.lookup (.wrongKind path .str))
  | .rate, .float x => if RateInRange x then none else some (.invalidRate x)
  | .rate, .int value =>
      if RateInRange (.ofInt value) then none else some (.invalidRate (.ofInt value))
  | .rate, _ => some (.lookup (.wrongKind path .float))
  | .integer low high, .int value =>
      if low ≤ value ∧ value ≤ high then none else some (.outOfRange path low high value)
  | .integer .., _ => some (.lookup (.wrongKind path .int))
  | .flag, .bool _ => none
  | .flag, _ => some (.lookup (.wrongKind path .bool))

theorem fault?_eq_none_iff (path : String) (demand : Demand) (value : Setting) :
    demand.fault? path value = none ↔ demand.Accepts value := by
  cases demand <;> cases value <;> simp [fault?, Accepts]

end Demand

namespace Requirement

/-- A setting is as required if it is absent and need not be given, or is a parameter with
an acceptable value. -/
def Met (r : Requirement) (group : Group) : Prop :=
  match group.find? r.path with
  | none => r.mandatory = false
  | some (.group ..) => False
  | some (.parameter p) => r.demand.Accepts p.value

/-- What is wrong with a setting, if anything is; errors carry the absolute path. -/
def fault? (r : Requirement) (group : Group) : Option ResolveError :=
  match group.find? r.path with
  | none => if r.mandatory then some (.missingDependent "nmea.set" r.path) else none
  | some (.group ..) => some (.lookup (.notAParameter (childPath group.path r.path)))
  | some (.parameter p) => r.demand.fault? (childPath group.path r.path) p.value

theorem fault?_eq_none_iff (r : Requirement) (group : Group) :
    r.fault? group = none ↔ r.Met group := by
  unfold fault? Met
  cases group.find? r.path with
  | none => cases r.mandatory <;> simp
  | some element =>
      cases element with
      | group path entries => simp
      | parameter p => exact Demand.fault?_eq_none_iff _ _ _

instance (r : Requirement) (group : Group) : Decidable (r.Met group) :=
  decidable_of_iff _ (r.fault?_eq_none_iff group)

end Requirement

/-- Whether a truth value is given and true. -/
def Group.flagAt (group : Group) (path : String) : Bool :=
  match group.find? path with
  | some (.parameter ⟨_, .bool value⟩) => value
  | _ => false

/-- The value of a setting that is given. -/
def Group.settingAt? (group : Group) (path : String) : Option Setting :=
  match group.find? path with
  | some (.parameter p) => some p.value
  | _ => none

theorem Group.flagAt_iff {group : Group} {path : String} :
    group.flagAt path = true ↔ group.settingAt? path = some (.bool true) := by
  unfold flagAt settingAt?
  split
  · next value h => simp [h]
  · next hother =>
      refine iff_of_false Bool.false_ne_true ?_
      intro h
      split at h
      · next p hfind =>
          obtain ⟨own, value⟩ := p
          cases h
          exact hother own true hfind
      · nomatch h

theorem settingAt?_of_getParameter? {group : Group} {path : String} {found : Option Parameter}
    (h : group.getParameter? path = .ok found) : group.settingAt? path = found.map (·.value) := by
  unfold Group.getParameter? at h
  unfold Group.settingAt?
  cases hfind : group.find? path with
  | none =>
      rw [hfind] at h
      cases h
      rfl
  | some element =>
      rw [hfind] at h
      cases element with
      | parameter p =>
          cases h
          rfl
      | group own entries => nomatch h

def generalRequirements : List Requirement := [
  ⟨"frame_id", .text, false⟩,
  ⟨"rate", .rate, false⟩,
  ⟨"nav_rate", .integer 1 127, false⟩,
  ⟨"nmea.set", .flag, false⟩]

def nmeaRequirements : List Requirement := [
  ⟨"nmea.version", .integer 0 255, true⟩,
  ⟨"nmea.num_sv", .integer 0 255, true⟩,
  ⟨"nmea.compat", .flag, false⟩,
  ⟨"nmea.consider", .flag, false⟩,
  ⟨"nmea.filter.pos", .flag, false⟩,
  ⟨"nmea.filter.msk_pos", .flag, false⟩,
  ⟨"nmea.filter.time", .flag, false⟩,
  ⟨"nmea.filter.date", .flag, false⟩,
  ⟨"nmea.filter.sbas", .flag, false⟩,
  ⟨"nmea.filter.track", .flag, false⟩]

def publishRequirements : List Requirement := [
  ⟨"publish.nav.posllh", .flag, false⟩,
  ⟨"publish.nav.velned", .flag, false⟩,
  ⟨"publish.nav.sol", .flag, false⟩,
  ⟨"publish.nav.svinfo", .flag, false⟩,
  ⟨"publish.mon.hw", .flag, false⟩]

/-- What is examined, in order. The sentence output counts only if it is switched on. -/
def examined (group : Group) : List Requirement :=
  generalRequirements ++ (if group.flagAt "nmea.set" then nmeaRequirements else []) ++
    publishRequirements

def errorOf {α : Type} : Resolve α → Option ResolveError
  | .error e => some e
  | .ok _ => none

@[simp] theorem errorOf_ok {α : Type} (a : α) : errorOf (.ok a : Resolve α) = none := rfl

@[simp] theorem errorOf_error {α : Type} (e : ResolveError) :
    errorOf (.error e : Resolve α) = some e := rfl

@[simp] theorem errorOf_map {α β : Type} (f : α → β) (x : Resolve α) :
    errorOf (f <$> x) = errorOf x := by
  cases x <;> rfl

/-- The error of two steps in a row, when the second one's does not depend on the value
that the first one gives. -/
theorem errorOf_bind {α β : Type} {x : Resolve α} {f : α → Resolve β}
    {later : Option ResolveError} (h : ∀ a, x = .ok a → errorOf (f a) = later) :
    errorOf (x >>= f) = (errorOf x).or later := by
  cases x with
  | error e => rfl
  | ok a => exact h a rfl

theorem lookup_bind {α β : Type} (x : Except Error α) (f : α → Except Error β) :
    lookup (x >>= f) = lookup x >>= fun a => lookup (f a) := by
  cases x <;> rfl

theorem lookup_eq_ok {α : Type} {x : Except Error α} {a : α} :
    lookup x = .ok a ↔ x = .ok a := by
  cases x <;> simp [lookup, Except.mapError]

theorem eq_flagAt_of_boolAt {group : Group} {path : String} {value : Bool}
    (h : boolAt group path = .ok value) : value = group.flagAt path := by
  obtain ⟨found, hfound, h⟩ := bind_eq_ok.mp (lookup_eq_ok.mp h)
  rw [Bool.eq_iff_iff, Group.flagAt_iff, settingAt?_of_getParameter? hfound]
  cases found with
  | none =>
      cases h
      simp
  | some p =>
      obtain ⟨own, given⟩ := p
      cases given <;> cases h
      simp

theorem errorOf_eq_some_iff {α : Type} {x : Resolve α} {e : ResolveError} :
    errorOf x = some e ↔ x = .error e := by
  cases x <;> simp

theorem errorOf_eq_none_iff {α : Type} {x : Resolve α} :
    errorOf x = none ↔ ∃ a, x = .ok a := by
  cases x <;> simp

/-- The check of a rate, as `resolveRate` makes it once it has one. -/
theorem errorOf_checkedRate (rate : Binary64) :
    errorOf (if minimumRate.le rate && rate.le maximumRate then pure rate
      else .error (.invalidRate rate) : Resolve Binary64) =
      if RateInRange rate then none else some (.invalidRate rate) := by
  by_cases h : RateInRange rate
  · rw [if_pos h, if_pos (by simpa [RateInRange] using h)]
    rfl
  · rw [if_neg h, if_neg (by simpa [RateInRange] using h)]
    rfl

theorem of_checkedRate {given rate : Binary64}
    (h : (if minimumRate.le given && given.le maximumRate then pure given
      else .error (.invalidRate given) : Resolve Binary64) = .ok rate) :
    rate = given ∧ RateInRange rate := by
  split at h
  · next hrange =>
      cases h
      exact ⟨rfl, by simpa [RateInRange] using hrange⟩
  · nomatch h

theorem rateInRange_default : RateInRange ReceiverSettings.default.rate := by decide +kernel

/-- A resolution goes through requirements in order, up to the first that is not met. -/
def Examines {α : Type} (group : Group) (x : Resolve α) (requirements : List Requirement) :
    Prop :=
  errorOf x = requirements.findSome? (·.fault? group)

namespace Examines

variable {α β : Type} {group : Group} {x : Resolve α} {f : α → Resolve β}

theorem nothing (a : α) : Examines group (pure a : Resolve α) [] := rfl

theorem next {r : Requirement} {rest : List Requirement} (hx : errorOf x = r.fault? group)
    (hf : ∀ a, x = .ok a → Examines group (f a) rest) : Examines group (x >>= f) (r :: rest) := by
  unfold Examines
  rw [errorOf_bind hf, hx, List.findSome?_cons]
  cases r.fault? group <;> rfl

theorem append {before after : List Requirement} (hx : Examines group x before)
    (hf : ∀ a, x = .ok a → Examines group (f a) after) :
    Examines group (x >>= f) (before ++ after) := by
  unfold Examines
  rw [errorOf_bind hf, hx, List.findSome?_append]

theorem map {requirements : List Requirement} (g : α → β) (hx : Examines group x requirements) :
    Examines group (g <$> x) requirements :=
  (errorOf_map g x).trans hx

end Examines

section
variable {group : Group} (tree : FromTable group)
include tree

/-- A setting is absent, a group, or a parameter, and carries its absolute path. -/
theorem getParameter?_cases (path : String) :
    group.find? path = none ∧ group.getParameter? path = .ok none ∨
    (∃ own inner, group.find? path = some (.group own inner) ∧
      group.getParameter? path = .error (.notAParameter (childPath group.path path))) ∨
    ∃ value, group.find? path = some (.parameter ⟨childPath group.path path, value⟩) ∧
      group.getParameter? path = .ok (some ⟨childPath group.path path, value⟩) := by
  unfold Group.getParameter?
  cases hfind : group.find? path with
  | none => exact .inl ⟨rfl, rfl⟩
  | some element =>
      have hpath := tree.path_of_find? hfind
      cases element with
      | group own inner =>
          refine .inr (.inl ⟨own, inner, rfl, ?_⟩)
          rw [← hpath]
          rfl
      | parameter p =>
          refine .inr (.inr ⟨p.value, ?_, ?_⟩)
          · rw [← hpath]
            rfl
          · rw [← hpath]
            rfl

/-- What is wrong with a setting is decided by what comes of its absence and of each value
that can be given. -/
theorem errorOf_setting {α : Type} {r : Requirement} {f : Option Parameter → Resolve α}
    (hnone : errorOf (f none) =
      if r.mandatory then some (.missingDependent "nmea.set" r.path) else none)
    (hsome : ∀ value, errorOf (f (some ⟨childPath group.path r.path, value⟩)) =
      r.demand.fault? (childPath group.path r.path) value) :
    errorOf (lookup (group.getParameter? r.path) >>= f) = r.fault? group := by
  unfold Requirement.fault?
  obtain ⟨hfind, hget⟩ | ⟨own, inner, hfind, hget⟩ | ⟨value, hfind, hget⟩ :=
    getParameter?_cases tree r.path
  · rw [hfind, hget]
    exact hnone
  · rw [hfind, hget]
    rfl
  · rw [hfind, hget]
    exact hsome value

theorem errorOf_resolveFrameId :
    errorOf (resolveFrameId group) =
      (⟨"frame_id", .text, false⟩ : Requirement).fault? group := by
  unfold resolveFrameId
  exact errorOf_setting tree (r := ⟨"frame_id", .text, false⟩) rfl fun value => by
    cases value <;> rfl

theorem errorOf_boolAt (path : String) :
    errorOf (boolAt group path) = (⟨path, .flag, false⟩ : Requirement).fault? group := by
  rw [boolAt, Group.getBoolOr, lookup_bind]
  exact errorOf_setting tree (r := ⟨path, .flag, false⟩) rfl fun value => by
    cases value <;> rfl

theorem errorOf_resolveRate :
    errorOf (resolveRate group) = (⟨"rate", .rate, false⟩ : Requirement).fault? group := by
  unfold resolveRate
  refine errorOf_setting tree (r := ⟨"rate", .rate, false⟩) ?_ fun value => ?_
  · simp only [pure_bind]
    exact (errorOf_checkedRate _).trans (if_pos rateInRange_default)
  · simp only [lookup, Except.mapError, bind, Except.bind]
    cases value with
    | float x => exact errorOf_checkedRate x
    | int n => exact errorOf_checkedRate (.ofInt n)
    | bool b => rfl
    | str text => rfl

/-- An integer that only its absence can make a fault of, apart from its own. -/
theorem errorOf_intIn_bind {α : Type} {path : String} {low high : Int} {mandatory : Bool}
    {f : Option Int → Resolve α} (hsome : ∀ n, errorOf (f (some n)) = none)
    (hnone : errorOf (f none) =
      if mandatory then some (.missingDependent "nmea.set" path) else none) :
    errorOf (intIn group path low high >>= f) =
      (⟨path, .integer low high, mandatory⟩ : Requirement).fault? group := by
  unfold intIn
  rw [bind_assoc]
  refine errorOf_setting tree (r := ⟨path, .integer low high, mandatory⟩) hnone fun value => ?_
  cases value with
  | int n =>
      change errorOf ((do
        if n < low ∨ high < n then .error (.outOfRange (childPath group.path path) low high n)
        return some n) >>= f) = if low ≤ n ∧ n ≤ high then none else
          some (.outOfRange (childPath group.path path) low high n)
      by_cases h : low ≤ n ∧ n ≤ high
      · rw [if_pos h, if_neg (by omega)]
        exact hsome n
      · rw [if_neg h, if_pos (by omega)]
        rfl
  | float x => rfl
  | bool b => rfl
  | str text => rfl

theorem errorOf_resolveNavRate :
    errorOf (resolveNavRate group) =
      (⟨"nav_rate", .integer 1 127, false⟩ : Requirement).fault? group :=
  errorOf_intIn_bind tree (fun _ => rfl) rfl

theorem errorOf_requiredByte (path : String) :
    errorOf (requiredByte group path) =
      (⟨path, .integer 0 255, true⟩ : Requirement).fault? group :=
  errorOf_intIn_bind tree (fun _ => rfl) rfl

theorem examines_resolveNmea : Examines group (resolveNmea group) nmeaRequirements :=
  .next (errorOf_requiredByte tree _) fun _ _ =>
  .next (errorOf_requiredByte tree _) fun _ _ =>
  .next (errorOf_boolAt tree _) fun _ _ =>
  .next (errorOf_boolAt tree _) fun _ _ =>
  .next (errorOf_boolAt tree _) fun _ _ =>
  .next (errorOf_boolAt tree _) fun _ _ =>
  .next (errorOf_boolAt tree _) fun _ _ =>
  .next (errorOf_boolAt tree _) fun _ _ =>
  .next (errorOf_boolAt tree _) fun _ _ =>
  .next (errorOf_boolAt tree _) fun _ _ => .nothing _

theorem examines_resolvePublish : Examines group (resolvePublish group) publishRequirements :=
  .next (errorOf_boolAt tree _) fun _ _ =>
  .next (errorOf_boolAt tree _) fun _ _ =>
  .next (errorOf_boolAt tree _) fun _ _ =>
  .next (errorOf_boolAt tree _) fun _ _ =>
  .next (errorOf_boolAt tree _) fun _ _ => .nothing _

theorem examines_resolve :
    Examines group (ReceiverSettings.resolve group) (examined group) := by
  refine .next (errorOf_resolveFrameId tree) fun frameId _ =>
    .next (errorOf_resolveRate tree) fun rate _ =>
    .next (errorOf_resolveNavRate tree) fun navRate _ =>
    .next (errorOf_boolAt tree _) fun on hon => ?_
  have hpublish : ∀ nmea : Option NmeaSettings, Examines group (do
      let publish ← resolvePublish group
      return (⟨frameId, rate, navRate, nmea, publish⟩ : ReceiverSettings)) publishRequirements :=
    fun nmea => .map _ (examines_resolvePublish tree)
  cases on with
  | false =>
      rw [← eq_flagAt_of_boolAt hon]
      exact hpublish none
  | true =>
      rw [← eq_flagAt_of_boolAt hon]
      refine Examines.append ?_ fun nmea _ => hpublish nmea
      exact (examines_resolveNmea tree).map some

end

/-! What resolved settings hold, whatever they were resolved from. -/

section
variable {group : Group}

theorem rateInRange_of_resolveRate {rate : Binary64} (h : resolveRate group = .ok rate) :
    RateInRange rate := by
  unfold resolveRate at h
  obtain ⟨given, -, h⟩ := bind_eq_ok.mp h
  cases given with
  | none =>
      simp only [pure_bind] at h
      exact (of_checkedRate h).2
  | some p =>
      change (lookup p.asFloat >>= fun x => _) = _ at h
      obtain ⟨x, -, h⟩ := bind_eq_ok.mp h
      exact (of_checkedRate h).2

theorem intIn_bounds {path : String} {low high value : Int}
    (h : intIn group path low high = .ok (some value)) : low ≤ value ∧ value ≤ high := by
  obtain ⟨given, -, h⟩ := bind_eq_ok.mp h
  cases given with
  | none => nomatch h
  | some p =>
      obtain ⟨n, -, h⟩ := bind_eq_ok.mp h
      split at h
      · nomatch h
      · cases h
        omega

theorem navRate_bounds {navRate : UInt8} (h : resolveNavRate group = .ok navRate) :
    1 ≤ navRate.toNat ∧ navRate.toNat ≤ 127 := by
  obtain ⟨given, hgiven, h⟩ := bind_eq_ok.mp h
  cases given with
  | none =>
      cases h
      decide
  | some value =>
      have hvalue := intIn_bounds hgiven
      cases h
      rw [UInt8.toNat_ofNat_of_lt' (show _ < 256 by omega)]
      omega

/-- Resolved settings have a rate and a navigation rate within their ranges. -/
theorem bounds_of_resolve {settings : ReceiverSettings}
    (h : ReceiverSettings.resolve group = .ok settings) :
    RateInRange settings.rate ∧ 1 ≤ settings.navRate.toNat ∧ settings.navRate.toNat ≤ 127 := by
  obtain ⟨frameId, -, h⟩ := bind_eq_ok.mp h
  obtain ⟨rate, hrate, h⟩ := bind_eq_ok.mp h
  obtain ⟨navRate, hnavRate, h⟩ := bind_eq_ok.mp h
  obtain ⟨on, -, h⟩ := bind_eq_ok.mp h
  have hsettings : settings.rate = rate ∧ settings.navRate = navRate := by
    cases on
    all_goals
      obtain ⟨nmea, -, h⟩ := bind_eq_ok.mp h
      obtain ⟨publish, -, h⟩ := bind_eq_ok.mp h
      cases h
      exact ⟨rfl, rfl⟩
  rw [hsettings.1, hsettings.2]
  exact ⟨rateInRange_of_resolveRate hrate, navRate_bounds hnavRate⟩

end

/-! What can be missing. -/

theorem Demand.fault?_ne_missing (demand : Demand) (path flag field : String) (value : Setting) :
    demand.fault? path value ≠ some (.missingDependent flag field) := by
  cases demand <;> cases value <;> simp [fault?]

theorem Requirement.fault?_eq_missing_iff {r : Requirement} {group : Group}
    {flag field : String} :
    r.fault? group = some (.missingDependent flag field) ↔
      r.mandatory ∧ flag = "nmea.set" ∧ r.path = field ∧ group.find? field = none := by
  unfold Requirement.fault?
  constructor
  · intro h
    split at h
    · next hfind =>
        split at h
        · next hmandatory =>
            cases h
            exact ⟨hmandatory, rfl, rfl, hfind⟩
        · nomatch h
    · nomatch h
    · exact absurd h (Demand.fault?_ne_missing _ _ _ _ _)
  · rintro ⟨hmandatory, rfl, rfl, hfind⟩
    rw [hfind]
    exact if_pos hmandatory

/-- Only the bytes of the sentence output must be given, and only when it is on. -/
theorem eq_byte_of_mandatory {group : Group} {r : Requirement} (hr : r ∈ examined group)
    (hmandatory : r.mandatory) :
    r = ⟨r.path, .integer 0 255, true⟩ ∧ group.flagAt "nmea.set" := by
  have hgeneral : ∀ r ∈ generalRequirements, r.mandatory = false := by decide
  have hnmea : ∀ r ∈ nmeaRequirements, r.mandatory → r = ⟨r.path, .integer 0 255, true⟩ := by
    decide
  have hpublish : ∀ r ∈ publishRequirements, r.mandatory = false := by decide
  rw [examined, List.mem_append, List.mem_append] at hr
  obtain (hr | hr) | hr := hr
  · nomatch hmandatory.symm.trans (hgeneral r hr)
  · split at hr
    · next hon => exact ⟨hnmea r hr hmandatory, hon⟩
    · nomatch hr
  · nomatch hmandatory.symm.trans (hpublish r hr)

/-- Resolution fails with the fault of the first examined setting that is not as required,
and gives settings if there is none. A missing dependent setting is the fault exactly when
the sentence output is switched on, the setting is one of the two bytes that must then be
given, it is absent, and what is examined before it is as required. -/
theorem ReceiverSettings.resolve_fails_at_first_fault {group : Group} (tree : FromTable group) :
    (∀ e, resolve group = .error e ↔
      ∃ before r after, examined group = before ++ r :: after ∧
        (∀ earlier ∈ before, earlier.Met group) ∧ r.fault? group = some e) ∧
    ((∃ settings, resolve group = .ok settings) ↔ ∀ r ∈ examined group, r.Met group) ∧
    ∀ flag field, resolve group = .error (.missingDependent flag field) ↔
      flag = "nmea.set" ∧ group.flagAt "nmea.set" ∧ group.find? field = none ∧
        ∃ before after, examined group = before ++ ⟨field, .integer 0 255, true⟩ :: after ∧
          ∀ earlier ∈ before, earlier.Met group := by
  have herror : ∀ e, resolve group = .error e ↔
      ∃ before r after, examined group = before ++ r :: after ∧
        (∀ earlier ∈ before, earlier.Met group) ∧ r.fault? group = some e := by
    intro e
    rw [← errorOf_eq_some_iff, examines_resolve tree, List.findSome?_eq_some_iff]
    simp only [Requirement.fault?_eq_none_iff, and_comm]
  refine ⟨herror, ?_, ?_⟩
  · rw [← errorOf_eq_none_iff, examines_resolve tree, List.findSome?_eq_none_iff]
    simp only [Requirement.fault?_eq_none_iff]
  · intro flag field
    rw [herror]
    constructor
    · rintro ⟨before, r, after, hsplit, hbefore, hfault⟩
      obtain ⟨hmandatory, hflag, rfl, habsent⟩ := Requirement.fault?_eq_missing_iff.mp hfault
      have hmem : r ∈ examined group := by rw [hsplit]; simp
      obtain ⟨hr, hon⟩ := eq_byte_of_mandatory hmem hmandatory
      rw [hr] at hsplit
      exact ⟨hflag, hon, habsent, before, after, hsplit, hbefore⟩
    · rintro ⟨hflag, -, habsent, before, after, hsplit, hbefore⟩
      exact ⟨before, _, after, hsplit, hbefore,
        Requirement.fault?_eq_missing_iff.mpr ⟨rfl, hflag, rfl, habsent⟩⟩

/-- A table whose group switches the sentence output on and gives its version, but not
the number of satellites; a later setting is not right either. -/
def twoFaults : Toml.Table := [
  ("gps", .table [
    ("nmea", .table [
      ("set", .table [("type", .string "bool"), ("val", .boolean true)]),
      ("version", .table [("type", .string "int"), ("val", .integer 35)])]),
    ("publish", .table [
      ("mon", .table [
        ("hw", .table [("type", .string "int"), ("val", .integer 1)])])])])]

def twoFaultsGroup : Group := ⟨".gps", [
  ("nmea", .group ".gps.nmea" [
    ("set", .parameter ⟨".gps.nmea.set", .bool true⟩),
    ("version", .parameter ⟨".gps.nmea.version", .int 35⟩)]),
  ("publish", .group ".gps.publish" [
    ("mon", .group ".gps.publish.mon" [
      ("hw", .parameter ⟨".gps.publish.mon.hw", .int 1⟩)])])]⟩

theorem ofTable_twoFaults :
    Group.ofTable twoFaults = .ok ⟨"", [("gps", .group ".gps" twoFaultsGroup.entries)]⟩ := by
  cbv

theorem ReceiverSettings.resolve_fails_at_missing_satellites :
    FromTable twoFaultsGroup ∧
      resolve twoFaultsGroup = .error (.missingDependent "nmea.set" "nmea.num_sv") := by
  have tree : FromTable twoFaultsGroup :=
    .child (.root ofTable_twoFaults) (rfl : Group.getGroup _ "gps" = _)
  refine ⟨tree, ((resolve_fails_at_first_fault tree).2.2 _ _).mpr ⟨rfl, rfl, rfl, ?_⟩⟩
  exact ⟨generalRequirements ++ [⟨"nmea.version", .integer 0 255, true⟩], _, rfl, by decide⟩

end GnssFusion.Settings
