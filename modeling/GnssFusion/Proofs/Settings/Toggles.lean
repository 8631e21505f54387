import GnssFusion.Proofs.Settings.Resolution

/-!
What resolved settings are made of. A resolution that succeeds has taken each value that is
given and the default of each that is not (`eq_given_of_resolve`), so settings depend on
their groups setting by setting. Each toggle has a field or a bit of its own, and two
resolutions that read the same but for one toggle differ there at most.
-/

namespace GnssFusion.Settings

/-! Values as they are used, given or not. -/

def textOr (default : String) : Option Setting → String
  | some (.str text) => text
  | _ => default

def numberOr (default : Binary64) : Option Setting → Binary64
  | some (.float x) => x
  | some (.int value) => .ofInt value
  | _ => default

def byteOr (default : UInt8) : Option Setting → UInt8
  | some (.int value) => UInt8.ofNat value.toNat
  | _ => default

namespace Group

/-- The sentence output as it is given; its two bytes have no defaults. -/
def givenNmea (group : Group) : NmeaSettings where
  version := byteOr 0 (group.settingAt? "nmea.version")
  numSv := byteOr 0 (group.settingAt? "nmea.num_sv")
  filter := ⟨group.flagAt "nmea.filter.pos", group.flagAt "nmea.filter.msk_pos",
    group.flagAt "nmea.filter.time", group.flagAt "nmea.filter.date",
    group.flagAt "nmea.filter.sbas", group.flagAt "nmea.filter.track"⟩
  flags := ⟨group.flagAt "nmea.compat", group.flagAt "nmea.consider"⟩

def givenPublish (group : Group) : PublishToggles where
  navPosllh := group.flagAt "publish.nav.posllh"
  navVelned := group.flagAt "publish.nav.velned"
  navSol := group.flagAt "publish.nav.sol"
  navSvinfo := group.flagAt "publish.nav.svinfo"
  monHw := group.flagAt "publish.mon.hw"

/-- The settings that are given, with the defaults of those that are not. -/
def given (group : Group) : ReceiverSettings where
  frameId := textOr ReceiverSettings.default.frameId (group.settingAt? "frame_id")
  rate := numberOr ReceiverSettings.default.rate (group.settingAt? "rate")
  navRate := byteOr ReceiverSettings.default.navRate (group.settingAt? "nav_rate")
  nmea := if group.flagAt "nmea.set" then some group.givenNmea else none
  publish := group.givenPublish

end Group

section
variable {group : Group} {path : String}

theorem eq_textOr_of_resolveFrameId {text : String} (h : resolveFrameId group = .ok text) :
    text = textOr ReceiverSettings.default.frameId (group.settingAt? "frame_id") := by
  obtain ⟨found, hfound, h⟩ := bind_eq_ok.mp h
  rw [settingAt?_of_getParameter? (lookup_eq_ok.mp hfound)]
  cases found with
  | none =>
      cases h
      rfl
  | some p =>
      obtain ⟨own, given⟩ := p
      cases given <;> cases h
      rfl

theorem eq_numberOr_of_resolveRate {rate : Binary64} (h : resolveRate group = .ok rate) :
    rate = numberOr ReceiverSettings.default.rate (group.settingAt? "rate") := by
  obtain ⟨found, hfound, h⟩ := bind_eq_ok.mp h
  rw [settingAt?_of_getParameter? (lookup_eq_ok.mp hfound)]
  cases found with
  | none =>
      simp only [pure_bind] at h
      exact (of_checkedRate h).1
  | some p =>
      obtain ⟨own, given⟩ := p
      change (lookup (Parameter.asFloat _) >>= fun x => _) = _ at h
      obtain ⟨x, hx, h⟩ := bind_eq_ok.mp h
      rw [(of_checkedRate h).1]
      cases given <;> cases lookup_eq_ok.mp hx <;> rfl

theorem eq_of_intIn {low high : Int} {value : Option Int}
    (h : intIn group path low high = .ok value) :
    group.settingAt? path = value.map .int := by
  obtain ⟨found, hfound, h⟩ := bind_eq_ok.mp h
  rw [settingAt?_of_getParameter? (lookup_eq_ok.mp hfound)]
  cases found with
  | none =>
      cases h
      rfl
  | some p =>
      obtain ⟨own, given⟩ := p
      obtain ⟨n, hn, h⟩ := bind_eq_ok.mp h
      split at h
      · nomatch h
      · cases h
        cases given <;> cases lookup_eq_ok.mp hn
        rfl

theorem eq_byteOr_of_resolveNavRate {rate : UInt8} (h : resolveNavRate group = .ok rate) :
    rate = byteOr ReceiverSettings.default.navRate (group.settingAt? "nav_rate") := by
  obtain ⟨value, hvalue, h⟩ := bind_eq_ok.mp h
  rw [eq_of_intIn hvalue]
  cases value <;> cases h <;> rfl

theorem eq_byteOr_of_requiredByte {byte : UInt8} (h : requiredByte group path = .ok byte) :
    byte = byteOr 0 (group.settingAt? path) := by
  obtain ⟨value, hvalue, h⟩ := bind_eq_ok.mp h
  rw [eq_of_intIn hvalue]
  cases value <;> cases h
  rfl

theorem eq_given_of_resolveNmea {nmea : NmeaSettings} (h : resolveNmea group = .ok nmea) :
    nmea = group.givenNmea := by
  obtain ⟨version, hversion, h⟩ := bind_eq_ok.mp h
  obtain ⟨numSv, hnumSv, h⟩ := bind_eq_ok.mp h
  obtain ⟨compat, hcompat, h⟩ := bind_eq_ok.mp h
  obtain ⟨consider, hconsider, h⟩ := bind_eq_ok.mp h
  obtain ⟨pos, hpos, h⟩ := bind_eq_ok.mp h
  obtain ⟨mskPos, hmskPos, h⟩ := bind_eq_ok.mp h
  obtain ⟨time, htime, h⟩ := bind_eq_ok.mp h
  obtain ⟨date, hdate, h⟩ := bind_eq_ok.mp h
  obtain ⟨sbas, hsbas, h⟩ := bind_eq_ok.mp h
  obtain ⟨track, htrack, h⟩ := bind_eq_ok.mp h
  cases h
  rw [eq_byteOr_of_requiredByte hversion, eq_byteOr_of_requiredByte hnumSv,
    eq_flagAt_of_boolAt hcompat, eq_flagAt_of_boolAt hconsider, eq_flagAt_of_boolAt hpos,
    eq_flagAt_of_boolAt hmskPos, eq_flagAt_of_boolAt htime, eq_flagAt_of_boolAt hdate,
    eq_flagAt_of_boolAt hsbas, eq_flagAt_of_boolAt htrack]
  rfl

theorem eq_given_of_resolvePublish {toggles : PublishToggles}
    (h : resolvePublish group = .ok toggles) : toggles = group.givenPublish := by
  obtain ⟨navPosllh, hnavPosllh, h⟩ := bind_eq_ok.mp h
  obtain ⟨navVelned, hnavVelned, h⟩ := bind_eq_ok.mp h
  obtain ⟨navSol, hnavSol, h⟩ := bind_eq_ok.mp h
  obtain ⟨navSvinfo, hnavSvinfo, h⟩ := bind_eq_ok.mp h
  obtain ⟨monHw, hmonHw, h⟩ := bind_eq_ok.mp h
  cases h
  rw [eq_flagAt_of_boolAt hnavPosllh, eq_flagAt_of_boolAt hnavVelned,
    eq_flagAt_of_boolAt hnavSol, eq_flagAt_of_boolAt hnavSvinfo, eq_flagAt_of_boolAt hmonHw]
  rfl

/-- A resolution that succeeds gives what the group gives. -/
theorem eq_given_of_resolve {settings : ReceiverSettings}
    (h : ReceiverSettings.resolve group = .ok settings) : settings = group.given := by
  obtain ⟨frameId, hframeId, h⟩ := bind_eq_ok.mp h
  obtain ⟨rate, hrate, h⟩ := bind_eq_ok.mp h
  obtain ⟨navRate, hnavRate, h⟩ := bind_eq_ok.mp h
  obtain ⟨on, hon, h⟩ := bind_eq_ok.mp h
  rw [Group.given, ← eq_textOr_of_resolveFrameId hframeId, ← eq_numberOr_of_resolveRate hrate,
    ← eq_byteOr_of_resolveNavRate hnavRate, ← eq_flagAt_of_boolAt hon]
  cases on with
  | false =>
      obtain ⟨nmea, hnmea, h⟩ := bind_eq_ok.mp h
      obtain ⟨publish, hpublish, h⟩ := bind_eq_ok.mp h
      cases hnmea
      cases h
      rw [eq_given_of_resolvePublish hpublish]
      rfl
  | true =>
      obtain ⟨nmea, hnmea, h⟩ := bind_eq_ok.mp h
      obtain ⟨inner, hinner, rfl⟩ := map_eq_ok.mp hnmea
      obtain ⟨publish, hpublish, h⟩ := bind_eq_ok.mp h
      cases h
      rw [eq_given_of_resolvePublish hpublish, eq_given_of_resolveNmea hinner]
      rfl

end

/-! The toggles. -/

inductive PublishToggle
  | navPosllh
  | navVelned
  | navSol
  | navSvinfo
  | monHw
  deriving DecidableEq, Repr

namespace PublishToggle

def path : PublishToggle → String
  | navPosllh => "publish.nav.posllh"
  | navVelned => "publish.nav.velned"
  | navSol => "publish.nav.sol"
  | navSvinfo => "publish.nav.svinfo"
  | monHw => "publish.mon.hw"

/-- The field of a toggle. -/
def of (toggles : PublishToggles) : PublishToggle → Bool
  | navPosllh => toggles.navPosllh
  | navVelned => toggles.navVelned
  | navSol => toggles.navSol
  | navSvinfo => toggles.navSvinfo
  | monHw => toggles.monHw

end PublishToggle

inductive NmeaToggle
  | pos
  | mskPos
  | time
  | date
  | sbas
  | track
  | compat
  | consider
  deriving DecidableEq, Repr

namespace NmeaToggle

def path : NmeaToggle → String
  | pos => "nmea.filter.pos"
  | mskPos => "nmea.filter.msk_pos"
  | time => "nmea.filter.time"
  | date => "nmea.filter.date"
  | sbas => "nmea.filter.sbas"
  | track => "nmea.filter.track"
  | compat => "nmea.compat"
  | consider => "nmea.consider"

/-- The field of a toggle. -/
def of (nmea : NmeaSettings) : NmeaToggle → Bool
  | pos => nmea.filter.pos
  | mskPos => nmea.filter.mskPos
  | time => nmea.filter.time
  | date => nmea.filter.date
  | sbas => nmea.filter.sbas
  | track => nmea.filter.track
  | compat => nmea.flags.compat
  | consider => nmea.flags.consider

/-- The place of a toggle in the mask. -/
def bit : NmeaToggle → ℕ
  | pos => 0
  | mskPos => 1
  | time => 2
  | date => 3
  | sbas => 4
  | track => 5
  | compat => 8
  | consider => 9

end NmeaToggle

/-- The fields of the sentence output in the order of their bits. -/
def NmeaSettings.bits (nmea : NmeaSettings) : List Bool := [
  nmea.filter.pos, nmea.filter.mskPos, nmea.filter.time, nmea.filter.date, nmea.filter.sbas,
  nmea.filter.track, false, false, nmea.flags.compat, nmea.flags.consider]

theorem testBit_mask_eq_getD (nmea : NmeaSettings) (i : ℕ) :
    nmea.mask.testBit i = nmea.bits.getD i false := by
  have hbits : ∀ pos mskPos time date sbas track compat consider : Bool,
      let nmea : NmeaSettings :=
        ⟨0, 0, ⟨pos, mskPos, time, date, sbas, track⟩, ⟨compat, consider⟩⟩
      nmea.mask < 2 ^ 10 ∧ ∀ i < 10, nmea.mask.testBit i = nmea.bits.getD i false := by
    decide +kernel
  obtain ⟨hlimit, hlow⟩ := hbits nmea.filter.pos nmea.filter.mskPos nmea.filter.time
    nmea.filter.date nmea.filter.sbas nmea.filter.track nmea.flags.compat nmea.flags.consider
  by_cases hi : i < 10
  · exact hlow i hi
  · rw [List.getD_eq_default _ _ (Nat.not_lt.mp hi)]
    exact Nat.testBit_lt_two_pow
      (hlimit.trans_le (Nat.pow_le_pow_right (by decide) (Nat.not_lt.mp hi)))

theorem testBit_mask (nmea : NmeaSettings) (toggle : NmeaToggle) :
    nmea.mask.testBit toggle.bit = toggle.of nmea := by
  rw [testBit_mask_eq_getD]
  cases toggle <;> rfl

theorem testBit_mask_of_no_toggle (nmea : NmeaSettings) {i : ℕ}
    (h : ∀ toggle : NmeaToggle, i ≠ toggle.bit) : nmea.mask.testBit i = false := by
  rw [testBit_mask_eq_getD]
  match i, h with
  | 0, h => exact absurd rfl (h .pos)
  | 1, h => exact absurd rfl (h .mskPos)
  | 2, h => exact absurd rfl (h .time)
  | 3, h => exact absurd rfl (h .date)
  | 4, h => exact absurd rfl (h .sbas)
  | 5, h => exact absurd rfl (h .track)
  | 6, _ | 7, _ => rfl
  | 8, h => exact absurd rfl (h .compat)
  | 9, h => exact absurd rfl (h .consider)
  | _ + 10, _ => rfl

/-! Resolutions of two groups. -/

/-- Both groups give the same value for each setting that is examined, but for one. -/
def AgreeBut (excepted : String) (a b : Group) : Prop :=
  ∀ r ∈ examined a, r.path ≠ excepted → a.settingAt? r.path = b.settingAt? r.path

instance (excepted : String) (a b : Group) : Decidable (AgreeBut excepted a b) :=
  inferInstanceAs (Decidable (∀ r ∈ examined a, _))

section
variable {a b : Group}

theorem flagAt_congr {path : String} (h : a.settingAt? path = b.settingAt? path) :
    a.flagAt path = b.flagAt path := by
  rw [Bool.eq_iff_iff, Group.flagAt_iff, Group.flagAt_iff, h]

namespace AgreeBut

variable {excepted : String} (agree : AgreeBut excepted a b)
include agree

theorem general (h : ∀ r ∈ generalRequirements, r.path ≠ excepted) :
    ∀ r ∈ generalRequirements, a.settingAt? r.path = b.settingAt? r.path :=
  fun r hr => agree r (List.mem_append_left _ (List.mem_append_left _ hr)) (h r hr)

theorem publish {r : Requirement} (hr : r ∈ publishRequirements) (h : r.path ≠ excepted) :
    a.settingAt? r.path = b.settingAt? r.path :=
  agree r (List.mem_append_right _ hr) h

theorem nmea (on : a.flagAt "nmea.set" = true) {r : Requirement} (hr : r ∈ nmeaRequirements)
    (h : r.path ≠ excepted) : a.settingAt? r.path = b.settingAt? r.path := by
  refine agree r ?_ h
  rw [examined, if_pos on]
  exact List.mem_append_left _ (List.mem_append_right _ hr)

end AgreeBut

/-- Groups that agree in general give settings that differ at most in the two blocks. -/
theorem given_congr
    (general : ∀ r ∈ generalRequirements, r.path ≠ "nmea.set" →
      a.settingAt? r.path = b.settingAt? r.path) :
    b.given = { a.given with nmea := b.given.nmea, publish := b.given.publish } := by
  have hframeId := general ⟨"frame_id", .text, false⟩ (by decide) (by decide)
  have hrate := general ⟨"rate", .rate, false⟩ (by decide) (by decide)
  have hnavRate := general ⟨"nav_rate", .integer 1 127, false⟩ (by decide) (by decide)
  simp only [Group.given, hframeId, hrate, hnavRate]

/-! Toggle by toggle. -/

namespace PublishToggle

theorem ext_of {p q : PublishToggles} (h : ∀ toggle, of p toggle = of q toggle) : p = q := by
  rw [PublishToggles.mk.injEq]
  exact ⟨h navPosllh, h navVelned, h navSol, h navSvinfo, h monHw⟩

theorem path_injective {one other : PublishToggle} (h : one.path = other.path) : one = other := by
  cases one <;> cases other <;> revert h <;> decide

theorem required (toggle : PublishToggle) :
    ⟨toggle.path, .flag, false⟩ ∈ publishRequirements := by
  cases toggle <;> decide

theorem of_givenPublish (toggle : PublishToggle) :
    toggle.of a.givenPublish = a.flagAt toggle.path := by
  cases toggle <;> rfl

end PublishToggle

namespace NmeaToggle

theorem ext_of {m n : NmeaSettings} (hversion : m.version = n.version)
    (hnumSv : m.numSv = n.numSv) (h : ∀ toggle, of m toggle = of n toggle) : m = n := by
  rw [NmeaSettings.mk.injEq, NmeaFilter.mk.injEq, NmeaFlags.mk.injEq]
  exact ⟨hversion, hnumSv, ⟨h pos, h mskPos, h time, h date, h sbas, h track⟩,
    h compat, h consider⟩

theorem path_injective {one other : NmeaToggle} (h : one.path = other.path) : one = other := by
  cases one <;> cases other <;> revert h <;> decide

theorem required (toggle : NmeaToggle) : ⟨toggle.path, .flag, false⟩ ∈ nmeaRequirements := by
  cases toggle <;> decide

theorem of_givenNmea (toggle : NmeaToggle) :
    toggle.of a.givenNmea = a.flagAt toggle.path := by
  cases toggle <;> rfl

end NmeaToggle

theorem givenPublish_congr
    (publish : ∀ r ∈ publishRequirements, a.settingAt? r.path = b.settingAt? r.path) :
    b.givenPublish = a.givenPublish := by
  refine PublishToggle.ext_of fun toggle => ?_
  rw [PublishToggle.of_givenPublish, PublishToggle.of_givenPublish]
  exact flagAt_congr (publish _ toggle.required).symm

theorem givenNmea_congr
    (nmea : ∀ r ∈ nmeaRequirements, a.settingAt? r.path = b.settingAt? r.path) :
    b.givenNmea = a.givenNmea := by
  refine NmeaToggle.ext_of ?_ ?_ fun toggle => ?_
  · simp only [Group.givenNmea, nmea ⟨"nmea.version", .integer 0 255, true⟩ (by decide)]
  · simp only [Group.givenNmea, nmea ⟨"nmea.num_sv", .integer 0 255, true⟩ (by decide)]
  · rw [NmeaToggle.of_givenNmea, NmeaToggle.of_givenNmea]
    exact flagAt_congr (nmea _ toggle.required).symm

/-- A toggle of what is published has an effect on its own field alone. -/
theorem given_of_publishToggle {toggle : PublishToggle} (agree : AgreeBut toggle.path a b) :
    b.given = { a.given with publish := b.given.publish } ∧
      ∀ other, other ≠ toggle → other.of b.given.publish = other.of a.given.publish := by
  have general := agree.general (by cases toggle <;> decide)
  have hset := flagAt_congr (general ⟨"nmea.set", .flag, false⟩ (by decide))
  have hnmea : b.given.nmea = a.given.nmea := by
    rw [Group.given, Group.given, ← hset]
    by_cases on : a.flagAt "nmea.set" = true
    · have hne : ∀ r ∈ nmeaRequirements, r.path ≠ toggle.path := by cases toggle <;> decide
      rw [if_pos on, if_pos on, givenNmea_congr fun r hr => agree.nmea on hr (hne r hr)]
    · rw [if_neg on, if_neg on]
  constructor
  · rw [given_congr fun r hr _ => general r hr, hnmea]
  · intro other hother
    have hpath := fun h => hother (PublishToggle.path_injective h)
    rw [Group.given, Group.given, PublishToggle.of_givenPublish, PublishToggle.of_givenPublish]
    exact (flagAt_congr (agree.publish other.required hpath)).symm

/-- A toggle of the sentence output has an effect on its own bit alone. -/
theorem given_of_nmeaToggle {toggle : NmeaToggle} (agree : AgreeBut toggle.path a b)
    (on : a.flagAt "nmea.set" = true) :
    b.given = { a.given with nmea := some b.givenNmea } ∧
      b.givenNmea.version = a.givenNmea.version ∧ b.givenNmea.numSv = a.givenNmea.numSv ∧
      ∀ i, i ≠ toggle.bit → b.givenNmea.mask.testBit i = a.givenNmea.mask.testBit i := by
  have general := agree.general (by cases toggle <;> decide)
  have hset := flagAt_congr (general ⟨"nmea.set", .flag, false⟩ (by decide))
  have hpublish : ∀ r ∈ publishRequirements, r.path ≠ toggle.path := by
    cases toggle <;> decide
  have hversion := agree.nmea on (r := ⟨"nmea.version", .integer 0 255, true⟩) (by decide)
    (by cases toggle <;> decide)
  have hnumSv := agree.nmea on (r := ⟨"nmea.num_sv", .integer 0 255, true⟩) (by decide)
    (by cases toggle <;> decide)
  refine ⟨?_, ?_, ?_, ?_⟩
  · rw [given_congr fun r hr _ => general r hr]
    simp only [Group.given, ← hset, on, if_true,
      givenPublish_congr fun r hr => agree.publish hr (hpublish r hr)]
  · simp only [Group.givenNmea, hversion]
  · simp only [Group.givenNmea, hnumSv]
  · intro i hi
    by_cases hbit : ∃ other : NmeaToggle, i = other.bit
    · obtain ⟨other, rfl⟩ := hbit
      have hpath : other.path ≠ toggle.path := fun h =>
        hi (congrArg _ (NmeaToggle.path_injective h))
      rw [testBit_mask, testBit_mask, NmeaToggle.of_givenNmea, NmeaToggle.of_givenNmea]
      exact (flagAt_congr (agree.nmea on other.required hpath)).symm
    · have hnone := not_exists.mp hbit
      rw [testBit_mask_of_no_toggle _ hnone, testBit_mask_of_no_toggle _ hnone]

/-- With the sentence output switched off, nothing that is set for it has an effect. -/
theorem given_of_off (ha : a.flagAt "nmea.set" = false) (hb : b.flagAt "nmea.set" = false)
    (general : ∀ r ∈ generalRequirements, r.path ≠ "nmea.set" →
      a.settingAt? r.path = b.settingAt? r.path)
    (publish : ∀ r ∈ publishRequirements, a.settingAt? r.path = b.settingAt? r.path) :
    b.given = a.given ∧ a.given.nmea = none := by
  have hnmea : ∀ group : Group, group.flagAt "nmea.set" = false → group.given.nmea = none := by
    intro group off
    simp [Group.given, off]
  refine ⟨?_, hnmea a ha⟩
  rw [given_congr general, hnmea b hb, ← hnmea a ha]
  simp only [Group.given, givenPublish_congr publish]

end

/-- Two resolutions that read the same but for one toggle differ at most in what belongs to
that toggle: its own field of what is published, or its own bit of the mask, which are set
exactly when it is given and true. With the sentence output off, none of its toggles counts;
bits that belong to no toggle are never set. -/
theorem ReceiverSettings.toggles_independent {a b : Group} {s t : ReceiverSettings}
    (ha : resolve a = .ok s) (hb : resolve b = .ok t) :
    (∀ toggle : PublishToggle, AgreeBut toggle.path a b →
      t = { s with publish := t.publish } ∧
      (∀ other, other ≠ toggle → other.of t.publish = other.of s.publish) ∧
      toggle.of s.publish = a.flagAt toggle.path ∧
      toggle.of t.publish = b.flagAt toggle.path) ∧
    (∀ toggle : NmeaToggle, AgreeBut toggle.path a b → a.flagAt "nmea.set" = true →
      ∃ m n, s.nmea = some m ∧ t = { s with nmea := some n } ∧
        n.version = m.version ∧ n.numSv = m.numSv ∧
        (∀ i, i ≠ toggle.bit → n.mask.testBit i = m.mask.testBit i) ∧
        m.mask.testBit toggle.bit = a.flagAt toggle.path ∧
        n.mask.testBit toggle.bit = b.flagAt toggle.path) ∧
    (a.flagAt "nmea.set" = false → b.flagAt "nmea.set" = false →
      (∀ r ∈ generalRequirements, r.path ≠ "nmea.set" →
        a.settingAt? r.path = b.settingAt? r.path) →
      (∀ r ∈ publishRequirements, a.settingAt? r.path = b.settingAt? r.path) →
      t = s ∧ s.nmea = none) ∧
    ∀ (nmea : NmeaSettings) (i : ℕ), (∀ toggle : NmeaToggle, i ≠ toggle.bit) →
      nmea.mask.testBit i = false := by
  cases eq_given_of_resolve ha
  cases eq_given_of_resolve hb
  refine ⟨?_, ?_, given_of_off, fun nmea i => testBit_mask_of_no_toggle nmea⟩
  · intro toggle agree
    obtain ⟨hrest, hothers⟩ := given_of_publishToggle agree
    exact ⟨hrest, hothers, toggle.of_givenPublish, toggle.of_givenPublish⟩
  · intro toggle agree on
    obtain ⟨hrest, hversion, hnumSv, hbits⟩ := given_of_nmeaToggle agree on
    refine ⟨a.givenNmea, b.givenNmea, if_pos on, hrest, hversion, hnumSv, hbits, ?_, ?_⟩
    · rw [testBit_mask, NmeaToggle.of_givenNmea]
    · rw [testBit_mask, NmeaToggle.of_givenNmea]

/-- A group that switches the sentence output on, with what it leaves through. -/
def sentenceGroup (filter : List (String × Element)) : Group := ⟨".gps", [
  ("nmea", .group ".gps.nmea" [
    ("consider", .parameter ⟨".gps.nmea.consider", .bool true⟩),
    ("filter", .group ".gps.nmea.filter" filter),
    ("num_sv", .parameter ⟨".gps.nmea.num_sv", .int 4⟩),
    ("set", .parameter ⟨".gps.nmea.set", .bool true⟩),
    ("version", .parameter ⟨".gps.nmea.version", .int 35⟩)])]⟩

def sentenceSettings (time : Bool) : ReceiverSettings where
  frameId := "gps"
  rate := .ofNat 4
  navRate := 1
  nmea := some ⟨35, 4, ⟨false, false, time, false, false, false⟩, ⟨false, true⟩⟩
  publish := ⟨false, false, false, false, false⟩

theorem ReceiverSettings.toggles_independent_at_time :
    let off := sentenceGroup []
    let on := sentenceGroup [("time", .parameter ⟨".gps.nmea.filter.time", .bool true⟩)]
    resolve off = .ok (sentenceSettings false) ∧ resolve on = .ok (sentenceSettings true) ∧
      AgreeBut NmeaToggle.time.path off on ∧
      ∃ m n, (sentenceSettings false).nmea = some m ∧
        sentenceSettings true = { sentenceSettings false with nmea := some n } ∧
        (∀ i, i ≠ 2 → n.mask.testBit i = m.mask.testBit i) ∧
        m.mask.testBit 2 = false ∧ n.mask.testBit 2 = true := by
  intro off on
  have hoff : resolve off = .ok (sentenceSettings false) := by decide +kernel
  have hon : resolve on = .ok (sentenceSettings true) := by decide +kernel
  have agree : AgreeBut NmeaToggle.time.path off on := by decide +kernel
  obtain ⟨m, n, hm, hrest, -, -, hbits, hclear, hset⟩ :=
    (ReceiverSettings.toggles_independent hoff hon).2.1 .time agree (by decide +kernel)
  have hcleared : off.flagAt NmeaToggle.time.path = false := by decide +kernel
  have hgiven : on.flagAt NmeaToggle.time.path = true := by decide +kernel
  exact ⟨hoff, hon, agree, m, n, hm, hrest, hbits, hclear.trans hcleared, hset.trans hgiven⟩

end GnssFusion.Settings
