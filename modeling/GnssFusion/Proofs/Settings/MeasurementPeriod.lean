import Mathlib.Algebra.Order.Floor.Ring
import Mathlib.Data.Rat.Floor
import GnssFusion.Proofs.RateMonitor.ProgrammedRate
import GnssFusion.Proofs.Settings.Toggles

/-!
The measurement period that is made of a rate. A thousand is divided by the rate, rounded, and
cut to whole milliseconds. Whole milliseconds are kept by the rounding, so nothing but what is
beyond them is lost (`le_measurementPeriod`), and for every accepted rate the period fits its
field (`period_of_accepted_rate`). But the rate of a whole number of milliseconds is rounded
too, and where it is rounded up by too much a millisecond is lost (`period_of_reciprocal`).
-/

namespace GnssFusion.Settings

open Binary64

section
variable {settings : ReceiverSettings}

/-- The units of a rate, and the period that they make. -/
theorem exists_period (h : RateInRange settings.rate) :
    ∃ u hu, settings.rate = finite false u hu ∧ 0 < u ∧
      (∃ hn, ofNat 1000 / settings.rate = finite false (round (1000 * one * one) u) hn) ∧
      settings.measurementPeriod.toNat = round (1000 * one * one) u / one := by
  obtain ⟨u, hu, hrate, -, -⟩ := rate_of_rateInRange h
  obtain ⟨n, hn, hresult, -, hto, -⟩ := period_of_rateInRange h
  have hpos := units_pos_of_rateInRange h hrate
  have hquotient := hresult
  rw [hrate] at hquotient
  refine ⟨u, hu, hrate, hpos, ?_, ?_⟩ <;> rw [← units_thousand_div hpos hquotient]
  · exact ⟨hn, hresult⟩
  · exact toNat_measurementPeriod hresult hto

/-- A number of whole milliseconds that a period has is not rounded away. -/
theorem le_measurementPeriod (h : RateInRange settings.rate) {n : ℕ}
    (hn : n * settings.rate.value ≤ 1000) : n ≤ settings.measurementPeriod.toNat := by
  obtain ⟨u, hu, hrate, hpos, -, hperiod⟩ := exists_period h
  obtain ⟨-, hlow, -⟩ := value_of_rateInRange h
  have hfew : (n : ℚ) ≤ 65536 := by
    have hlow' : 1000 / 65536 ≤ settings.rate.value := le_trans (by norm_num [slack]) hlow
    have hshare := mul_le_mul_of_nonneg_left hlow' (Nat.cast_nonneg (α := ℚ) n)
    linarith
  have hunits : n * one * u ≤ 1000 * one * one := by
    rw [hrate, value_finite, ← mul_div_assoc, div_le_iff₀ cast_one_pos] at hn
    rw [Nat.mul_right_comm]
    exact Nat.mul_le_mul_right one (by exact_mod_cast hn)
  have hsmall : n ≤ 65536 := by exact_mod_cast hfew
  rw [hperiod, Nat.le_div_iff_mul_le oneUnits_pos]
  calc n * one = round (n * one) 1 :=
        (round_of_dvd (spacing_dvd_mul_one (hsmall.trans (by decide)))).symm
    _ ≤ round (1000 * one * one) u := round_mono Nat.one_pos hpos (by rwa [Nat.mul_one])

theorem measurementPeriod_anti {faster : ReceiverSettings} (h : RateInRange settings.rate)
    (hfaster : RateInRange faster.rate) (hle : settings.rate.le faster.rate) :
    faster.measurementPeriod.toNat ≤ settings.measurementPeriod.toNat := by
  obtain ⟨u, hu, hrate, hpos, -, hperiod⟩ := exists_period h
  obtain ⟨v, hv, hrate', hpos', -, hperiod'⟩ := exists_period hfaster
  rw [hrate, hrate', finite_le_finite] at hle
  rw [hperiod, hperiod']
  exact Nat.div_le_div_right (round_mono hpos' hpos (Nat.mul_le_mul_left _ hle))

/-- A period that its field holds and that is that of the rate but for less than a
millisecond. -/
structure PeriodFits (settings : ReceiverSettings) : Prop where
  range : 1 ≤ settings.measurementPeriod.toNat ∧ settings.measurementPeriod.toNat ≤ 65535
  /-- The computed period is cut to its integer part, not held to an end of the field. -/
  cut : (ofNat 1000 / settings.rate).isFinite ∧
    (settings.measurementPeriod.toNat : ℤ) = ⌊(ofNat 1000 / settings.rate).value⌋
  close : |(settings.measurementPeriod.toNat : ℚ) - 1000 / settings.rate.value| < 1
  whole : ⌊1000 / settings.rate.value⌋ ≤ (settings.measurementPeriod.toNat : ℤ)

theorem periodFits_of_rateInRange (h : RateInRange settings.rate) : PeriodFits settings := by
  obtain ⟨hone, hmost, hcut, -⟩ := measurementPeriod_bounds h
  have hrate := value_pos_of_rateInRange h
  have hwhole : ⌊1000 / settings.rate.value⌋ ≤ (settings.measurementPeriod.toNat : ℤ) := by
    have hnonneg : 0 ≤ ⌊1000 / settings.rate.value⌋ :=
      Int.floor_nonneg.mpr (div_nonneg (by norm_num) hrate.le)
    obtain ⟨n, hn⟩ := Int.eq_ofNat_of_zero_le hnonneg
    rw [hn]
    refine Int.ofNat_le.mpr (le_measurementPeriod h ?_)
    have hfloor := Int.floor_le (1000 / settings.rate.value)
    rw [hn, le_div_iff₀ hrate] at hfloor
    exact_mod_cast hfloor
  -- One rounding is far less than a millisecond.
  have hless {m period : ℚ} (hm : m ≤ 65535) (h : m * slack ≤ period) : m - period < 1 := by
    norm_num [slack] at h
    linarith
  refine ⟨⟨hone, hmost⟩, ?_, ?_, hwhole⟩
  · obtain ⟨u, hu, -, -, ⟨hn, hresult⟩, hperiod⟩ := exists_period h
    rw [hresult, value_finite, hperiod]
    exact ⟨rfl, (Rat.floor_natCast_div_natCast _ _).symm⟩
  · rw [abs_sub_lt_iff]
    constructor
    · have hperiod : (settings.measurementPeriod.toNat : ℚ) * slack ≤
          1000 / settings.rate.value := by
        rw [le_div_iff₀ hrate]
        linarith
      exact hless (by exact_mod_cast hmost) hperiod
    · have hlt := Int.lt_floor_add_one (1000 / settings.rate.value)
      have hcast : (⌊1000 / settings.rate.value⌋ : ℚ) ≤ settings.measurementPeriod.toNat := by
        exact_mod_cast hwhole
      linarith

end

/-- Settings that give the rate only. -/
def rateGroup (rate : Binary64) : Group :=
  ⟨".gps", [("rate", .parameter ⟨".gps.rate", .float rate⟩)]⟩

theorem resolve_rateGroup {rate : Binary64} (h : RateInRange rate) :
    ReceiverSettings.resolve (rateGroup rate) =
      .ok { ReceiverSettings.default with rate } := by
  have hfound : (rateGroup rate).getParameter? "rate" =
      .ok (some ⟨".gps.rate", .float rate⟩) := by rfl
  have hrate : resolveRate (rateGroup rate) = .ok rate := by
    have hlimits : (minimumRate.le rate && rate.le maximumRate) = true :=
      Bool.and_eq_true_iff.mpr h
    rw [resolveRate, hfound]
    simp only [lookup, Except.mapError, bind, Except.bind, Parameter.asFloat, hlimits, if_true]
    rfl
  rw [ReceiverSettings.resolve, hrate]
  rfl

/-- The rates that are accepted are those within their limits, which a NaN is not. Each makes a
period that fits, and a faster one never makes a longer period. -/
theorem periods_of_accepted_rates :
    (∀ rate, RateInRange rate ↔
      ∃ group settings, ReceiverSettings.resolve group = .ok settings ∧ settings.rate = rate) ∧
    ¬ RateInRange .nan ∧
    ∀ group settings, ReceiverSettings.resolve group = .ok settings → PeriodFits settings ∧
      ∀ other faster, ReceiverSettings.resolve other = .ok faster →
        settings.rate.le faster.rate → faster.measurementPeriod ≤ settings.measurementPeriod := by
  refine ⟨?_, by decide +kernel, ?_⟩
  · intro rate
    constructor
    · intro h
      exact ⟨_, _, resolve_rateGroup h, rfl⟩
    · rintro ⟨group, settings, resolved, rfl⟩
      exact (bounds_of_resolve resolved).1
  · intro group settings resolved
    have hrate := (bounds_of_resolve resolved).1
    refine ⟨periodFits_of_rateInRange hrate, ?_⟩
    intro other faster hfaster hle
    exact UInt16.le_iff_toNat_le.mpr
      (measurementPeriod_anti hrate (bounds_of_resolve hfaster).1 hle)

/-- At the slowest rate the period is the longest that the field can hold. -/
theorem period_of_slowest_rate :
    ReceiverSettings.resolve (rateGroup minimumRate) =
        .ok { ReceiverSettings.default with rate := minimumRate } ∧
      PeriodFits { ReceiverSettings.default with rate := minimumRate } ∧
      ReceiverSettings.measurementPeriod
        { ReceiverSettings.default with rate := minimumRate } = 65535 := by
  have slowest : RateInRange minimumRate := by decide +kernel
  have resolved := resolve_rateGroup slowest
  obtain ⟨-, -, hperiods⟩ := periods_of_accepted_rates
  exact ⟨resolved, (hperiods _ _ resolved).1, by decide +kernel⟩

/-! Rates of a whole number of milliseconds. -/

theorem rateInRange_reciprocal {p : ℕ} (hp : 1 ≤ p) (hp' : p ≤ 65535) :
    RateInRange (ofNat 1000 / ofNat p) := by
  have hmaximum : maximumRate = ofNat 1000 / ofNat 1 := by decide +kernel
  obtain ⟨_, hthousand⟩ := ofNat_eq (n := 1000) (by norm_num)
  obtain ⟨_, hperiod⟩ := ofNat_eq (hp'.trans (by norm_num))
  obtain ⟨_, hlongest⟩ := ofNat_eq (n := 65535) (by norm_num)
  obtain ⟨_, hshortest⟩ := ofNat_eq (n := 1) (by norm_num)
  have hpos {n : ℕ} (hn : 1 ≤ n) : 0 < n * one := Nat.mul_pos hn oneUnits_pos
  have hle {m n : ℕ} (h : m ≤ n) : 1000 * one * (m * one) ≤ 1000 * one * (n * one) :=
    Nat.mul_le_mul_left _ (Nat.mul_le_mul_right one h)
  constructor
  · rw [minimumRate, hthousand, hlongest, hperiod]
    exact finite_div_le_finite_div (hpos (by norm_num)) (hpos hp) (hle hp')
  · rw [hmaximum, hthousand, hshortest, hperiod]
    exact finite_div_le_finite_div (hpos hp) (hpos le_rfl) (hle hp)

/-- A power of two divides a thousand without a rounding. -/
theorem round_reciprocal_two_pow {j : ℕ} (h : j ≤ 1074) :
    round (1000 * one * one) (2 ^ j * one) * 2 ^ j = 1000 * one := by
  have hone : one = 2 ^ (1074 - j) * 2 ^ j := by rw [one_eq, ← Nat.pow_add, Nat.sub_add_cancel h]
  have hsplit : 1000 * one * one = 1000 * 2 ^ (1074 - j) * (2 ^ j * one) := by
    calc 1000 * one * one = 1000 * (2 ^ (1074 - j) * 2 ^ j) * one := by rw [← hone]
      _ = 1000 * 2 ^ (1074 - j) * (2 ^ j * one) := by ring
  rw [hsplit, round_mul_of_representable (Nat.mul_pos (Nat.two_pow_pos j) oneUnits_pos)
    (spacing_dvd_mul (by decide) _), Nat.mul_assoc, ← hone]

/-- The rates up to which a period reaches a number of milliseconds that is no power of two. -/
theorem le_measurementPeriod_iff {settings : ReceiverSettings} (h : RateInRange settings.rate)
    {p : ℕ} (hp : p ≤ 65535) (hbetween : 2 ^ p.log2 < p) :
    p ≤ settings.measurementPeriod.toNat ↔
      settings.rate.value * p ≤ 1000 + settings.rate.value * 2 ^ p.log2 / 2 ^ 53 := by
  obtain ⟨u, hu, hrate, hpos, -, hperiod⟩ := exists_period h
  have hlog : p.log2 ≤ 51 := by
    have hne : p ≠ 0 := ((Nat.zero_le _).trans_lt hbetween).ne'
    exact Nat.le_of_lt_succ ((Nat.log2_lt hne).mpr (hp.trans_lt (by decide)))
  obtain ⟨k, s, hunits, hlow, hhigh, heven, hgrain⟩ := exists_even_significand hlog hbetween
  rw [hperiod, Nat.le_div_iff_mul_le oneUnits_pos, hrate, value_finite, hunits,
    even_le_round_iff hpos hlow hhigh heven, ← hunits, ← Nat.cast_le (α := ℚ)]
  -- Both sides in units, twice and squared.
  have hone := cast_one_pos
  generalize 2 ^ s = grain at hgrain ⊢
  have hgrain' : (grain : ℚ) = 2 ^ p.log2 * one / 2 ^ 52 := by
    rw [eq_div_iff (by norm_num)]
    exact_mod_cast hgrain
  push_cast
  rw [hgrain']
  generalize (one : ℚ) = o at hone ⊢
  have hleft : (u : ℚ) / o * p * (2 * o * o) = 2 * (p * o * u) := by field_simp
  have hright : (1000 + (u : ℚ) / o * 2 ^ p.log2 / 2 ^ 53) * (2 * o * o) =
      2 * (1000 * o * o) + 2 ^ p.log2 * o / 2 ^ 52 * u := by
    field_simp
  rw [← hleft, ← hright]
  exact mul_le_mul_iff_of_pos_right (by positivity)

section
variable {settings : ReceiverSettings} {p : ℕ} (hp : 1 ≤ p) (hp' : p ≤ 65535)
  (hrange : RateInRange settings.rate) (hrate : settings.rate = ofNat 1000 / ofNat p)
include hp hp' hrange hrate

/-- Two roundings are less than a millisecond. -/
theorem period_near_of_reciprocal :
    settings.measurementPeriod.toNat ≤ p ∧ p - 1 ≤ settings.measurementPeriod.toNat := by
  have hnear : Near 1 settings.rate.value (1000 / p) := by
    rw [hrate]
    exact (within_reciprocal hp hp').near_value
  obtain ⟨-, hmost, hcut, hrest⟩ := measurementPeriod_bounds hrange
  have hpos : (0 : ℚ) < p := by exact_mod_cast hp
  have hcast : (p : ℚ) ≤ 65535 := by exact_mod_cast hp'
  obtain ⟨hlow, hhigh⟩ := hnear
  rw [pow_one] at hlow hhigh
  rw [div_mul_eq_mul_div, div_le_iff₀ hpos] at hlow
  rw [le_div_iff₀ hpos] at hhigh
  generalize settings.rate.value = v at hcut hrest hlow hhigh
  generalize settings.measurementPeriod.toNat = m at hmost hcut hrest ⊢
  have hmost' : (m : ℚ) ≤ 65535 := by exact_mod_cast hmost
  have habove : (m : ℚ) * slack ^ 2 ≤ p := by
    have hm : (0 : ℚ) ≤ m * slack := mul_nonneg (Nat.cast_nonneg m) slack_pos.le
    have hleft := mul_le_mul_of_nonneg_left hlow hm
    have hright := mul_le_mul_of_nonneg_right hcut hpos.le
    linarith
  have hbelow : (p : ℚ) * slack ^ 2 < m + 1 := by
    have hm : (0 : ℚ) ≤ m + 1 := by positivity
    have hleft := mul_lt_mul_of_pos_right hrest (mul_pos slack_pos hpos)
    have hright := mul_le_mul_of_nonneg_left hhigh hm
    linarith
  norm_num [slack] at habove hbelow
  constructor
  · have hlt : (m : ℚ) < p + 1 := by linarith
    exact Nat.le_of_lt_succ (by exact_mod_cast hlt)
  · have hlt : (p : ℚ) < m + 2 := by linarith
    have hlt' : p < m + 2 := by exact_mod_cast hlt
    omega

/-- The rate of such a number of milliseconds is exact. -/
theorem value_mul_of_two_pow (h : p = 2 ^ p.log2) : settings.rate.value * p = 1000 := by
  obtain ⟨u, hu, hfinite, -⟩ := exists_period hrange
  obtain ⟨_, hperiod⟩ := ofNat_eq (hp'.trans (by norm_num))
  have hlog : p.log2 ≤ 1074 := by
    have hlt := (Nat.log2_lt (by omega : p ≠ 0)).mpr (hp'.trans_lt (by decide : 65535 < 2 ^ 16))
    omega
  have hunits : u = round (1000 * one * one) (p * one) := by
    have hquotient := hfinite
    rw [hrate, hperiod] at hquotient
    exact units_thousand_div (Nat.mul_pos hp oneUnits_pos) hquotient
  have hproduct : u * p = 1000 * one := by
    rw [hunits]
    generalize p.log2 = j at h hlog
    rw [h]
    exact round_reciprocal_two_pow hlog
  rw [hfinite, value_finite, div_mul_eq_mul_div, div_eq_iff cast_one_pos.ne']
  exact_mod_cast hproduct

end

/-- Every whole number of milliseconds that the field holds has an accepted rate, the number
nearest to a thousand by it. Where the rate of a group reads as this number, as a fraction or
as a whole number, the period is the number of milliseconds as long as a thousand by the rate
is not rounded to less, for which the rate may be above the exact one by as much as makes half
a spacing. Above that the period is a millisecond shorter. -/
theorem period_of_reciprocal {p : ℕ} (hp : 1 ≤ p) (hp' : p ≤ 65535) :
    RateInRange (ofNat 1000 / ofNat p) ∧
    ∀ group settings, ReceiverSettings.resolve group = .ok settings →
      let rate := numberOr ReceiverSettings.default.rate (group.settingAt? "rate")
      rate = ofNat 1000 / ofNat p →
      settings.rate = rate ∧
        settings.measurementPeriod.toNat =
          if rate.value * p ≤ 1000 + rate.value * 2 ^ p.log2 / 2 ^ 53 then p else p - 1 := by
  refine ⟨rateInRange_reciprocal hp hp', ?_⟩
  intro group settings resolved rate hnearest
  have hread : settings.rate = rate :=
    congrArg ReceiverSettings.rate (eq_given_of_resolve resolved)
  have hrate : settings.rate = ofNat 1000 / ofNat p := hread.trans hnearest
  refine ⟨hread, ?_⟩
  rw [← hread]
  have hrange := (bounds_of_resolve resolved).1
  obtain ⟨hmost, hleast⟩ := period_near_of_reciprocal hp hp' hrange hrate
  have hiff : p ≤ settings.measurementPeriod.toNat ↔
      settings.rate.value * p ≤ 1000 + settings.rate.value * 2 ^ p.log2 / 2 ^ 53 := by
    obtain hpower | hbetween := (Nat.log2_self_le (show p ≠ 0 by omega)).eq_or_lt
    · have hexact := value_mul_of_two_pow hp hp' hrange hrate hpower.symm
      refine iff_of_true (le_measurementPeriod hrange ?_) ?_
      · rw [mul_comm, hexact]
      · rw [hexact, le_add_iff_nonneg_right]
        have hpos := value_pos_of_rateInRange hrange
        positivity
    · exact le_measurementPeriod_iff hrange hp' hbetween
  split
  · next h => exact le_antisymm hmost (hiff.mpr h)
  · next h =>
      have hless := mt hiff.mp h
      omega

/-- A rate given as a fraction, and one given as a whole number. -/
theorem period_of_reciprocal_seven :
    let fraction := rateGroup (ofNat 1000 / ofNat 7)
    let whole : Group := ⟨".gps", [("rate", .parameter ⟨".gps.rate", .int 8⟩)]⟩
    (∃ settings, ReceiverSettings.resolve fraction = .ok settings ∧
      settings.measurementPeriod.toNat = 7) ∧
    ∃ settings, ReceiverSettings.resolve whole = .ok settings ∧
      settings.measurementPeriod.toNat = 125 := by
  intro fraction whole
  constructor
  · obtain ⟨hrange, hperiod⟩ := period_of_reciprocal (p := 7) (by decide) (by decide)
    have resolved := resolve_rateGroup hrange
    obtain ⟨-, hseven⟩ := hperiod _ _ resolved rfl
    exact ⟨_, resolved, hseven.trans (if_pos (by decide +kernel))⟩
  · obtain ⟨-, hperiod⟩ := period_of_reciprocal (p := 125) (by decide) (by decide)
    have resolved : ReceiverSettings.resolve whole =
        .ok { ReceiverSettings.default with rate := ofNat 8 } := by decide +kernel
    have hnearest : ofInt 8 = ofNat 1000 / ofNat 125 := by decide +kernel
    obtain ⟨-, heighth⟩ := hperiod whole _ resolved hnearest
    exact ⟨_, resolved, heighth.trans (if_pos (by decide +kernel))⟩

/-- The rate of fifteen milliseconds is rounded up, and its period is one of fourteen. -/
theorem fourteen_milliseconds_for_fifteen :
    let rate := ofNat 1000 / ofNat 15
    (rateGroup rate).settingAt? "rate" = some (.float rate) ∧
    ∃ settings, ReceiverSettings.resolve (rateGroup rate) = .ok settings ∧
      settings.rate = rate ∧ settings.measurementPeriod.toNat = 14 := by
  intro rate
  have hrange : RateInRange rate := by decide +kernel
  exact ⟨rfl, _, resolve_rateGroup hrange, rfl, by decide +kernel⟩

end GnssFusion.Settings
