import Mathlib.Data.Nat.Cast.Order.Field
import GnssFusion.Proofs.Binary64.Order
import GnssFusion.Proofs.RateMonitor.Window
import GnssFusion.Proofs.Settings.Resolution

/-!
What the rate monitor says of a receiver that keeps to its settings. The receiver is given
a measurement period in whole milliseconds, what is left of the period of the wanted rate
is cut off, and the monitor expects the wanted rate. With at least seven milliseconds the
cut is smaller than the tolerance; with fewer the receiver can be too fast for it.
-/

namespace GnssFusion

open Binary64

namespace Settings
namespace ReceiverSettings

/-- The nanoseconds between the fixes of a receiver that keeps to its settings. -/
def fixPeriod (settings : ReceiverSettings) : ℕ :=
  settings.measurementPeriod.toNat * settings.navRate.toNat * 1000000

/-- What programming leaves of the period of the wanted rate, as a fraction of it. -/
def keptPeriod (settings : ReceiverSettings) : ℚ :=
  settings.measurementPeriod.toNat * settings.rate.value / 1000

end ReceiverSettings

/-! The wanted rate and the period made of it. -/

/-- The rate of a whole number of milliseconds. -/
theorem within_reciprocal {p : ℕ} (hp : 1 ≤ p) (hp' : p ≤ 65535) :
    Within 1 (ofNat 1000 / ofNat p) (1000 / p) := by
  have h := Within.ratio (m := 1000) (by norm_num) hp (hp'.trans (by norm_num))
  exact_mod_cast h

theorem within_minimumRate : Within 1 minimumRate (1000 / 65535) := by
  have h := within_reciprocal (p := 65535) (by norm_num) (by norm_num)
  exact_mod_cast h

/-- A rate within its range is a number of at most a thousand and of hardly less than the
least rate. -/
theorem rate_of_rateInRange {rate : Binary64} (h : RateInRange rate) :
    ∃ units hunits, rate = finite false units hunits ∧ units ≤ 1000 * one ∧
      1000 / 65535 * slack ≤ (units : ℚ) / one := by
  obtain ⟨low, hlow, hminimum, hnear⟩ := within_minimumRate
  obtain ⟨hhigh, hmaximum⟩ := ofNat_eq (n := 1000) (by norm_num)
  have hpos := pos_of_near hnear (by norm_num)
  obtain ⟨hle, hge⟩ := h
  rw [hminimum] at hle
  rw [show maximumRate = _ from hmaximum] at hge
  obtain ⟨units, hunits, rfl, hfrom, hto⟩ := finite_of_between hle hge hpos
  refine ⟨units, hunits, rfl, hto, ?_⟩
  have hleast := hnear.1
  rw [pow_one] at hleast
  calc (1000 / 65535 : ℚ) * slack ≤ low / one := hleast
    _ ≤ units / one :=
      div_le_div_of_nonneg_right (by exact_mod_cast hfrom) cast_one_pos.le

theorem value_of_rateInRange {rate : Binary64} (h : RateInRange rate) :
    Within 0 rate rate.value ∧ 1000 / 65535 * slack ≤ rate.value ∧ rate.value ≤ 1000 := by
  obtain ⟨units, hunits, rfl, hle, hge⟩ := rate_of_rateInRange h
  rw [value_finite]
  refine ⟨⟨units, hunits, rfl, Near.rfl⟩, hge, ?_⟩
  rw [div_le_iff₀ cast_one_pos]
  exact_mod_cast hle

theorem value_pos_of_rateInRange {rate : Binary64} (h : RateInRange rate) : 0 < rate.value :=
  lt_of_lt_of_le (mul_pos (by norm_num) slack_pos) (value_of_rateInRange h).2.1

theorem units_pos_of_rateInRange {rate : Binary64} (h : RateInRange rate) {units : ℕ}
    {hunits : Representable units} (hrate : rate = finite false units hunits) : 0 < units := by
  have hpos := value_pos_of_rateInRange h
  rw [hrate, value_finite, div_pos_iff_of_pos_right cast_one_pos] at hpos
  exact_mod_cast hpos

theorem units_thousand_div {m n : ℕ} {hm : Representable m} {hn : Representable n} (hpos : 0 < n)
    (h : ofNat 1000 / finite false n hn = finite false m hm) :
    m = round (1000 * one * one) n := by
  obtain ⟨_, hthousand⟩ := ofNat_eq (n := 1000) (by norm_num)
  rw [hthousand, finite_div_finite _ _ hpos.ne'] at h
  exact ofQuotient_eq_finite h

/-- The computed period of a rate, in units: at least a millisecond, and less than what the
period is held to. -/
theorem period_of_rateInRange {rate : Binary64} (h : RateInRange rate) :
    ∃ units hunits, ofNat 1000 / rate = finite false units hunits ∧ one ≤ units ∧
      units < 65536 * one ∧ Near 1 ((units : ℚ) / one) (1000 / rate.value) := by
  obtain ⟨hwithin, hlow, hhigh⟩ := value_of_rateInRange h
  have hpos := value_pos_of_rateInRange h
  have hordinary : Ordinary (1000 / rate.value) := by
    have hlow' : 1000 / 65536 ≤ rate.value := le_trans (by norm_num [slack]) hlow
    refine ordinary_of_bounds ?_ ?_
    · rw [le_div_iff₀ hpos]
      linarith
    · rw [div_le_iff₀ hpos]
      linarith
  obtain ⟨units, hunits, hresult, hnear⟩ := (Within.ofNat (n := 1000) (by norm_num)).div
    hwithin (by norm_num) hpos hordinary (by norm_num)
  refine ⟨units, hunits, hresult, ?_, ?_, hnear⟩
  · -- Closeness is not enough here: one unit below `one` would be no millisecond at all.
    obtain ⟨n, hn, hrate, hle, -⟩ := rate_of_rateInRange h
    have hn0 := units_pos_of_rateInRange h hrate
    rw [hrate] at hresult
    rw [units_thousand_div hn0 hresult]
    refine one_le_round ?_
    rw [Nat.le_div_iff_mul_le hn0, Nat.mul_comm]
    exact Nat.mul_le_mul_right one hle
  · have hperiod : 1000 / rate.value * slack ≤ 65535 := by
      rw [div_mul_eq_mul_div, div_le_iff₀ hpos]
      linarith
    have hsquare : (units : ℚ) / one * slack ^ 2 ≤ 65535 := by
      calc (units : ℚ) / one * slack ^ 2 = units / one * slack ^ 1 * slack := by ring
        _ ≤ 1000 / rate.value * slack := mul_le_mul_of_nonneg_right hnear.2 slack_pos.le
        _ ≤ 65535 := hperiod
    have hlt : (units : ℚ) / one < 65536 :=
      lt_of_mul_lt_mul_right (hsquare.trans_lt (by norm_num [slack])) (slack_pow_pos 2).le
    rw [div_lt_iff₀ cast_one_pos] at hlt
    exact_mod_cast hlt

/-- A computed period below the end of the range is cut to whole milliseconds. -/
theorem toNat_measurementPeriod {settings : ReceiverSettings} {units : ℕ}
    {hunits : Representable units}
    (hresult : ofNat 1000 / settings.rate = finite false units hunits)
    (h : units < 65536 * one) : settings.measurementPeriod.toNat = units / one := by
  have hhigh : units / one < 65536 := (Nat.div_lt_iff_lt_mul oneUnits_pos).mpr h
  have hclamp {m : ℕ} (hm : m < 65536) : (clamp 0 65535 m).toNat = m := by
    unfold clamp
    omega
  rw [ReceiverSettings.measurementPeriod, hresult, truncInt_finite, hclamp hhigh,
    UInt16.toNat_ofNat_of_lt' hhigh]

/-- The programmed period is from one to 65535 milliseconds, and it is the period of the
wanted rate less what is beyond a whole number of milliseconds. -/
theorem measurementPeriod_bounds {settings : ReceiverSettings} (h : RateInRange settings.rate) :
    1 ≤ settings.measurementPeriod.toNat ∧ settings.measurementPeriod.toNat ≤ 65535 ∧
      settings.measurementPeriod.toNat * settings.rate.value * slack ≤ 1000 ∧
      1000 * slack < (settings.measurementPeriod.toNat + 1) * settings.rate.value := by
  obtain ⟨units, hunits, hresult, hfrom, hto, hnear⟩ := period_of_rateInRange h
  have hone := cast_one_pos
  have hrate := value_pos_of_rateInRange h
  have hlow : 1 ≤ units / one := (Nat.le_div_iff_mul_le oneUnits_pos).mpr (by omega)
  have hhigh : units / one < 65536 := (Nat.div_lt_iff_lt_mul oneUnits_pos).mpr hto
  rw [toNat_measurementPeriod hresult hto]
  generalize hm : units / one = m at hlow hhigh ⊢
  have hfloor : (m : ℚ) ≤ units / one := hm ▸ Nat.cast_div_le
  have hceil : (units : ℚ) / one < m + 1 := by
    rw [div_lt_iff₀ hone, ← hm, mul_comm]
    exact_mod_cast Nat.lt_mul_div_succ units oneUnits_pos
  obtain ⟨hbelow, habove⟩ := hnear
  rw [pow_one] at hbelow habove
  refine ⟨hlow, by omega, ?_, ?_⟩
  · rw [le_div_iff₀ hrate] at habove
    calc m * settings.rate.value * slack = m * (settings.rate.value * slack) := by ring
      _ ≤ units / one * (settings.rate.value * slack) :=
        mul_le_mul_of_nonneg_right hfloor (mul_pos hrate slack_pos).le
      _ = units / one * slack * settings.rate.value := by ring
      _ ≤ 1000 := habove
  · have hshare := hbelow.trans_lt hceil
    rwa [div_mul_eq_mul_div, div_lt_iff₀ hrate] at hshare

section
variable {settings : ReceiverSettings} (hrate : RateInRange settings.rate)
include hrate

theorem keptPeriod_pos : 0 < settings.keptPeriod := by
  have hone : (0 : ℚ) < settings.measurementPeriod.toNat := by
    exact_mod_cast (measurementPeriod_bounds hrate).1
  exact div_pos (mul_pos hone (value_pos_of_rateInRange hrate)) (by norm_num)

theorem keptPeriod_le : settings.keptPeriod * slack ≤ 1 := by
  obtain ⟨-, -, hcut, -⟩ := measurementPeriod_bounds hrate
  unfold ReceiverSettings.keptPeriod
  linarith

/-- From seven milliseconds on, the cut takes less than an eighth of a period. -/
theorem lt_keptPeriod (h : 7 ≤ settings.measurementPeriod.toNat) :
    7 / 8 * slack < settings.keptPeriod := by
  obtain ⟨-, -, -, hrest⟩ := measurementPeriod_bounds hrate
  have hseven : (7 : ℚ) ≤ settings.measurementPeriod.toNat := by exact_mod_cast h
  have hshare := mul_le_mul_of_nonneg_right hseven (value_pos_of_rateInRange hrate).le
  unfold ReceiverSettings.keptPeriod
  linarith

variable (hnav : 1 ≤ settings.navRate.toNat ∧ settings.navRate.toNat ≤ 127)
include hnav

theorem fixPeriod_bounds : 0 < settings.fixPeriod ∧ 9 * settings.fixPeriod ≤ 10 ^ 15 := by
  obtain ⟨hone, hmost, -, -⟩ := measurementPeriod_bounds hrate
  have hlow := Nat.mul_pos hone hnav.1
  have hhigh := Nat.mul_le_mul hmost hnav.2
  unfold ReceiverSettings.fixPeriod
  omega

theorem fixFrequency_bounds :
    1 / 10 ^ 5 ≤ settings.rate.value / settings.navRate.toNat ∧
      settings.rate.value / settings.navRate.toNat ≤ 1000 := by
  obtain ⟨-, hlow, hhigh⟩ := value_of_rateInRange hrate
  have hlow' : 1000 / 65536 ≤ settings.rate.value := le_trans (by norm_num [slack]) hlow
  have h1 : (1 : ℚ) ≤ settings.navRate.toNat := by exact_mod_cast hnav.1
  have h127 : (settings.navRate.toNat : ℚ) ≤ 127 := by exact_mod_cast hnav.2
  constructor
  · rw [le_div_iff₀ (by linarith)]
    linarith
  · rw [div_le_iff₀ (by linarith)]
    linarith

theorem within_fixFrequency :
    Within 1 settings.fixFrequency (settings.rate.value / settings.navRate.toNat) := by
  obtain ⟨hlow, hhigh⟩ := fixFrequency_bounds hrate hnav
  have hpos : (0 : ℚ) < settings.navRate.toNat := by exact_mod_cast hnav.1
  exact (value_of_rateInRange hrate).1.div (.ofNat (hnav.2.trans (by norm_num)))
    (value_pos_of_rateInRange hrate).le hpos
    (ordinary_of_bounds (by linarith) (by linarith)) (by norm_num)

/-- Fixes come at the wanted frequency, faster by what the period has lost. -/
theorem perSecond_div_fixPeriod :
    (Duration.perSecond : ℚ) / settings.fixPeriod =
      settings.rate.value / settings.navRate.toNat / settings.keptPeriod := by
  obtain ⟨hone, -, -, -⟩ := measurementPeriod_bounds hrate
  have hrate0 := (value_pos_of_rateInRange hrate).ne'
  have hm : (settings.measurementPeriod.toNat : ℚ) ≠ 0 := by exact_mod_cast (by omega)
  have hn : (settings.navRate.toNat : ℚ) ≠ 0 := by exact_mod_cast (by omega)
  rw [ReceiverSettings.fixPeriod, ReceiverSettings.keptPeriod, Duration.perSecond]
  push_cast
  field_simp
  norm_num

end

end Settings

/-! The measured frequency. -/

namespace Duration

/-- A count per second is computed with one rounding more. -/
theorem within_ofNat_div_seconds {count n : ℕ} (hcount : count ≤ 2 ^ 53) (hpos : 0 < n)
    (h : n ≤ 10 ^ 15) (hordinary : Ordinary ((count : ℚ) / ((n : ℚ) / perSecond))) :
    Within 3 (.ofNat count / seconds n) ((count : ℚ) / ((n : ℚ) / perSecond)) := by
  have hseconds : 0 < (n : ℚ) / perSecond :=
    div_pos (by exact_mod_cast hpos) (by norm_num [perSecond])
  exact (Within.ofNat hcount).div (within_seconds h) (Nat.cast_nonneg _) hseconds hordinary
    (by norm_num)

/-- The frequency of intervals of `period` nanoseconds each, over all of them. -/
theorem within_frequency {intervals period : ℕ} (hpos : 0 < intervals) (hperiod : 0 < period)
    (h : intervals * period ≤ 10 ^ 15) :
    ¬ (seconds (intervals * period : ℕ)).le (.ofNat 0) ∧
      Within 3 (.ofNat intervals / seconds (intervals * period : ℕ)) (perSecond / period) := by
  have hlast : period ≤ intervals * period := Nat.le_mul_of_pos_left period hpos
  have hfirst : intervals ≤ intervals * period := Nat.le_mul_of_pos_right intervals hperiod
  have hspan : 0 < intervals * period := Nat.mul_pos hpos hperiod
  have hvalue : (intervals : ℚ) / ((intervals * period : ℕ) / perSecond) = perSecond / period := by
    have hi : (intervals : ℚ) ≠ 0 := by exact_mod_cast hpos.ne'
    push_cast
    field_simp
  constructor
  · refine (within_seconds h).not_le_zero (div_pos ?_ (by norm_num [perSecond]))
    exact_mod_cast hspan
  · rw [← hvalue]
    refine within_ofNat_div_seconds (by omega) hspan h ?_
    rw [hvalue]
    exact ordinary_ratio (by decide) hperiod (by omega)

end Duration

namespace RateMonitor

open Settings

/-! The bounds of the tolerance. -/

theorem lower_eq : ∃ h, (.ofNat 1 - defaultTolerance : Binary64) =
    finite false (7656119366529843 * 2 ^ 1021) h :=
  ⟨by decide +kernel, by decide +kernel⟩

theorem upper_eq : ∃ h, (.ofNat 1 + defaultTolerance : Binary64) =
    finite false (5179139571476070 * 2 ^ 1022) h :=
  ⟨by decide +kernel, by decide +kernel⟩

theorem within_lower : Within 1 (.ofNat 1 - defaultTolerance) (85 / 100) := by
  obtain ⟨h, hlower⟩ := lower_eq
  refine .of_ratio 7656119366529843 (Nat.two_pow_pos 53) hlower (by decide +kernel) ?_
  norm_num [Near, slack]

theorem within_upper : Within 1 (.ofNat 1 + defaultTolerance) (115 / 100) := by
  obtain ⟨h, hupper⟩ := upper_eq
  refine .of_ratio 5179139571476070 (Nat.two_pow_pos 52) hupper (by decide +kernel) ?_
  norm_num [Near, slack]

section
variable {k : ℕ} {target : Binary64} {v : ℚ} (htarget : Within k target v)
  (hlow : 1 / 10 ^ 14 ≤ v) (hhigh : v ≤ 10 ^ 14) (hk : k ≤ 98)
include htarget hlow hhigh hk

theorem within_minimum_new (times : List Duration) :
    Within (k + 2) ((new target).after times).minimum (v * (85 / 100)) := by
  rw [minimum, target_after, tolerance_after, target_new, tolerance_new]
  exact htarget.mul within_lower (by linarith) (by norm_num)
    (ordinary_of_bounds (by linarith) (by linarith)) (by omega)

theorem within_maximum_new (times : List Duration) :
    Within (k + 2) ((new target).after times).maximum (v * (115 / 100)) := by
  rw [maximum, target_after, tolerance_after, target_new, tolerance_new]
  exact htarget.mul within_upper (by linarith) (by norm_num)
    (ordinary_of_bounds (by linarith) (by linarith)) (by omega)

end

section
variable {settings : ReceiverSettings} (hrate : RateInRange settings.rate)
  (hnav : 1 ≤ settings.navRate.toNat ∧ settings.navRate.toNat ≤ 127)
include hrate hnav

theorem within_minimum (times : List Duration) :
    Within 3 ((new settings.fixFrequency).after times).minimum
      (settings.rate.value / settings.navRate.toNat * (85 / 100)) := by
  obtain ⟨hlow, hhigh⟩ := fixFrequency_bounds hrate hnav
  exact within_minimum_new (within_fixFrequency hrate hnav) (by linarith) (by linarith)
    (by norm_num) times

theorem within_maximum (times : List Duration) :
    Within 3 ((new settings.fixFrequency).after times).maximum
      (settings.rate.value / settings.navRate.toNat * (115 / 100)) := by
  obtain ⟨hlow, hhigh⟩ := fixFrequency_bounds hrate hnav
  exact within_maximum_new (within_fixFrequency hrate hnav) (by linarith) (by linarith)
    (by norm_num) times

/-- At the last of two or more fixes the monitor measures one fix in each programmed
period. -/
theorem frequency?_of_programmed (start : Duration) {count : ℕ} (hcount : 2 ≤ count) :
    ∃ frequency,
      ((new settings.fixFrequency).after (steady start settings.fixPeriod count)).frequency?
        (start + (count - 1 : ℕ) * settings.fixPeriod) = some frequency ∧
      Within 3 frequency
        (settings.rate.value / settings.navRate.toNat / settings.keptPeriod) := by
  obtain ⟨intervals, hpos, hfew, hfrequency⟩ := frequency?_after_steady
    settings.fixFrequency defaultTolerance defaultWindow start settings.fixPeriod hcount
  obtain ⟨hlow, hhigh⟩ := fixPeriod_bounds hrate hnav
  have hnine : intervals ≤ 9 := by
    have hwindow : max defaultWindow 2 = 10 := rfl
    omega
  obtain ⟨hspan, hwithin⟩ :=
    Duration.within_frequency hpos hlow ((Nat.mul_le_mul_right _ hnine).trans hhigh)
  rw [Int.natCast_mul] at hspan hwithin
  rw [if_neg hspan] at hfrequency
  rw [perSecond_div_fixPeriod hrate hnav] at hwithin
  exact ⟨_, hfrequency, hwithin⟩

end

/-! Comparisons of the measured frequency with the bounds. -/

section
variable {target kept : ℚ} {frequency bound : Binary64} (htarget : 0 < target) (hkept : 0 < kept)
  (hfrequency : Within 3 frequency (target / kept))
include htarget hkept hfrequency

theorem not_lt_of_kept (hbound : Within 3 bound (target * (85 / 100))) (h : kept * slack ≤ 1) :
    ¬ frequency.lt bound := by
  refine hfrequency.not_lt hbound ?_
  rw [div_mul_eq_mul_div, le_div_iff₀ hkept, mul_assoc]
  refine mul_le_mul_of_nonneg_left ?_ htarget.le
  norm_num [slack] at h ⊢
  linarith

theorem not_gt_of_kept (hbound : Within 3 bound (target * (115 / 100)))
    (h : 1 ≤ 115 / 100 * kept * (1 - 1 / 2 ^ 50)) : ¬ bound.lt frequency := by
  refine hbound.not_lt hfrequency ?_
  rw [div_le_iff₀ hkept, mul_assoc, mul_assoc]
  refine le_mul_of_one_le_right htarget.le ?_
  norm_num [slack] at h ⊢
  linarith

theorem gt_of_kept (hbound : Within 3 bound (target * (115 / 100)))
    (h : 115 / 100 * kept < 1 - 1 / 2 ^ 50) : bound.lt frequency := by
  refine hbound.lt hfrequency ?_
  rw [div_mul_eq_mul_div, lt_div_iff₀ hkept, mul_assoc]
  refine mul_lt_mul_of_pos_left ?_ htarget
  norm_num [slack] at h ⊢
  linarith

end

/-- A receiver that keeps to its settings is never too slow for the monitor. It is as fast
as expected wherever its period has at least seven milliseconds, and with fewer as long as
no more of the wanted period is lost to the cut than the tolerance allows; it is too fast
where more is lost. The bound is left open by as much as the roundings amount to. -/
theorem status_of_programmed {group : Group} {settings : ReceiverSettings}
    (resolved : ReceiverSettings.resolve group = .ok settings) (start : Duration) {count : ℕ}
    (hcount : 2 ≤ count) :
    let status := ((new settings.fixFrequency).after
      (steady start settings.fixPeriod count)).status
        (start + (count - 1 : ℕ) * settings.fixPeriod)
    let met := status.level = .ok ∧ status.message = "Desired frequency met"
    let tooHigh := status.level = .warn ∧ status.message = "Frequency too high"
    (1 ≤ settings.measurementPeriod.toNat ∧ settings.measurementPeriod.toNat ≤ 65535) ∧
      (met ∨ tooHigh) ∧ (7 ≤ settings.measurementPeriod.toNat → met) ∧
      (1 ≤ 115 / 100 * settings.keptPeriod * (1 - 1 / 2 ^ 50) → met) ∧
      (115 / 100 * settings.keptPeriod < 1 - 1 / 2 ^ 50 → tooHigh) := by
  obtain ⟨hrate, hnav⟩ := bounds_of_resolve resolved
  obtain ⟨hone, hmost, -, -⟩ := measurementPeriod_bounds hrate
  obtain ⟨frequency, hfrequency, hwithin⟩ := frequency?_of_programmed hrate hnav start hcount
  have hkept := keptPeriod_pos hrate
  have htarget : 0 < settings.rate.value / settings.navRate.toNat :=
    lt_of_lt_of_le (by norm_num) (fixFrequency_bounds hrate hnav).1
  have hlower := within_minimum hrate hnav (steady start settings.fixPeriod count)
  have hupper := within_maximum hrate hnav (steady start settings.fixPeriod count)
  have hjudge := judge_of_frequency? hfrequency
  rw [if_neg (not_lt_of_kept htarget hkept hwithin hlower (keptPeriod_le hrate))] at hjudge
  intro status met tooHigh
  have hmet : 1 ≤ 115 / 100 * settings.keptPeriod * (1 - 1 / 2 ^ 50) → met := by
    intro hbound
    rw [if_neg (not_gt_of_kept htarget hkept hwithin hupper hbound)] at hjudge
    exact ⟨congrArg Prod.fst hjudge, congrArg Prod.snd hjudge⟩
  refine ⟨⟨hone, hmost⟩, ?_, ?_, hmet, ?_⟩
  · split at hjudge
    · exact .inr ⟨congrArg Prod.fst hjudge, congrArg Prod.snd hjudge⟩
    · exact .inl ⟨congrArg Prod.fst hjudge, congrArg Prod.snd hjudge⟩
  · intro hseven
    have hcut := lt_keptPeriod hrate hseven
    refine hmet ?_
    norm_num [slack] at hcut ⊢
    linarith
  · intro hbound
    rw [if_pos (gt_of_kept htarget hkept hwithin hupper hbound)] at hjudge
    exact ⟨congrArg Prod.fst hjudge, congrArg Prod.snd hjudge⟩

theorem met_at_default_settings :
    ReceiverSettings.resolve Group.empty = .ok .default ∧
      let status := ((new ReceiverSettings.default.fixFrequency).after
        (steady 0 ReceiverSettings.default.fixPeriod 2)).status
          (0 + (2 - 1 : ℕ) * ReceiverSettings.default.fixPeriod)
      status.level = .ok ∧ status.message = "Desired frequency met" := by
  have hresolve : ReceiverSettings.resolve Group.empty = .ok .default := by decide +kernel
  obtain ⟨-, -, hmet, -⟩ := status_of_programmed hresolve 0 (le_refl 2)
  exact ⟨hresolve, hmet (by decide +kernel)⟩

/-- Settings of 600 measurements per second: a period of one millisecond, which makes a
thousand. -/
def sixHundredHertz : Group := ⟨".gps", [("rate", .parameter ⟨".gps.rate", .float (.ofNat 600)⟩)]⟩

theorem too_high_at_six_hundred_hertz :
    ∃ settings, ReceiverSettings.resolve sixHundredHertz = .ok settings ∧
      let status := ((new settings.fixFrequency).after (steady 0 settings.fixPeriod 2)).status
        settings.fixPeriod
      status.level = .warn ∧ status.message = "Frequency too high" := by
  refine ⟨{ ReceiverSettings.default with rate := .ofNat 600 }, ?_, ?_⟩
  · decide +kernel
  · decide +kernel

end RateMonitor
end GnssFusion
