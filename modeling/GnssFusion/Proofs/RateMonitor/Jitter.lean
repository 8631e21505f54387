import GnssFusion.Proofs.Binary64.Order
import GnssFusion.Proofs.RateMonitor.ProgrammedRate
import GnssFusion.Proofs.RateMonitor.Readings

/-!
What the rate monitor says of a receiver whose fixes come somewhat irregularly. Over the
window the intervals between them add up (`Spaced.span_bounds`), and with the time since the
last fix they are still few enough seconds, and enough of them, for the measured frequency to
stay within the tolerance, the roundings included (`met_despite_jitter`).
-/

namespace GnssFusion

open Binary64

/-! The intervals. -/

namespace Duration

/-- Seconds without rounding. -/
def exactSeconds (d : Duration) : ℚ := (d : ℤ) / perSecond

theorem exactSeconds_sub_add (a b c : Duration) :
    exactSeconds (c - a) = exactSeconds (c - b) + exactSeconds (b - a) := by
  unfold exactSeconds
  push_cast
  ring

theorem exactSeconds_nonneg {d : Duration} (h : 0 ≤ d) : 0 ≤ exactSeconds d :=
  div_nonneg (by exact_mod_cast h) (by norm_num [perSecond])

theorem natCast_of_exactSeconds {d : Duration} (h : 0 < exactSeconds d) :
    ∃ n : ℕ, d = n ∧ 0 < n ∧ (n : ℚ) / perSecond = exactSeconds d := by
  have hcast : (0 : ℚ) < (d : ℤ) := (div_pos_iff_of_pos_right (by norm_num [perSecond])).mp h
  have hpos : 0 < d := by exact_mod_cast hcast
  obtain ⟨n, rfl⟩ := Int.eq_ofNat_of_zero_le hpos.le
  refine ⟨n, rfl, Int.natCast_pos.mp hpos, ?_⟩
  rw [exactSeconds, Int.cast_natCast]

end Duration

open Duration

/-- Times with at least `low` and at most `high` seconds from each to the next. -/
def Spaced (low high : ℚ) (times : List Duration) : Prop :=
  times.IsChain fun earlier later =>
    low ≤ exactSeconds (later - earlier) ∧ exactSeconds (later - earlier) ≤ high

instance (low high : ℚ) (times : List Duration) : Decidable (Spaced low high times) :=
  inferInstanceAs (Decidable (List.IsChain _ _))

/-- From the first to the last of some times there are as many intervals as times follow. -/
theorem Spaced.span_bounds {low high : ℚ} {first last : Duration} {rest : List Duration}
    (h : Spaced low high (first :: rest)) (hlast : (first :: rest).getLast? = some last) :
    rest.length * low ≤ exactSeconds (last - first) ∧
      exactSeconds (last - first) ≤ rest.length * high := by
  induction rest generalizing first with
  | nil =>
      obtain rfl : first = last := Option.some.inj hlast
      simp [exactSeconds]
  | cons next rest ih =>
      obtain ⟨⟨hlow, hhigh⟩, hrest⟩ := List.isChain_cons_cons.mp h
      rw [List.getLast?_cons_cons] at hlast
      obtain ⟨hleast, hmost⟩ := ih hrest hlast
      rw [exactSeconds_sub_add first next last, List.length_cons]
      push_cast
      constructor <;> linarith

/-! The frequencies that settings can ask for. -/

section
open Settings

variable {settings : ReceiverSettings} (hrate : RateInRange settings.rate)
  (hnav : 1 ≤ settings.navRate.toNat ∧ settings.navRate.toNat ≤ 127)
include hrate hnav

theorem fixFrequency_range :
    (minimumRate / .ofNat 127).le settings.fixFrequency ∧
      settings.fixFrequency.le maximumRate := by
  obtain ⟨low, hlow, hminimum, -⟩ := within_minimumRate
  obtain ⟨units, hunits, hvalue, hmost, -⟩ := rate_of_rateInRange hrate
  obtain ⟨hn, hnavValue⟩ := ofNat_eq (hnav.2.trans (by norm_num : 127 ≤ 2 ^ 53))
  obtain ⟨h127, h127Value⟩ := ofNat_eq (n := 127) (by norm_num)
  obtain ⟨h1000, h1000Value⟩ := ofNat_eq (n := 1000) (by norm_num)
  have hleast := hrate.1
  rw [hminimum, hvalue, finite_le_finite] at hleast
  have hnavPos : 0 < settings.navRate.toNat * one := Nat.mul_pos hnav.1 oneUnits_pos
  constructor
  · rw [ReceiverSettings.fixFrequency, hminimum, hvalue, h127Value, hnavValue]
    refine finite_div_le_finite_div (Nat.mul_pos (by decide) oneUnits_pos) hnavPos ?_
    exact Nat.mul_le_mul hleast (Nat.mul_le_mul_right one hnav.2)
  · rw [ReceiverSettings.fixFrequency, hvalue, hnavValue, show maximumRate = _ from h1000Value]
    exact finite_div_le_finite hnavPos (Nat.mul_le_mul hmost (Nat.le_mul_of_pos_left one hnav.1))

theorem value_fixFrequency :
    Within 0 settings.fixFrequency settings.fixFrequency.value ∧
      1 / 10 ^ 4 ≤ settings.fixFrequency.value ∧ settings.fixFrequency.value ≤ 1000 := by
  obtain ⟨hleast, hmost⟩ := fixFrequency_range hrate hnav
  obtain ⟨low, hlow, hlowValue, hnear⟩ := within_minimumRate.div (.ofNat (n := 127) (by norm_num))
    (by norm_num) (by norm_num) (ordinary_of_bounds (by norm_num) (by norm_num)) (by norm_num)
  obtain ⟨h1000, h1000Value⟩ := ofNat_eq (n := 1000) (by norm_num)
  have hlowPos := pos_of_near hnear (by norm_num)
  rw [hlowValue] at hleast
  rw [show maximumRate = _ from h1000Value] at hmost
  obtain ⟨units, hunits, hfrequency, hfrom, hto⟩ := finite_of_between hleast hmost hlowPos
  rw [hfrequency, value_finite]
  refine ⟨⟨units, hunits, rfl, Near.rfl⟩, ?_, ?_⟩
  · calc (1 / 10 ^ 4 : ℚ) ≤ 1000 / 65535 / (127 : ℕ) * slack ^ 2 := by norm_num [slack]
      _ ≤ low / one := hnear.1
      _ ≤ units / one :=
        div_le_div_of_nonneg_right (by exact_mod_cast hfrom) cast_one_pos.le
  · rw [div_le_iff₀ cast_one_pos]
    exact_mod_cast hto

end

namespace RateMonitor
open Settings

section
variable {f s : ℚ} {frequency bound : Binary64} (hf : 0 < f) (hs : 0 < s)
  (hfrequency : Within 3 frequency (9 / s))
include hf hs hfrequency

/-- Nine intervals in so long a time are 0.8538 of the target, which leaves the roundings room. -/
theorem not_lt_of_span (hbound : Within 2 bound (f * (85 / 100))) (h : s * f ≤ 1054 / 100) :
    ¬ frequency.lt bound := by
  refine hfrequency.not_lt hbound ?_
  have hshare : f * (900 / 1054) ≤ 9 / s := by
    rw [le_div_iff₀ hs]
    linarith
  calc f * (85 / 100) ≤ f * (900 / 1054) * slack ^ (2 + 3) := by
        rw [mul_assoc]
        exact mul_le_mul_of_nonneg_left (by norm_num [slack]) hf.le
    _ ≤ 9 / s * slack ^ (2 + 3) := mul_le_mul_of_nonneg_right hshare (slack_pow_pos _).le

/-- Nine intervals in so short a time are 1.1364 times the target. -/
theorem not_gt_of_span (hbound : Within 2 bound (f * (115 / 100))) (h : 792 / 100 ≤ s * f) :
    ¬ bound.lt frequency := by
  refine hbound.not_lt hfrequency ?_
  calc 9 / s ≤ f * (900 / 792) := by
        rw [div_le_iff₀ hs]
        linarith
    _ ≤ f * (115 / 100) * slack ^ (3 + 2) := by
        rw [mul_assoc]
        exact mul_le_mul_of_nonneg_left (by norm_num [slack]) hf.le

end

/-- The seconds that a full window spans at a time of reading: nine of the shortest intervals at
least, and at most nine of the longest and a wanted period after them. -/
theorem span_of_full {f : ℚ} (hf : 0 < f) {times : List Duration} (hcount : 10 ≤ times.length)
    (hspaced : Spaced (88 / 100 / f) (106 / 100 / f) (lastOf 10 times)) {last now : Duration}
    (hlast : times.getLast? = some last) (hfrom : last ≤ now)
    (hto : exactSeconds (now - last) ≤ 1 / f) :
    ∃ oldest, (lastOf 10 times).head? = some oldest ∧
      792 / 100 ≤ exactSeconds (now - oldest) * f ∧
      exactSeconds (now - oldest) * f ≤ 1054 / 100 := by
  have hlength : (lastOf 10 times).length = 9 + 1 := by
    rw [length_lastOf]
    omega
  rw [← getLast?_lastOf (by decide : 0 < 10)] at hlast
  obtain ⟨oldest, rest, hkept⟩ := List.exists_cons_of_length_eq_add_one hlength
  rw [hkept] at hlength hspaced hlast ⊢
  obtain ⟨hleast, hmost⟩ := hspaced.span_bounds hlast
  have hnine : rest.length = 9 := Nat.succ.inj hlength
  have hsince := exactSeconds_nonneg (sub_nonneg.mpr hfrom)
  rw [hnine] at hleast hmost
  refine ⟨oldest, rfl, ?_, ?_⟩
  · rw [← div_le_iff₀ hf, exactSeconds_sub_add oldest last now]
    calc 792 / 100 / f = ((9 : ℕ) : ℚ) * (88 / 100 / f) := by
          push_cast
          ring
      _ ≤ exactSeconds (last - oldest) := hleast
      _ ≤ exactSeconds (now - last) + exactSeconds (last - oldest) := le_add_of_nonneg_left hsince
  · rw [← le_div_iff₀ hf, exactSeconds_sub_add oldest last now]
    calc exactSeconds (now - last) + exactSeconds (last - oldest)
        ≤ 1 / f + ((9 : ℕ) : ℚ) * (106 / 100 / f) := add_le_add hto hmost
      _ = 1054 / 100 / f := by
          push_cast
          ring

/-- Ten ticks in a moderate time are nine intervals in it. -/
theorem frequency?_of_span {monitor : RateMonitor} (hcount : monitor.ticks.length = 10)
    {oldest now : Duration} (holdest : monitor.ticks.head? = some oldest) {s : ℚ}
    (hspan : exactSeconds (now - oldest) = s) (hlow : 1 / 10 ^ 3 ≤ s) (hhigh : s ≤ 10 ^ 6) :
    ∃ frequency, monitor.frequency? now = some frequency ∧ Within 3 frequency (9 / s) := by
  have hs : 0 < s := lt_of_lt_of_le (by norm_num) hlow
  obtain ⟨n, hn, hpos, hseconds⟩ := natCast_of_exactSeconds (hspan ▸ hs)
  rw [hspan] at hseconds
  have hpassed : ¬ now ≤ oldest := by
    rw [← sub_nonpos, hn]
    exact_mod_cast hpos.not_ge
  have hmost : n ≤ 10 ^ 15 := by
    have hcast : (n : ℚ) ≤ 10 ^ 15 := by
      rw [div_eq_iff (by norm_num [perSecond])] at hseconds
      rw [hseconds, perSecond]
      norm_num
      linarith
    exact_mod_cast hcast
  have hordinary : Ordinary ((9 : ℕ) / s) := by
    refine ordinary_of_bounds ?_ ?_
    · rw [le_div_iff₀ hs]
      norm_num
      linarith
    · rw [div_le_iff₀ hs]
      norm_num
      linarith
  have hwithin : Within 3 (.ofNat 9 / seconds n) ((9 : ℕ) / ((n : ℚ) / perSecond)) :=
    within_ofNat_div_seconds (by norm_num) hpos hmost (hseconds ▸ hordinary)
  refine ⟨_, monitor.frequency?_of_oldest holdest (by omega) now, ?_⟩
  rw [if_neg hpassed, hn, hcount]
  rwa [hseconds] at hwithin

/-- No false alarm while the fixes of a full window keep their distance. -/
theorem met_despite_jitter {group : Group} {settings : ReceiverSettings}
    (resolved : ReceiverSettings.resolve group = .ok settings) {times : List Duration}
    (hcount : 10 ≤ times.length)
    (hspaced : Spaced (88 / 100 / settings.fixFrequency.value)
      (106 / 100 / settings.fixFrequency.value) (lastOf 10 times))
    {last now : Duration} (hlast : times.getLast? = some last) (hfrom : last ≤ now)
    (hto : exactSeconds (now - last) ≤ 1 / settings.fixFrequency.value) :
    let status := ((new settings.fixFrequency).after times).status now
    ((minimumRate / .ofNat 127).le settings.fixFrequency ∧
        settings.fixFrequency.le maximumRate) ∧
      status.level = .ok ∧ status.message = "Desired frequency met" := by
  obtain ⟨hrate, hnav⟩ := bounds_of_resolve resolved
  obtain ⟨htarget, hleast, hmost⟩ := value_fixFrequency hrate hnav
  have hrange := fixFrequency_range hrate hnav
  have hf : 0 < settings.fixFrequency.value := lt_of_lt_of_le (by norm_num) hleast
  generalize settings.fixFrequency = target at *
  obtain ⟨oldest, holdest, hlow, hhigh⟩ := span_of_full hf hcount hspaced hlast hfrom hto
  have hticks : ((new target).after times).ticks = lastOf 10 times := ticks_after_withWindow
  have hlength : ((new target).after times).ticks.length = 10 := by
    rw [hticks, length_lastOf]
    omega
  generalize hspan : exactSeconds (now - oldest) = s at hlow hhigh
  have hs : 0 < s := (mul_pos_iff_of_pos_right hf).mp (lt_of_lt_of_le (by norm_num) hlow)
  have hshort := mul_le_mul_of_nonneg_left hmost hs.le
  have hlong := mul_le_mul_of_nonneg_left hleast hs.le
  obtain ⟨frequency, hfrequency, hwithin⟩ := frequency?_of_span hlength (hticks ▸ holdest) hspan
    (by linarith) (by linarith)
  have hminimum := within_minimum_new htarget (by linarith) (by linarith) (by norm_num) times
  have hmaximum := within_maximum_new htarget (by linarith) (by linarith) (by norm_num) times
  have hjudge := judge_of_frequency? hfrequency
  rw [if_neg (not_lt_of_span hf hs hwithin hminimum hhigh),
    if_neg (not_gt_of_span hf hs hwithin hmaximum hlow)] at hjudge
  exact ⟨hrange, congrArg Prod.fst hjudge, congrArg Prod.snd hjudge⟩

/-- At four hertz, ten fixes that are all as late as may be, after one that came much later than
they did, and a reading a quarter of a second after the last. -/
theorem met_with_late_fixes :
    let times := 5000000000 :: steady 0 265000000 10
    ReceiverSettings.resolve Group.empty = .ok .default ∧ 10 ≤ times.length ∧
      Spaced (88 / 100 / ReceiverSettings.default.fixFrequency.value)
        (106 / 100 / ReceiverSettings.default.fixFrequency.value) (lastOf 10 times) ∧
      times.getLast? = some 2385000000 ∧ (2385000000 : Duration) ≤ 2635000000 ∧
      exactSeconds (2635000000 - 2385000000) ≤
        1 / ReceiverSettings.default.fixFrequency.value ∧
      let status := ((new ReceiverSettings.default.fixFrequency).after times).status 2635000000
      status.level = .ok ∧ status.message = "Desired frequency met" := by
  have hresolve : ReceiverSettings.resolve Group.empty = .ok .default := by decide +kernel
  have hspaced : Spaced (88 / 100 / ReceiverSettings.default.fixFrequency.value)
      (106 / 100 / ReceiverSettings.default.fixFrequency.value)
      (lastOf 10 (5000000000 :: steady 0 265000000 10)) := by decide +kernel
  have hto : exactSeconds (2635000000 - 2385000000) ≤
      1 / ReceiverSettings.default.fixFrequency.value := by decide +kernel
  obtain ⟨-, hmet⟩ := met_despite_jitter hresolve (by decide) hspaced (by decide +kernel)
    (by decide : (2385000000 : Duration) ≤ 2635000000) hto
  exact ⟨hresolve, by decide, hspaced, by decide +kernel, by decide, hto, hmet⟩

end RateMonitor
end GnssFusion
