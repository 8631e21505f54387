import GnssFusion.Proofs.Binary64.NearestInteger
import GnssFusion.Proofs.Replay.Feed

/-!
Durations and numbers of seconds. A larger number of seconds is no shorter a duration
(`ofSeconds_mono`), whatever the signs, and also where the duration is rounded or held to 64
bits. For eleven days either way the three roundings from a duration to seconds and back are
less than half a nanosecond together, so that nothing is lost (`ofSeconds_seconds`).
-/

namespace GnssFusion.Duration
open Binary64

/-! Seconds to durations. -/

theorem lowest_eq : Int64.minValue.toInt = -2 ^ 63 := rfl

theorem highest_eq : Int64.maxValue.toInt = 2 ^ 63 - 1 := rfl

theorem highest_le_nearestSize : 2 ^ 63 ≤ nearestSize limit := by decide +kernel

/-- A larger number of seconds is no shorter a duration. -/
theorem ofSeconds_mono {s t : Binary64} (h : s.le t) : ofSeconds s ≤ ofSeconds t := by
  have hsize : (2 ^ 63 : ℤ) ≤ nearestSize limit := by exact_mod_cast highest_le_nearestSize
  obtain ⟨hc, hvalue⟩ := ofNat_eq (by decide : perSecond ≤ 2 ^ 53)
  rw [ofSeconds, ofSeconds, hvalue, lowest_eq, highest_eq]
  refine nearestInt_mono (by omega) (by omega) (by omega) (mul_finite_le_mul_finite h hc ?_)
  exact Nat.le_mul_of_pos_left one (by decide)

/-! Durations to seconds and back. -/

theorem exists_units_rest {rest : ℕ} (h : rest < perSecond) :
    ∃ u : ℕ, HasUnits (ofNat rest / ofNat perSecond) u ∧
      HasUnits (ofInt (-rest) / ofNat perSecond) (-u) ∧ (0 < rest → 0 < u) := by
  obtain ⟨u, hu, hvalue, hnear⟩ := within_rest h
  have hunits : HasUnits (ofNat rest / ofNat perSecond) u := ⟨false, u, hu, hvalue, rfl⟩
  obtain rfl | hpos := Nat.eq_zero_or_pos rest
  · -- Among the integers there is one zero only, which keeps its sign.
    rw [Nat.cast_zero, zero_div] at hnear
    rw [eq_zero_of_near hnear] at hunits
    exact ⟨0, hunits, hunits, fun h => absurd h (lt_irrefl 0)⟩
  · have hne : (rest : ℤ) ≠ 0 := by exact_mod_cast hpos.ne'
    refine ⟨u, hunits, ?_, fun _ => pos_of_near hnear ?_⟩
    · rw [ofInt_neg hne, Binary64.neg_div]
      exact hunits.neg
    · exact div_pos (by exact_mod_cast hpos) (by norm_num [perSecond])

theorem seconds_neg {n : ℕ} (hpos : 0 < n) (h : n ≤ 10 ^ 15) :
    seconds (-(n : ℤ)) = -seconds n := by
  have hsplit := Nat.div_add_mod n perSecond
  have hfew : n / perSecond ≤ 2 ^ 53 := (Nat.div_le_self _ _).trans (h.trans (by decide))
  obtain ⟨u, hrest, hrest', hu⟩ := exists_units_rest (Nat.mod_lt n (by decide : 0 < perSecond))
  have hneg : seconds (-(n : ℤ)) = ofInt (-(n / perSecond : ℕ)) +
      ofInt (-(n % perSecond : ℕ)) / ofNat perSecond := by
    rw [seconds, Int.neg_tdiv, Int.neg_tmod]
    rfl
  rw [hneg, seconds_natCast]
  generalize n / perSecond = whole at hsplit hfew ⊢
  generalize n % perSecond = rest at hsplit hu hrest hrest' ⊢
  have hwhole : HasUnits (ofNat whole) (whole * one) := .ofInt hfew
  have hwhole' : HasUnits (ofInt (-whole)) (-whole * one) := .ofInt (by rwa [Int.natAbs_neg])
  have hsum : (whole * one + u : ℤ) ≠ 0 := by
    obtain rfl | hwholePos := Nat.eq_zero_or_pos whole
    · have := hu (by omega)
      omega
    · have := Nat.mul_pos hwholePos oneUnits_pos
      omega
  have hnegSum : -whole * one + -u = -(whole * one + u : ℤ) := by ring
  rw [hwhole.add hrest hsum, hwhole'.add hrest' (by rwa [hnegSum, neg_ne_zero]), hnegSum,
    ofUnits_neg hsum]

theorem ofSeconds_seconds {d : Duration} (h : d.natAbs ≤ 10 ^ 15) : ofSeconds (seconds d) = d := by
  obtain hneg | hpos := lt_or_ge d 0
  · obtain ⟨n, rfl⟩ := Int.exists_eq_neg_ofNat hneg.le
    have hn : n ≤ 10 ^ 15 := by omega
    have hpos : 0 < n := by
      obtain rfl | hpos := Nat.eq_zero_or_pos n
      · exact absurd hneg (lt_irrefl 0)
      · exact hpos
    rw [ofSeconds, seconds_neg hpos hn,
      nearestInt_neg_mul_ofNat (within_seconds hn) hn (by decide) (by decide), lowest_eq,
      highest_eq]
    exact clamp_of_mem (by omega) (by omega)
  · obtain ⟨n, rfl⟩ := Int.eq_ofNat_of_zero_le hpos
    have hn : n ≤ 10 ^ 15 := by omega
    rw [ofSeconds, nearestInt_mul_ofNat (within_seconds hn) hn (by decide) (by decide), lowest_eq,
      highest_eq]
    exact clamp_of_mem (by omega) (by omega)

theorem lt_seconds_iff {d e : Duration} (hd : d.natAbs ≤ 10 ^ 15) (he : e.natAbs ≤ 10 ^ 15) :
    (seconds d).lt (seconds e) ↔ d < e := by
  constructor
  · intro h
    obtain ⟨a, b, ha, hb, hab⟩ := lt_iff.mp h
    have hle : d ≤ e := by
      rw [← ofSeconds_seconds hd, ← ofSeconds_seconds he]
      exact ofSeconds_mono ((le_iff_of_units ha hb).mpr hab.le)
    refine lt_of_le_of_ne hle ?_
    rintro rfl
    exact hab.ne (Option.some.inj (ha.symm.trans hb))
  · intro h
    obtain ⟨a, ha, -⟩ := Option.map_eq_some_iff.mp (sign?_seconds d)
    obtain ⟨b, hb, -⟩ := Option.map_eq_some_iff.mp (sign?_seconds e)
    refine lt_iff.mpr ⟨a, b, ha, hb, lt_of_not_ge ?_⟩
    intro hba
    have hle := ofSeconds_mono ((le_iff_of_units hb ha).mpr hba)
    rw [ofSeconds_seconds hd, ofSeconds_seconds he] at hle
    exact h.not_ge hle

theorem timely_seconds {n : ℕ} (h : n ≤ 10 ^ 15) (report : Report) :
    (Entry.mk (seconds n) report).Timely := by
  obtain ⟨u, hu, hvalue, -⟩ := within_seconds h
  have hunits : (finite false u hu).units? = some (u : ℤ) := rfl
  have hnotBelow : ¬ (u : ℤ) < 0 := (Int.natCast_nonneg u).not_gt
  rw [Entry.Timely, hvalue, lt, hunits, units?_zero]
  exact ⟨rfl, decide_eq_false hnotBelow⟩

theorem arrive_seconds {d : Duration} (h : d.natAbs ≤ 10 ^ 15) {s : Replay.State}
    (hclock : s.clock.elapsed ≤ d) (index : ℕ) :
    s.arrive index (seconds d) = pure { s with clock := ⟨s.clock.epoch, d⟩ } := by
  have hheld : decide (d < s.clock.elapsed) = false := decide_eq_false hclock.not_gt
  rw [Replay.State.arrive, ofSeconds_seconds h, SimulatedClock.advanceTo, max_eq_right hclock,
    hheld]
  rfl

/-- A week in nanoseconds. -/
def perWeek : ℕ := 604800 * perSecond

/-- Durations of up to a week, forwards or back, are read off their seconds unchanged. So
different ones have different seconds, in the same order, and the seconds of one that is not
below zero are a receive time at which a clock that is not past it stands at the very same
duration, without a warning. -/
theorem week_returns_from_seconds {d : Duration} (h : d.natAbs ≤ perWeek) :
    ofSeconds (seconds d) = d ∧
    (∀ e : Duration, e.natAbs ≤ perWeek →
      ((seconds d).lt (seconds e) ↔ d < e) ∧ (seconds d = seconds e ↔ d = e)) ∧
    (0 ≤ d → ∀ (report : Report) (index : ℕ) (s : Replay.State), s.clock.elapsed ≤ d →
      (Entry.mk (seconds d) report).Timely ∧
      s.arrive index (seconds d) = pure { s with clock := ⟨s.clock.epoch, d⟩ }) := by
  have hweek : perWeek ≤ 10 ^ 15 := by decide
  have hd := h.trans hweek
  refine ⟨ofSeconds_seconds hd, ?_, ?_⟩
  · intro e he
    refine ⟨lt_seconds_iff hd (he.trans hweek), fun hequal => ?_, congrArg seconds⟩
    rw [← ofSeconds_seconds hd, hequal, ofSeconds_seconds (he.trans hweek)]
  · intro hpos report index s hclock
    obtain ⟨n, rfl⟩ := Int.eq_ofNat_of_zero_le hpos
    exact ⟨timely_seconds hd report, arrive_seconds hd hclock index⟩

/-- A week back less a nanosecond, beside a whole week back. -/
theorem week_returns_from_seconds_below_zero :
    let d : Duration := -604799999999999
    d.natAbs ≤ perWeek ∧ ofSeconds (seconds d) = d ∧
      (seconds (-604800000000000)).lt (seconds d) := by
  have hbound : (-604799999999999 : Duration).natAbs ≤ perWeek := by decide
  have hweek : (-604800000000000 : Duration).natAbs ≤ perWeek := by decide
  obtain ⟨hsame, -, -⟩ := week_returns_from_seconds hbound
  obtain ⟨-, horder, -⟩ := week_returns_from_seconds hweek
  exact ⟨hbound, hsame, (horder _ hbound).1.mpr (by decide)⟩

end GnssFusion.Duration
