import GnssFusion.Proofs.Binary64.RelativeError
import GnssFusion.Time

/-!
The signs of computed numbers. A rounding keeps the sign of what it rounds unless that is
smaller than every number of the format (`sign?_ofQuotient`), and a sum has the sign that
its terms agree on (`sign?_add`). So a duration in seconds has the sign of the duration, be
it one nanosecond or too long for the format (`sign?_seconds`). Changing the sign before an
operation and after it is the same (`neg_mul`, `neg_div`), save for the zeros of integers and
sums (`ofInt_neg`, `HasUnits.add`).
-/

namespace GnssFusion.Binary64

/-- The sign of the value. A NaN has none. -/
def sign? (x : Binary64) : Option Int := x.units?.map Int.sign

theorem sign_signed (negative : Bool) {n : ℕ} (h : 0 < n) :
    (signed negative n).sign = if negative then -1 else 1 := by
  have hn : (n : ℤ).sign = 1 := Int.sign_eq_one_of_pos (by exact_mod_cast h)
  cases negative with
  | false => exact hn
  | true => exact (Int.sign_neg n).trans (congrArg Neg.neg hn)

theorem sign?_infinite (negative : Bool) :
    sign? (infinite negative) = some (if negative then -1 else 1) :=
  congrArg some (sign_signed negative limit_pos)

theorem sign?_finite {negative : Bool} {n : ℕ} (h : Representable n) :
    sign? (finite negative n h) = some (signed negative n).sign := rfl

theorem sign_eq_ite {z : ℤ} (h : z ≠ 0) : z.sign = if decide (z < 0) then -1 else 1 := by
  obtain hneg | hpos := lt_or_gt_of_ne h
  · rw [decide_eq_true hneg, Int.sign_eq_neg_one_of_neg hneg, if_pos rfl]
  · rw [decide_eq_false (by omega), Int.sign_eq_one_of_pos hpos, if_neg Bool.false_ne_true]

/-- Nothing that has at least the size of the least positive number is rounded to zero. -/
theorem sign?_ofQuotient (negative : Bool) {num den : ℕ} (h : 1 ≤ num / den) :
    sign? (ofQuotient negative num den) = some (if negative then -1 else 1) := by
  unfold ofQuotient
  split
  · exact congrArg some (sign_signed negative (two_pow_le_round (e := 0) h))
  · exact sign?_infinite negative

theorem sign?_ofUnits (z : ℤ) (zeroNegative : Bool) :
    sign? (ofUnits z zeroNegative) = some z.sign := by
  unfold ofUnits
  split
  · next hzero =>
      subst hzero
      cases zeroNegative <;> rfl
  · next hne => rw [sign?_ofQuotient _ (by rw [Nat.div_one]; omega), sign_eq_ite hne]

theorem sign?_ofInt (z : ℤ) : sign? (ofInt z) = some z.sign := by
  have hone : (one : ℤ).sign = 1 := Int.sign_eq_one_of_pos (by exact_mod_cast oneUnits_pos)
  rw [ofInt, sign?_ofUnits, Int.sign_mul, hone, mul_one]

/-- Integers of up to 53 bits are exact, with either sign. -/
theorem ofInt_eq {z : ℤ} (h : z.natAbs ≤ 2 ^ 53) :
    ∃ hz, ofInt z = finite (decide (z < 0)) (z.natAbs * one) hz := by
  obtain ⟨hn, hvalue⟩ := ofNat_eq h
  refine ⟨hn, ?_⟩
  obtain hpos | hneg := le_or_gt 0 z
  · rw [decide_eq_false (by omega), ← hvalue, ofNat, Int.natAbs_of_nonneg hpos]
  · have hround := round_of_dvd hn.2
    have hsize : (z * one).natAbs = z.natAbs * one := by rw [Int.natAbs_mul, Int.natAbs_natCast]
    have hbelow : z * one < 0 := Int.mul_neg_of_neg_of_pos hneg (by exact_mod_cast oneUnits_pos)
    rw [ofInt, ofUnits, if_neg (by omega), hsize, decide_eq_true hneg, decide_eq_true hbelow,
      ofQuotient, dif_pos (by rw [hround]; exact hn.1)]
    simp only [hround]

theorem sign_add_of_agree {a b : ℤ} (h : 0 ≤ a.sign * b.sign) :
    (a + b).sign = (a.sign + b.sign).sign := by
  obtain ha | rfl | ha := lt_trichotomy a 0 <;> obtain hb | rfl | hb := lt_trichotomy b 0 <;>
    simp_all [Int.sign_eq_one_of_pos, Int.sign_eq_neg_one_of_neg, Int.add_pos, Int.add_neg]

theorem sign_add_of_unit {negative : Bool} {b : ℤ} (h : 0 ≤ (if negative then -1 else 1) * b) :
    ((if negative then -1 else 1) + b).sign = if negative then -1 else 1 := by
  cases negative with
  | false => exact Int.sign_eq_one_of_pos (by simp at h ⊢; omega)
  | true => exact Int.sign_eq_neg_one_of_neg (by simp at h ⊢; omega)

/-- Terms of opposite signs are left out: of two infinities there is no sum. -/
theorem sign?_add {x y : Binary64} {a b : ℤ} (hx : sign? x = some a) (hy : sign? y = some b)
    (h : 0 ≤ a * b) : sign? (x + y) = some (a + b).sign := by
  change sign? (add x y) = _
  rcases x with _ | p | ⟨p, m, hm⟩
  case nan => nomatch hx
  case infinite =>
    -- The other term is of the same sign or zero, so it cannot be the opposite infinity.
    cases (sign?_infinite p).symm.trans hx
    rw [sign_add_of_unit h, ← sign?_infinite p]
    rcases y with _ | q | ⟨q, n, hn⟩
    case nan => nomatch hy
    case infinite =>
      cases (sign?_infinite q).symm.trans hy
      have hsame : p = q := by cases p <;> cases q <;> simp_all
      rw [add, if_pos hsame]
    case finite => rfl
  case finite =>
    rcases y with _ | q | ⟨q, n, hn⟩
    case nan => nomatch hy
    case infinite =>
      cases (sign?_infinite q).symm.trans hy
      rw [mul_comm] at h
      rw [add_comm, sign_add_of_unit h, ← sign?_infinite q]
      rfl
    case finite =>
      cases (sign?_finite hm).symm.trans hx
      cases (sign?_finite hn).symm.trans hy
      rw [add, sign?_ofUnits, sign_add_of_agree h]

/-- No divisor of up to 53 bits makes a whole number vanish. -/
theorem sign?_ofInt_div_ofNat {z : ℤ} {n : ℕ} (hz : z.natAbs ≤ 2 ^ 53) (hn : n ≤ 2 ^ 53)
    (hpos : 0 < n) : sign? (ofInt z / ofNat n) = some z.sign := by
  obtain ⟨hz', hvalue⟩ := ofInt_eq hz
  obtain ⟨hn', hdivisor⟩ := ofNat_eq hn
  have hunits : 0 < n * one := Nat.mul_pos hpos oneUnits_pos
  rw [hvalue, hdivisor, finite_div_finite _ _ hunits.ne', Bool.xor_false]
  by_cases hzero : z = 0
  · subst hzero
    have hround : round (Int.natAbs 0 * one * one) (n * one) = 0 := by
      rw [Int.natAbs_zero, Nat.zero_mul, Nat.zero_mul, round_zero]
    simp only [ofQuotient, hround, limit_pos, dite_true]
    rfl
  · rw [sign_eq_ite hzero]
    refine sign?_ofQuotient _ ((Nat.le_div_iff_mul_le hunits).mpr ?_)
    rw [Nat.one_mul]
    refine Nat.mul_le_mul_right one ?_
    calc n ≤ one := hn.trans (two_pow_le_one (by decide))
      _ ≤ z.natAbs * one := Nat.le_mul_of_pos_left one (Int.natAbs_pos.mpr hzero)

theorem units?_zero : (ofNat 0).units? = some 0 := by
  rw [ofNat, ofInt, Int.natCast_zero, zero_mul]
  rfl

theorem le_zero_iff {x : Binary64} {a : ℤ} (h : sign? x = some a) :
    x.le (ofNat 0) = true ↔ a ≤ 0 := by
  obtain ⟨u, hu, rfl⟩ := Option.map_eq_some_iff.mp h
  rw [le, hu, units?_zero, decide_eq_true_eq, Int.sign_nonpos_iff]

/-! Negation. A rounding looks at the size of what it rounds, never at the sign. -/

theorem signed_not (negative : Bool) (n : ℕ) : signed (!negative) n = -signed negative n := by
  cases negative with
  | false => rfl
  | true => exact (neg_neg (n : ℤ)).symm

theorem units?_neg (x : Binary64) : (-x).units? = x.units?.map Neg.neg := by
  cases x with
  | nan => rfl
  | infinite negative => exact congrArg some (signed_not negative limit)
  | finite negative n h => exact congrArg some (signed_not negative n)

theorem sign?_neg {x : Binary64} {a : ℤ} (h : sign? x = some a) : sign? (-x) = some (-a) := by
  obtain ⟨u, hu, rfl⟩ := Option.map_eq_some_iff.mp h
  rw [sign?, units?_neg, hu, Option.map_some, Option.map_some, Int.sign_neg]

theorem isFinite_neg {x : Binary64} (h : x.isFinite) : (-x).isFinite := by
  cases x with
  | finite negative units hunits => rfl
  | _ => cases h

theorem neg_ofQuotient (negative : Bool) (num den : ℕ) :
    -ofQuotient negative num den = ofQuotient (!negative) num den := by
  change neg _ = _
  unfold ofQuotient
  split <;> rfl

theorem ofUnits_neg {z : ℤ} (hz : z ≠ 0) (zeroNegative : Bool) :
    ofUnits (-z) zeroNegative = -ofUnits z zeroNegative := by
  have hsign : decide (-z < 0) = !decide (z < 0) := by
    rw [← decide_not, decide_eq_decide]
    omega
  rw [ofUnits, ofUnits, if_neg (neg_ne_zero.mpr hz), if_neg hz, neg_ofQuotient, Int.natAbs_neg,
    hsign]

theorem ofInt_neg {z : ℤ} (hz : z ≠ 0) : ofInt (-z) = -ofInt z := by
  have hunits : z * one ≠ 0 := mul_ne_zero hz (by exact_mod_cast oneUnits_pos.ne')
  rw [ofInt, ofInt, neg_mul, ofUnits_neg hunits]

theorem neg_div (x y : Binary64) : -x / y = -(x / y) := by
  change div (neg x) y = neg (div x y)
  rcases x with _ | a | ⟨a, m, hm⟩ <;> rcases y with _ | b | ⟨b, n, hn⟩
  case infinite.finite => exact congrArg infinite (Bool.not_xor a b)
  case finite.infinite => exact congrArg zero (Bool.not_xor a b)
  case finite.finite =>
    rw [neg, div, div, Bool.not_xor]
    by_cases hzero : n = 0
    · by_cases hnone : m = 0
      · rw [if_pos hzero, if_pos hnone, if_pos hzero, if_pos hnone, neg]
      · rw [if_pos hzero, if_neg hnone, if_pos hzero, if_neg hnone, neg]
    · rw [if_neg hzero, if_neg hzero]
      exact (neg_ofQuotient _ _ _).symm
  all_goals rfl

theorem neg_mul (x y : Binary64) : -x * y = -(x * y) := by
  change mul (neg x) y = neg (mul x y)
  rcases x with _ | a | ⟨a, m, hm⟩ <;> rcases y with _ | b | ⟨b, n, hn⟩
  case infinite.infinite => exact congrArg infinite (Bool.not_xor a b)
  case infinite.finite =>
    rw [neg, mul, mul, Bool.not_xor]
    by_cases hzero : n = 0
    · rw [if_pos hzero, if_pos hzero, neg]
    · rw [if_neg hzero, if_neg hzero, neg]
  case finite.infinite =>
    rw [neg, mul, mul, Bool.xor_not]
    by_cases hzero : m = 0
    · rw [if_pos hzero, if_pos hzero, neg]
    · rw [if_neg hzero, if_neg hzero, neg]
  case finite.finite =>
    rw [neg, mul, mul, Bool.not_xor]
    exact (neg_ofQuotient _ _ _).symm
  all_goals rfl

theorem not_lt_of_le {x y : Binary64} (h : x.le y) : ¬ y.lt x := by
  unfold le at h
  unfold lt
  cases hx : x.units? with
  | none => simp [hx] at h
  | some a =>
      cases hy : y.units? with
      | none => simp [hx, hy] at h
      | some b =>
          simp only [hx, hy, decide_eq_true_eq] at h ⊢
          exact not_lt.mpr h

/-! Sums with either sign. -/

/-- A finite number of so many units. -/
def HasUnits (x : Binary64) (u : ℤ) : Prop := ∃ p m h, x = finite p m h ∧ signed p m = u

namespace HasUnits

variable {x y : Binary64} {u v : ℤ}

theorem neg (h : HasUnits x u) : HasUnits (-x) (-u) := by
  obtain ⟨p, m, hm, rfl, rfl⟩ := h
  exact ⟨!p, m, hm, rfl, signed_not p m⟩

theorem ofInt {z : ℤ} (h : z.natAbs ≤ 2 ^ 53) : HasUnits (ofInt z) (z * one) := by
  obtain ⟨hz, hvalue⟩ := ofInt_eq h
  refine ⟨_, _, hz, hvalue, ?_⟩
  obtain hneg | hpos := lt_or_ge z 0
  · rw [decide_eq_true hneg, signed, if_pos rfl, Int.natCast_mul,
      Int.ofNat_natAbs_of_nonpos hneg.le]
    ring
  · rw [decide_eq_false hpos.not_gt, signed, if_neg Bool.false_ne_true, Int.natCast_mul,
      Int.natAbs_of_nonneg hpos]

/-- The signs of zeros among the terms do not show in a sum that is not zero. -/
theorem add (hx : HasUnits x u) (hy : HasUnits y v) (h : u + v ≠ 0) :
    x + y = ofUnits (u + v) false := by
  obtain ⟨p, m, hm, rfl, rfl⟩ := hx
  obtain ⟨q, n, hn, rfl, rfl⟩ := hy
  change ofUnits (signed p m + signed q n) (p && q) = _
  rw [ofUnits, ofUnits, if_neg h, if_neg h]

end HasUnits

/-! Integers from numbers that are not below zero. -/

end GnssFusion.Binary64

namespace GnssFusion.Duration
open Binary64

/-- The whole seconds and the rest of them do not differ in sign. -/
theorem sign_tdiv_mul_sign_tmod (d : Int) (n : ℕ) : 0 ≤ (d.tdiv n).sign * (d.tmod n).sign := by
  obtain ⟨size, hsize⟩ := d.eq_nat_or_neg
  have hnonneg : 0 ≤ (Int.tdiv size n).sign * (Int.tmod size n).sign :=
    mul_nonneg
      (Int.sign_nonneg_iff.mpr (Int.tdiv_nonneg (Int.natCast_nonneg _) (Int.natCast_nonneg _)))
      (Int.sign_nonneg_iff.mpr (Int.tmod_nonneg _ (Int.natCast_nonneg _)))
  obtain rfl | rfl := hsize
  · exact hnonneg
  · rwa [Int.neg_tdiv, Int.neg_tmod, Int.sign_neg, Int.sign_neg, neg_mul_neg]

theorem sign?_seconds (d : Duration) : sign? (seconds d) = some (Int.sign d) := by
  have hrest : (d.tmod perSecond).natAbs ≤ 2 ^ 53 := by
    rw [Int.natAbs_tmod]
    exact (Nat.mod_lt _ (by decide)).le.trans (by decide)
  have hagree := sign_tdiv_mul_sign_tmod d perSecond
  have hsecond : (perSecond : ℤ).sign = 1 := rfl
  have hwhole : (d.tdiv perSecond * perSecond).sign = (d.tdiv perSecond).sign := by
    rw [Int.sign_mul, hsecond, mul_one]
  rw [seconds, sign?_add (sign?_ofInt _)
    (sign?_ofInt_div_ofNat hrest (by decide) (by decide)) hagree, ← hwhole,
    ← sign_add_of_agree (by rwa [hwhole]), Int.tdiv_mul_add_tmod]

/-- A duration in seconds is above zero exactly when the duration is. -/
theorem seconds_le_zero_iff (d : Duration) : (seconds d).le (.ofNat 0) = true ↔ d ≤ 0 := by
  rw [le_zero_iff (sign?_seconds d), Int.sign_nonpos_iff]

end GnssFusion.Duration
