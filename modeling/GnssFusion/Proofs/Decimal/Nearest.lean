import GnssFusion.Proofs.Binary64.Bounds
import GnssFusion.Decimal.Shortest

/-!
The number nearest to a decimal depends on the value of the decimal alone (`units_congr`),
so zeros at its end may be dropped. The shortest decimal for a number is therefore nearest
to that number (`units_shortest`), and so is every other decimal of the same value
(`ofDecimal_of_units`).
-/

namespace GnssFusion

namespace Binary64

theorem nearestEven_mul_right (num den : ℕ) {c : ℕ} (hc : 0 < c) :
    nearestEven (num * c) (den * c) = nearestEven num den := by
  simp only [nearestEven, Nat.mul_div_mul_right _ _ hc, Nat.mul_mod_mul_right, ← Nat.mul_assoc,
    Nat.mul_lt_mul_right hc]

theorem round_mul_right (num den : ℕ) {c : ℕ} (hc : 0 < c) :
    round (num * c) (den * c) = round num den := by
  simp only [round, Nat.mul_div_mul_right _ _ hc, Nat.mul_right_comm den c,
    nearestEven_mul_right _ _ hc]

/-- A rounding sees of a quotient only its value. -/
theorem round_congr {a b c d : ℕ} (hb : 0 < b) (hd : 0 < d) (h : (a : ℚ) / b = c / d) :
    round a b = round c d := by
  have hb' : (b : ℚ) ≠ 0 := by exact_mod_cast hb.ne'
  have hd' : (d : ℚ) ≠ 0 := by exact_mod_cast hd.ne'
  have hcross : a * d = c * b := by
    rw [div_eq_div_iff hb' hd'] at h
    exact_mod_cast h
  calc round a b = round (a * d) (b * d) := (round_mul_right a b hd).symm
    _ = round (c * b) (d * b) := by rw [hcross, Nat.mul_comm b d]
    _ = round c d := round_mul_right c d hb

theorem limit_le_round {num den : ℕ} (h : limit ≤ num / den) : limit ≤ round num den := by
  rw [limit] at h ⊢
  exact two_pow_le_round (e := 2098) h

theorem round_of_small {num den : ℕ} (h : 2 * num < den) : round num den = 0 := by
  have hquotient : num / den = 0 := Nat.div_eq_of_lt (by omega)
  have hnearest : nearestEven num den = 0 := by
    simp only [nearestEven, Nat.mod_eq_of_lt (show num < den by omega), if_pos h, hquotient]
  have hspacing : 2 ^ spacing 0 = 1 := rfl
  simp only [round, hquotient, hspacing, Nat.mul_one, hnearest]

end Binary64

open Binary64

namespace Decimal

def value (d : Decimal) : ℚ := d.digits * 10 ^ d.exponent

theorem denominator_pos (d : Decimal) : 0 < d.denominator := Nat.pow_pos (by decide)

theorem ten_zpow (e : ℤ) : (10 : ℚ) ^ e = 10 ^ e.toNat / 10 ^ (-e).toNat := by
  obtain ⟨n, rfl | rfl⟩ := e.eq_nat_or_neg
  · simp
  · simp

/-- Numerator and denominator are those of the value in units. -/
theorem numerator_div_denominator (d : Decimal) :
    (d.numerator : ℚ) / d.denominator = d.value * one := by
  rw [value, ten_zpow, numerator, denominator]
  push_cast
  ring

theorem units_congr {d e : Decimal} (h : d.value = e.value) : d.units = e.units := by
  refine round_congr d.denominator_pos e.denominator_pos ?_
  rw [numerator_div_denominator, numerator_div_denominator, h]

theorem value_strip (digits : ℕ) (exponent : ℤ) :
    (strip digits exponent).value = value ⟨digits, exponent⟩ := by
  induction digits, exponent using strip.induct with
  | case1 digits exponent h ih =>
      have hdigits : (digits : ℚ) = (digits / 10 : ℕ) * 10 := by
        exact_mod_cast (show digits = digits / 10 * 10 by omega)
      rw [strip, if_pos h, ih, value, value, hdigits, zpow_add_one₀ (by norm_num)]
      ring
  | case2 digits exponent h => rw [strip, if_neg h]

theorem eq_of_nearer? {tie : Tie} {low high d : Decimal} {order : Ordering} {a b : Bool}
    (h : nearer? tie low high order a b = some d) : a = true ∧ d = low ∨ b = true ∧ d = high := by
  cases a <;> cases b
  case false.false => nomatch h
  case true.false => exact .inl ⟨rfl, (Option.some.inj h).symm⟩
  case false.true => exact .inr ⟨rfl, (Option.some.inj h).symm⟩
  case true.true =>
    cases order with
    | lt => exact .inl ⟨rfl, (Option.some.inj h).symm⟩
    | gt => exact .inr ⟨rfl, (Option.some.inj h).symm⟩
    | eq =>
        cases tie with
        | up => exact .inr ⟨rfl, (Option.some.inj h).symm⟩
        | even =>
            by_cases hlow : low.digits % 2 = 0
            · simp only [nearer?, if_pos hlow] at h
              exact .inl ⟨rfl, (Option.some.inj h).symm⟩
            · simp only [nearer?, if_neg hlow] at h
              exact .inr ⟨rfl, (Option.some.inj h).symm⟩

theorem units_of_onGrid? {tie : Tie} {n : ℕ} {exponent : ℤ} {d : Decimal}
    (h : onGrid? tie n exponent = some d) : d.units = n := by
  simp only [onGrid?] at h
  obtain ⟨hlow, rfl⟩ | ⟨hhigh, rfl⟩ := eq_of_nearer? h
  · exact of_decide_eq_true hlow
  · exact of_decide_eq_true hhigh

theorem value_mul_two_pow (n k : ℕ) : value ⟨n * 5 ^ k, -k⟩ * (2 ^ k : ℕ) = n := by
  have hten : (10 : ℚ) ^ k = 5 ^ k * 2 ^ k := by rw [← mul_pow]; norm_num
  have hpos : (10 : ℚ) ^ k ≠ 0 := by positivity
  calc value ⟨n * 5 ^ k, -k⟩ * (2 ^ k : ℕ) = n * (5 ^ k * 2 ^ k) / 10 ^ k := by
        rw [value, zpow_neg, zpow_natCast]
        push_cast
        ring
    _ = n := by rw [← hten, mul_div_cancel_right₀ _ hpos]

theorem units_exact {n : ℕ} (h : Representable n) : (exact n).units = n := by
  have hvalue : (exact n).value * (one : ℕ) = n := by
    rw [one, ← value_mul_two_pow n 1074]
    rfl
  have hratio : ((exact n).numerator : ℚ) / (exact n).denominator = (n : ℕ) / (1 : ℕ) := by
    rw [numerator_div_denominator, hvalue, Nat.cast_one, div_one]
  rw [units, round_congr (denominator_pos _) Nat.one_pos hratio, round_of_dvd h.2]

theorem units_shortest (tie : Tie) {n : ℕ} (h : Representable n) : (shortest tie n).units = n := by
  unfold shortest
  rw [units_congr (value_strip _ _)]
  cases hfound : (List.range 17).findSome? fun p => onGrid? tie n (places n - (p + 1 : ℕ)) with
  | none => exact units_exact h
  | some d =>
      obtain ⟨p, -, hgrid⟩ := List.exists_of_findSome?_eq_some hfound
      exact units_of_onGrid? hgrid

theorem units_of_no_digits {d : Decimal} (h : d.digits = 0) : d.units = 0 := by
  rw [units, numerator, h, Nat.zero_mul, Nat.zero_mul, round_zero]

/-- How many places a decimal has before its point, or how far behind it it starts. -/
def magnitude (d : Decimal) : ℤ := (Nat.toDigits 10 d.digits).length + d.exponent

theorem value_lt (d : Decimal) : d.value < 10 ^ d.magnitude := by
  have hlength : d.digits < 10 ^ (Nat.toDigits 10 d.digits).length :=
    (Nat.length_toDigits_le_iff (by decide) Nat.length_toDigits_pos).mp le_rfl
  have hcast : (d.digits : ℚ) < 10 ^ (Nat.toDigits 10 d.digits).length := by
    exact_mod_cast hlength
  rw [value, magnitude, zpow_add₀ (by norm_num), zpow_natCast]
  exact mul_lt_mul_of_pos_right hcast (zpow_pos (by norm_num) _)

theorem le_value {d : Decimal} (h : d.digits ≠ 0) : 10 ^ (d.magnitude - 1) ≤ d.value := by
  obtain ⟨k, hk⟩ : ∃ k, (Nat.toDigits 10 d.digits).length = k + 1 :=
    Nat.exists_eq_add_one.mpr Nat.length_toDigits_pos
  have hdigits : 10 ^ k ≤ d.digits := by
    obtain rfl | hpos := Nat.eq_zero_or_pos k
    · omega
    · by_contra hlt
      have := (Nat.length_toDigits_le_iff (b := 10) (by decide) hpos).mpr (not_le.mp hlt)
      omega
  have hcast : (10 : ℚ) ^ k ≤ d.digits := by exact_mod_cast hdigits
  rw [value, magnitude, hk, show ((k + 1 : ℕ) : ℤ) + d.exponent - 1 = k + d.exponent by omega,
    zpow_add₀ (by norm_num), zpow_natCast]
  exact mul_le_mul_of_nonneg_right hcast (zpow_nonneg (by norm_num) _)

/-- What starts far behind the point is less than half the least positive number. -/
theorem units_of_magnitude_le {d : Decimal} (h : d.magnitude ≤ -324) : d.units = 0 := by
  have hcast {n : ℕ} (hn : 2 * one < 10 ^ n) : (2 : ℚ) * (one : ℕ) < 10 ^ n := by
    exact_mod_cast hn
  have hone : (2 : ℚ) * (one : ℕ) < 10 ^ 324 := hcast (by decide +kernel)
  have hvalue : d.value < (10 ^ 324)⁻¹ :=
    calc d.value < 10 ^ d.magnitude := d.value_lt
      _ ≤ 10 ^ (-324 : ℤ) := zpow_le_zpow_right₀ (by norm_num) h
      _ = (10 ^ 324)⁻¹ := by rw [zpow_neg]; rfl
  have hden : (0 : ℚ) < d.denominator := by exact_mod_cast d.denominator_pos
  have hratio : (d.numerator : ℚ) / d.denominator < 1 / 2 := by
    have hpow : (0 : ℚ) < 10 ^ 324 := by positivity
    calc (d.numerator : ℚ) / d.denominator = d.value * one := d.numerator_div_denominator
      _ ≤ (10 ^ 324)⁻¹ * one := mul_le_mul_of_nonneg_right hvalue.le (Nat.cast_nonneg _)
      _ < 1 / 2 := by
          rw [inv_mul_lt_iff₀ hpow, mul_one_div, lt_div_iff₀ two_pos, mul_comm]
          exact hone
  have hsmall : 2 * (d.numerator : ℚ) < d.denominator := by
    rw [div_lt_iff₀ hden] at hratio
    linarith
  exact round_of_small (by exact_mod_cast hsmall)

theorem limit_le_units_of_magnitude {d : Decimal} (hdigits : d.digits ≠ 0)
    (h : 310 ≤ d.magnitude) : limit ≤ d.units := by
  have hcast {n : ℕ} (hn : limit ≤ 10 ^ n * one) : (limit : ℚ) ≤ 10 ^ n * (one : ℕ) := by
    exact_mod_cast hn
  have hlimit : (limit : ℚ) ≤ 10 ^ 309 * (one : ℕ) := hcast (by decide +kernel)
  have hvalue : 10 ^ 309 ≤ d.value :=
    calc (10 : ℚ) ^ 309 = 10 ^ (309 : ℤ) := rfl
      _ ≤ 10 ^ (d.magnitude - 1) := zpow_le_zpow_right₀ (by norm_num) (by omega)
      _ ≤ d.value := le_value hdigits
  have hden : (0 : ℚ) < d.denominator := by exact_mod_cast d.denominator_pos
  have hratio : (limit : ℚ) ≤ d.numerator / d.denominator := by
    rw [numerator_div_denominator]
    exact hlimit.trans (mul_le_mul_of_nonneg_right hvalue (Nat.cast_nonneg _))
  have hquotient : limit ≤ d.numerator / d.denominator := by
    rw [le_div_iff₀ hden] at hratio
    rw [Nat.le_div_iff_mul_le d.denominator_pos]
    exact_mod_cast hratio
  exact limit_le_round hquotient

/-- The decimals that are settled by their magnitude are not nearest to a positive number,
so the others are read by rounding. -/
theorem ofDecimal_of_units {d : Decimal} {n : ℕ} (h : d.units = n) (hpos : 0 < n)
    (hn : Representable n) (negative : Bool) : ofDecimal negative d = finite negative n hn := by
  have hdigits : d.digits ≠ 0 := by
    intro hzero
    rw [units_of_no_digits hzero] at h
    omega
  have hlow : ¬ d.magnitude ≤ -324 := by
    intro hsmall
    rw [units_of_magnitude_le hsmall] at h
    omega
  have hhigh : ¬ 310 ≤ d.magnitude := by
    intro hlarge
    have := limit_le_units_of_magnitude hdigits hlarge
    have := hn.1
    omega
  have hround : round d.numerator d.denominator = n := h
  change (if d.digits = 0 ∨ d.magnitude ≤ -324 then zero negative
    else if 310 ≤ d.magnitude then infinite negative
    else ofQuotient negative d.numerator d.denominator) = _
  rw [if_neg (not_or.mpr ⟨hdigits, hlow⟩), if_neg hhigh, ofQuotient,
    dif_pos (by rw [hround]; exact hn.1)]
  simp only [hround]

end Decimal
end GnssFusion
